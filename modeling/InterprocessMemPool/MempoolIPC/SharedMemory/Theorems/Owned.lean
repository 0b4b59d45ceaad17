import InterprocessMemPool.MempoolIPC.SharedMemory.Theorems.Pointers

open References

namespace UtilsIPC

variable {fits : Fits} {h h' : Host} {l l' : Variable} {b o i : ℕ} {c : Host.Config}

open Variable Host

-- Who has the pointers, and who runs their deleters: a deleter is run once, by the variable whose pointer was
-- the last.
structure Owned (c : Host.Config) : Prop where
  uses       : Exact c.shared.uses (c.places Host.captured fun l => [l.segmentPtr])
  opened     : ∀ b, c.count opens b = c.shared.inPhase .opened b
  removing   : ∀ b, c.count removes b + (if 0 < c.shared.uses b then 1 else 0) =
    c.shared.inPhase .opened b + c.shared.inPhase .counted b
  unlinking  : ∀ b, c.count unlinks b = c.shared.inPhase .unlinking b
  objectUses : Exact c.shared.objectUses (c.places (fun _ => []) fun l => [l.objectPtr])
  destroying : ∀ o, c.count destroys o + (if 0 < c.shared.objectUses o then 1 else 0) = c.shared.objectInPhase .owned o
  detaching  : ∀ o, c.count detaches o = c.shared.objectInPhase .deleted o

-- What a variable knows of the pointers at which it is.
structure Ready (h : Host) (l : Variable) : Prop where
  opened     : ∀ b, l.opens = some b → h.inPhase .opened b = 1
  removing   : ∀ b, l.removes = some b → h.inPhase .counted b = 1 ∧ h.uses b = 0
  unlinking  : ∀ b, l.unlinks = some b → h.inPhase .unlinking b = 1
  destroying : ∀ o, l.destroys = some o → h.objectInPhase .owned o = 1 ∧ h.objectUses o = 0
  detaching  : ∀ o, l.detaches = some o → h.objectInPhase .deleted o = 1

section

variable (hn : Next fits h l h' l') (hr : Ready h l)
include hn hr

theorem opened_next : h'.inPhase .opened b + (if l.opens = some b then 1 else 0) =
    h.inPhase .opened b + (if l'.opens = some b then 1 else 0) := by
  cases hn
  case find | create =>
    have := inPhase_length (h := h) (φ := .opened)
    rw [inPhase_concat rfl]
    grind [opens]
  case increment hm _ _ =>
    have := hr.opened _ rfl
    rw [inPhase_modify hm rfl]
    grind [opens]
  case copy hm _ | drop hm _ | acquire hm _ _ _ _ | detach hm _ =>
    have := inPhase_eq (φ := .opened) hm
    rw [inPhase_modify hm rfl]
    grind [opens]
  case remove hm _ _ =>
    have := (hr.removing _ rfl).left
    have := inPhase_add_le h b
    have := inPhase_eq (φ := .opened) hm
    have := inPhase_eq (φ := .counted) hm
    rw [inPhase_modify hm rfl]
    grind [opens]
  case unlink hm =>
    have := hr.unlinking _ rfl
    have := inPhase_eq (φ := .opened) hm
    have := inPhase_eq (φ := .unlinking) hm
    rw [inPhase_modify hm rfl]
    grind [opens]
  all_goals
    change h.inPhase .opened b + _ = _
    grind [opens]

theorem removing_next : h'.inPhase .opened b + h'.inPhase .counted b +
      ((if l.removes = some b then 1 else 0) + (if 0 < h.uses b then 1 else 0)) =
    h.inPhase .opened b + h.inPhase .counted b +
      ((if l'.removes = some b then 1 else 0) + (if 0 < h'.uses b then 1 else 0)) := by
  cases hn
  case find | create =>
    have := inPhase_length (h := h) (φ := .opened)
    have := inPhase_length (h := h) (φ := .counted)
    have := uses_length (h := h)
    conv_lhs => rw [inPhase_concat (φ := .opened) rfl, inPhase_concat (φ := .counted) rfl]
    conv_rhs => rw [uses_concat rfl]
    grind [removes]
  case increment hm _ _ =>
    have := hr.opened _ rfl
    have := inPhase_eq (φ := .opened) hm
    have := inPhase_eq (φ := .counted) hm
    have := uses_eq hm
    conv_lhs => rw [inPhase_modify (φ := .opened) hm rfl, inPhase_modify (φ := .counted) hm rfl]
    conv_rhs => rw [uses_modify hm rfl]
    grind [removes]
  case copy hm hh | acquire hm _ hh _ _ =>
    have := (of_decide_eq_true hh).left
    have := inPhase_eq (φ := .opened) hm
    have := inPhase_eq (φ := .counted) hm
    have := uses_eq hm
    conv_lhs => rw [inPhase_modify (φ := .opened) hm rfl, inPhase_modify (φ := .counted) hm rfl]
    conv_rhs => rw [uses_modify hm rfl]
    grind [removes]
  case drop hm hu | detach hm hu =>
    have := inPhase_eq (φ := .opened) hm
    have := inPhase_eq (φ := .counted) hm
    have := uses_eq hm
    conv_lhs => rw [inPhase_modify (φ := .opened) hm rfl, inPhase_modify (φ := .counted) hm rfl]
    conv_rhs => rw [uses_modify hm rfl]
    grind [removes]
  case remove hm _ _ =>
    have := hr.removing _ rfl
    have := inPhase_eq (φ := .opened) hm
    have := inPhase_eq (φ := .counted) hm
    have := uses_eq hm
    conv_lhs => rw [inPhase_modify (φ := .opened) hm rfl, inPhase_modify (φ := .counted) hm rfl]
    conv_rhs => rw [uses_modify hm rfl]
    grind [removes]
  case unlink hm =>
    have := hr.unlinking _ rfl
    have := inPhase_eq (φ := .opened) hm
    have := inPhase_eq (φ := .counted) hm
    have := inPhase_eq (φ := .unlinking) hm
    have := uses_eq hm
    conv_lhs => rw [inPhase_modify (φ := .opened) hm rfl, inPhase_modify (φ := .counted) hm rfl]
    conv_rhs => rw [uses_modify hm rfl]
    grind [removes]
  all_goals
    change h.inPhase .opened b + h.inPhase .counted b + _ = _ + (_ + if 0 < h.uses b then 1 else 0)
    grind [removes]

theorem unlinking_next : h'.inPhase .unlinking b + (if l.unlinks = some b then 1 else 0) =
    h.inPhase .unlinking b + (if l'.unlinks = some b then 1 else 0) := by
  cases hn
  case find | create =>
    have := inPhase_length (h := h) (φ := .unlinking)
    rw [inPhase_concat rfl]
    grind [unlinks]
  case increment hm _ _ =>
    have := hr.opened _ rfl
    have := inPhase_eq (φ := .opened) hm
    have := inPhase_eq (φ := .unlinking) hm
    rw [inPhase_modify hm rfl]
    grind [unlinks]
  case copy hm _ | drop hm _ | acquire hm _ _ _ _ | detach hm _ =>
    have := inPhase_eq (φ := .unlinking) hm
    rw [inPhase_modify hm rfl]
    grind [unlinks]
  case remove shouldRemove hm _ _ =>
    have := (hr.removing _ rfl).left
    have := inPhase_eq (φ := .counted) hm
    have := inPhase_eq (φ := .unlinking) hm
    rw [inPhase_modify hm rfl]
    cases shouldRemove <;> grind [unlinks]
  case unlink hm =>
    have := hr.unlinking _ rfl
    rw [inPhase_modify hm rfl]
    grind [unlinks]
  case delete remove => cases remove <;> grind [unlinks]
  all_goals
    change h.inPhase .unlinking b + _ = _
    grind [unlinks]

theorem destroying_next : h'.objectInPhase .owned o +
      ((if l.destroys = some o then 1 else 0) + (if 0 < h.objectUses o then 1 else 0)) =
    h.objectInPhase .owned o +
      ((if l'.destroys = some o then 1 else 0) + (if 0 < h'.objectUses o then 1 else 0)) := by
  cases hn
  case acquire =>
    have := objectInPhase_length (h := h) (ψ := .owned)
    have := objectUses_length (h := h)
    conv_lhs => rw [objectInPhase_concat rfl]
    conv_rhs => rw [objectUses_concat rfl]
    grind [destroys]
  case copyObject hp hu | dropObject hp hu =>
    have := objectInPhase_eq (ψ := .owned) hp
    have := objectUses_eq hp
    conv_lhs => rw [objectInPhase_modify hp rfl]
    conv_rhs => rw [objectUses_modify hp rfl]
    grind [destroys]
  case destroy hp _ =>
    have := hr.destroying _ rfl
    have := objectUses_eq hp
    conv_lhs => rw [objectInPhase_modify hp rfl]
    conv_rhs => rw [objectUses_modify hp rfl]
    grind [destroys]
  case detach hp _ _ =>
    have := hr.detaching _ rfl
    have := objectInPhase_eq (ψ := .owned) hp
    have := objectInPhase_eq (ψ := .deleted) hp
    have := objectUses_eq hp
    conv_lhs => rw [objectInPhase_modify hp rfl]
    conv_rhs => rw [objectUses_modify hp rfl]
    grind [destroys]
  all_goals
    change h.objectInPhase .owned o + _ = _ + (_ + if 0 < h.objectUses o then 1 else 0)
    grind [destroys]

theorem detaching_next : h'.objectInPhase .deleted o + (if l.detaches = some o then 1 else 0) =
    h.objectInPhase .deleted o + (if l'.detaches = some o then 1 else 0) := by
  cases hn
  case acquire =>
    have := objectInPhase_length (h := h) (ψ := .deleted)
    rw [objectInPhase_concat rfl]
    grind [detaches]
  case copyObject hp _ | dropObject hp _ =>
    have := objectInPhase_eq (ψ := .deleted) hp
    rw [objectInPhase_modify hp rfl]
    grind [detaches]
  case destroy hp _ =>
    have := (hr.destroying _ rfl).left
    have := objectInPhase_eq (ψ := .owned) hp
    have := objectInPhase_eq (ψ := .deleted) hp
    rw [objectInPhase_modify hp rfl]
    grind [detaches]
  case detach hp _ _ =>
    have := hr.detaching _ rfl
    rw [objectInPhase_modify hp rfl]
    grind [detaches]
  all_goals
    change h.objectInPhase .deleted o + _ = _
    grind [detaches]

theorem objectUses_next : h'.objectUses o + [l.objectPtr].count (some o) =
    h.objectUses o + [l'.objectPtr].count (some o) := by
  simp only [List.count_singleton, beq_iff_eq]
  cases hn
  case acquire =>
    have := objectUses_length (h := h)
    rw [objectUses_concat rfl]
    grind [objectPtr]
  case copyObject hp _ | dropObject hp _ | destroy hp _ | detach hp _ _ =>
    have := objectUses_eq hp
    rw [objectUses_modify hp rfl]
    grind [objectPtr]
  all_goals
    change h.objectUses o + _ = _
    grind [objectPtr]

theorem uses_next : h'.uses b + (l.segmentPtr :: h.captured).count (some b) =
    h.uses b + (l'.segmentPtr :: h'.captured).count (some b) := by
  simp only [List.count_cons, beq_iff_eq]
  cases hn
  case find | create =>
    have := uses_length (h := h)
    rw [uses_concat rfl]
    change _ = _ + (h.captured.count (some b) + _)
    grind [segmentPtr]
  case increment hm _ _ | copy hm _ | drop hm _ | remove hm _ _ | unlink hm =>
    have := uses_eq hm
    rw [uses_modify hm rfl]
    change _ = _ + (h.captured.count (some b) + _)
    grind [segmentPtr]
  case acquire hm _ _ _ _ =>
    have := uses_eq hm
    rw [uses_modify hm rfl]
    conv_rhs => rw [captured_concat rfl]
    simp only [List.count_append, List.count_singleton, ObjectPtr.captured]
    grind [segmentPtr]
  case copyObject hp _ | dropObject hp _ =>
    conv_rhs => rw [captured_modify_of_eq hp rfl rfl]
    change h.uses b + _ = _
    grind [segmentPtr]
  case destroy hp _ =>
    have hφ := objectInPhase_eq (ψ := .owned) hp
    rw [(hr.destroying _ rfl).left] at hφ
    conv_rhs => rw [captured_modify_of_eq hp rfl (by grind [ObjectPtr.captured])]
    rfl
  case detach hp hm hu =>
    have hφ := objectInPhase_eq (ψ := .deleted) hp
    rw [hr.detaching _ rfl] at hφ
    have := Handover.Moves.assign none (getElem?_captured hp) b
    have := uses_eq hm
    rw [uses_modify hm rfl]
    conv_rhs => rw [captured_modify hp rfl]
    simp only [ObjectPtr.captured, if_true] at this ⊢
    grind [segmentPtr, ObjectPtr.captured]
  all_goals
    change h.uses b + _ = _ + (h.captured.count (some b) + _)
    grind [segmentPtr]

end

namespace Owned

theorem one_le_uses (hw : Owned c) (hb : 1 ≤ c.count segmentPtr b) : 1 ≤ c.shared.uses b := by
  rw [hw.uses b, Program.Config.count_places]
  refine hb.trans (Nat.le_add_left_of_le (List.sum_le_sum fun l _ => ?_))
  simp only [List.count_singleton, beq_iff_eq, le_refl]

theorem ready (hw : Owned c) (hl : c.calls[i]? = some l) : Ready c.shared l := by
  constructor
  case opened =>
    intro b hb
    have h₁ := Program.Config.one_le_count hl hb
    have h₂ := hw.opened b
    have h₃ := c.shared.inPhase_le .opened b
    omega
  case removing =>
    intro b hb
    have h₁ := Program.Config.one_le_count hl hb
    have h₂ := hw.removing b
    have h₃ := hw.opened b
    have h₄ : c.count opens b ≤ c.count segmentPtr b := Program.Config.count_mono fun l hl => by
      cases l <;> simp_all [opens, segmentPtr]
    have h₅ : 1 ≤ c.count segmentPtr b → 1 ≤ c.shared.uses b := hw.one_le_uses
    have h₆ := c.shared.inPhase_add_le b
    split at h₂ <;> omega
  case unlinking =>
    intro b hb
    have h₁ := Program.Config.one_le_count hl hb
    have h₂ := hw.unlinking b
    have h₃ := c.shared.inPhase_le .unlinking b
    omega
  case destroying =>
    intro o ho
    have h₁ := Program.Config.one_le_count hl ho
    have h₂ := hw.destroying o
    have h₃ := c.shared.objectInPhase_le .owned o
    split at h₂ <;> omega
  case detaching =>
    intro o ho
    have h₁ := Program.Config.one_le_count hl ho
    have h₂ := hw.detaching o
    have h₃ := c.shared.objectInPhase_le .deleted o
    omega

theorem init : Owned ⟨.new, [], []⟩ := by
  constructor <;> simp [Exact, Program.Config.places, Program.Config.count, Program.Config.total, Host.new, Host.uses,
    Host.inPhase, Host.objectUses, Host.objectInPhase, Host.captured]

theorem enter (hw : Owned c) (hs : l.starts) : Owned (c.enter l) := by
  have hn : l.segmentPtr = none ∧ l.opens = none ∧ l.removes = none ∧ l.unlinks = none ∧ l.objectPtr = none ∧
      l.destroys = none ∧ l.detaches = none := by
    cases l <;> simp_all [starts, segmentPtr, opens, removes, unlinks, objectPtr, destroys, detaches]
  obtain ⟨h₁, h₂, h₃, h₄, h₅, h₆, h₇⟩ := hn
  constructor
  case uses       => exact hw.uses.congr fun e => Program.Config.count_places_enter e (by simp [h₁])
  case opened     => exact fun b => (Program.Config.count_enter h₂).trans (hw.opened b)
  case removing   => exact fun b => (congrArg (· + _) (Program.Config.count_enter h₃)).trans (hw.removing b)
  case unlinking  => exact fun b => (Program.Config.count_enter h₄).trans (hw.unlinking b)
  case objectUses => exact hw.objectUses.congr fun e => Program.Config.count_places_enter e (by simp [h₅])
  case destroying => exact fun o => (congrArg (· + _) (Program.Config.count_enter h₆)).trans (hw.destroying o)
  case detaching  => exact fun o => (Program.Config.count_enter h₇).trans (hw.detaching o)

theorem after (hw : Owned c) (hl : c.calls[i]? = some l) (hn : Next fits c.shared l h' l') :
    Owned (c.after i l h' l') := by
  have hr := hw.ready hl
  have hcount (p : Variable → Option ℕ) (e : ℕ) : (c.after i l h' l').count p e + (if p l = some e then 1 else 0) =
      c.count p e + (if p l' = some e then 1 else 0) := Program.Config.count_after p e hl
  constructor
  case uses       =>
    refine hw.uses.hand_over (Program.Config.moves_after hl (h := ⟨_, _⟩) fun e => Nat.add_comm ..) fun e => ?_
    exact uses_next hn hr
  case opened     =>
    intro b
    have := hw.opened b
    have := opened_next hn hr (b := b)
    have := hcount opens b
    simp only [Program.Config.after_shared]
    omega
  case removing   =>
    intro b
    have := hw.removing b
    have := removing_next hn hr (b := b)
    have := hcount removes b
    change (c.after i l h' l').count removes b + (if 0 < h'.uses b then 1 else 0) =
      h'.inPhase .opened b + h'.inPhase .counted b
    omega
  case unlinking  =>
    intro b
    have := hw.unlinking b
    have := unlinking_next hn hr (b := b)
    have := hcount unlinks b
    simp only [Program.Config.after_shared]
    omega
  case objectUses =>
    refine hw.objectUses.hand_over (Program.Config.moves_after hl (h := ⟨_, _⟩) fun e => Nat.add_comm ..) fun e => ?_
    simpa using objectUses_next hn hr
  case destroying =>
    intro o
    have := hw.destroying o
    have := destroying_next hn hr (o := o)
    have := hcount destroys o
    change (c.after i l h' l').count destroys o + (if 0 < h'.objectUses o then 1 else 0) = h'.objectInPhase .owned o
    omega
  case detaching  =>
    intro o
    have := hw.detaching o
    have := detaching_next hn hr (o := o)
    have := hcount detaches o
    simp only [Program.Config.after_shared]
    omega

end Owned
end UtilsIPC
