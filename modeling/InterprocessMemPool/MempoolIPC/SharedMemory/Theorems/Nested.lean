import InterprocessMemPool.MempoolIPC.SharedMemory.Theorems.Linked

namespace UtilsIPC

variable {fits : Fits} {h h' : Host} {l l' : Variable} {b g i j o : ℕ} {c : Host.Config}
variable {n : Name} {m m' : MappingPtr} {p : ObjectPtr} {s : Segment} {f : MappingPtr → MappingPtr}

open Variable Host

namespace Host

-- The objects have been made with pointers that had been returned.
def Attached (h : Host) : Prop :=
  ∀ {o : ℕ} {p}, h.objects[o]? = some p → ∃ m, h.mappings[p.segmentPtr]? = some m ∧ m.phase ≠ .opened

theorem exists_modify (hm : h.mappings[b]? = some m) (hf : m.phase ≠ .opened → (f m).phase ≠ .opened)
    (hj : ∃ m, h.mappings[j]? = some m ∧ m.phase ≠ .opened) :
    ∃ m, (h.mappings.modify b f)[j]? = some m ∧ m.phase ≠ .opened := by
  obtain ⟨m', hm', hφ⟩ := hj
  rw [List.getElem?_modify_eq_ite hm]
  split
  case isTrue he  =>
    subst he
    obtain rfl := Option.some.inj (hm.symm.trans hm')
    exact ⟨_, rfl, hf hφ⟩
  case isFalse he => exact ⟨m', hm', hφ⟩

end Host

theorem attached_next (hn : Next fits h l h' l') (ha : h.Attached) : h'.Attached := by
  intro o p hp
  cases hn
  case find | create =>
    obtain ⟨m, hm, hφ⟩ := ha hp
    exact ⟨m, List.getElem?_append_some hm, hφ⟩
  case increment hm _ _ => exact exists_modify hm (fun _ => by simp) (ha hp)
  case remove hm _ _    => exact exists_modify hm (fun _ => by simp only; split <;> simp) (ha hp)
  case unlink hm        => exact exists_modify hm (fun _ => by simp) (ha hp)
  case copy hm _ | drop hm _ => exact exists_modify hm id (ha hp)
  case delete | refuse => exact ha hp
  case acquire b m s s' name x ptr hm _ hh _ _ =>
    rw [List.getElem?_concat_eq_ite] at hp
    refine exists_modify hm id ?_
    split at hp
    · obtain rfl := Option.some.inj hp
      exact ⟨m, hm, (of_decide_eq_true hh).right⟩
    · exact ha hp
  case copyObject | dropObject | destroy =>
    obtain ⟨p₀, hp₀, rfl⟩ := List.exists_of_getElem?_modify hp
    have := ha hp₀
    split <;> exact this
  case detach hm _ =>
    obtain ⟨p₀, hp₀, rfl⟩ := List.exists_of_getElem?_modify hp
    have := exists_modify (f := fun m => { m with use_count := m.use_count - 1 }) hm id (ha hp₀)
    split <;> exact this

namespace Host

theorem mappings_modify (hm : h.mappings[b]? = some m) (hh : h'.mappings = h.mappings.modify b f) :
    h'.mappings[j]? = if b = j then some (f m) else h.mappings[j]? := by
  rw [hh, List.getElem?_modify_eq_ite hm]

-- There is a pointer to the segment whose mapping has not been removed yet.
def Mapped (h : Host) (g : ℕ) : Prop :=
  ∃ m ∈ h.mappings, m.segment = g ∧ m.phase ≠ .closed

-- A segment is found by its name until it is removed, and nobody else has it when it is about to be.
structure Bound (h : Host) : Prop where
  found_iff : ∀ {g : ℕ} {s}, h.segments[g]? = some s →
    (h.shared_memory (c_str (GetMappingName s.mapped.text)) = some g ↔ h.Mapped g)
  alone     : ∀ {b j : ℕ} {m m'}, h.mappings[b]? = some m → h.mappings[j]? = some m' → m.segment = m'.segment →
    m.phase = .unlinking → b ≠ j → m'.phase = .closed

theorem mapped_concat (hm : h'.mappings = h.mappings ++ [m]) (hφ : m.phase ≠ .closed) :
    h'.Mapped g ↔ h.Mapped g ∨ m.segment = g := by
  simp [Mapped, hm, or_and_right, exists_or, hφ]

theorem mapped_modify_of_ne (hm : h.mappings[b]? = some m) (hh : h'.mappings = h.mappings.modify b f)
    (hs : (f m).segment = m.segment) (hg : m.segment ≠ g) : h'.Mapped g ↔ h.Mapped g := by
  simp only [Mapped, List.mem_iff_getElem?, mappings_modify hm hh]
  constructor
  · rintro ⟨m', ⟨j, hj⟩, hm'⟩
    split at hj
    · obtain rfl := Option.some.inj hj
      exact absurd (hs.symm.trans hm'.left) hg
    · exact ⟨m', ⟨j, hj⟩, hm'⟩
  · rintro ⟨m', ⟨j, hj⟩, hm'⟩
    refine ⟨m', ⟨j, ?_⟩, hm'⟩
    rw [if_neg, hj]
    rintro rfl
    obtain rfl := Option.some.inj (hm.symm.trans hj)
    exact hg hm'.left

-- What matters about a pointer for its segment being found.
def standing (m : MappingPtr) : ℕ × Bool × Bool :=
  (m.segment, m.phase ≠ .closed, m.phase = .unlinking)

theorem Bound.congr (hb : h.Bound) (hf : h'.shared_memory = h.shared_memory)
    (hs : h'.segments.map Segment.mapped = h.segments.map Segment.mapped)
    (hm : h'.mappings.map standing = h.mappings.map standing) : h'.Bound := by
  have hmapped (g : ℕ) (h : Host) : h.Mapped g ↔ (g, true) ∈ (h.mappings.map standing).map fun x => (x.1, x.2.1) := by
    simp [Mapped, standing]
  constructor
  case found_iff =>
    intro g s hg
    obtain ⟨s₀, hs₀, he⟩ := List.exists_of_map_eq hs.symm hg
    rw [hf, ← he, hb.found_iff hs₀, hmapped, hmapped, hm]
  case alone     =>
    intro b j m m' hb' hj he hφ hne
    obtain ⟨m₀, hm₀, h₀⟩ := List.exists_of_map_eq hm.symm hb'
    obtain ⟨m₁, hm₁, h₁⟩ := List.exists_of_map_eq hm.symm hj
    simp only [standing, Prod.mk.injEq, decide_eq_decide, not_iff_not] at h₀ h₁
    have := hb.alone hm₀ hm₁ (by rw [h₀.left, h₁.left, he]) (h₀.right.right.mpr hφ) hne
    exact h₁.right.left.mp this

end Host

theorem Host.counted_close (hm : h.mappings[b]? = some m) (hφ : m.phase = .counted) :
    (h.modifyMapping b fun m => { m with phase := .closed }).counted m.segment = h.counted m.segment - 1 := by
  rw [counted_modify_lose hm rfl rfl hφ (by simp), if_pos rfl]

section

variable {x : SharedMapping} (hc : h.Counting) (hl : h.Linked) (hm : h.mappings[b]? = some m)
variable (hs : h.segments[m.segment]? = some s) (hφ : m.phase = .counted)
include hc hl hm hs hφ

theorem Host.Counting.last (hi : (s.mapping m.name.text).remove_mapping fits = (x, true)) :
    h.counted m.segment = 1 ∧ (s.mapping m.name.text).counter = some 1 := by
  have hx := hc.mappings hs
  rw [hl.mapped_eq hm hs] at hx
  have hk := (hx.remove_mapping (counted_pos hm hφ) hi).right.mp rfl
  obtain ⟨n, hn⟩ := Option.isSome_iff_exists.mp (hx.named (counted_pos hm hφ)).right
  have hcount := hx.count
  rw [hn, hk, Option.getD_some] at hcount
  exact ⟨hk, hn.trans (congrArg some (UInt64.toNat_inj.mp hcount))⟩

theorem Host.Counting.others (hi : (s.mapping m.name.text).remove_mapping fits = (x, false)) :
    (h.modifyMapping b fun m => { m with phase := .closed }).Mapped m.segment := by
  have hx := hc.mappings hs
  rw [hl.mapped_eq hm hs] at hx
  have hpos := counted_pos hm hφ
  have hk := (hx.remove_mapping hpos hi).right
  have hclose := counted_close hm hφ
  have hpos : 0 < (h.modifyMapping b fun m => { m with phase := .closed }).counted m.segment := by
    have : h.counted m.segment ≠ 1 := by simpa using hk
    omega
  obtain ⟨m', hm', hp⟩ := List.countP_pos_iff.mp hpos
  have hp := of_decide_eq_true hp
  exact ⟨m', hm', hp.left, by simp [hp.right]⟩

end

-- The pointer from which the counter goes to 0.
theorem Host.Bound.closed_of_last (hb : h.Bound) (hm : h.mappings[i]? = some m) (hφ : m.phase = .counted)
    (hk : h.counted m.segment = 1)
    (ho : ∀ m' ∈ h.mappings, m'.segment = m.segment → m'.phase ≠ .opened) (hj : h.mappings[j]? = some m')
    (he : m.segment = m'.segment) (hne : i ≠ j) : m'.phase = .closed := by
  cases hφ' : m'.phase
  case opened    => exact absurd hφ' (ho m' (List.mem_of_getElem? hj) he.symm)
  case counted   =>
    have h₁ := counted_close hm hφ
    have h₂ := counted_pos (h := h.modifyMapping i fun m => { m with phase := .closed }) (b := j)
      (by rw [mappings_modify hm rfl, if_neg hne, hj]) hφ'
    rw [← he] at h₂
    omega
  case unlinking => cases hφ.symm.trans (hb.alone hj hm he.symm hφ' hne.symm)
  case closed    => rfl

namespace Host.Bound

section

variable (hb : h.Bound) (hl : h.Linked)
include hb hl

theorem find (hg : h.shared_memory (c_str (GetMappingName n.text)) = some g)
    (hu : ∀ m ∈ h.mappings, m.name = n → m.phase ≠ .unlinking) :
    Bound { h with mappings := h.mappings ++ [⟨n, g, 1, .opened⟩] } := by
  obtain ⟨s₀, hs₀, hname⟩ := hl.found hg
  constructor
  case found_iff =>
    intro g' s hs
    rw [mapped_concat rfl (by simp), ← hb.found_iff hs]
    refine ⟨.inl, fun h => h.elim id ?_⟩
    rintro rfl
    obtain rfl := Option.some.inj (hs₀.symm.trans hs)
    exact hname ▸ hg
  case alone     =>
    intro b j m m' hbm hjm he hφ hne
    rw [List.getElem?_concat_eq_ite] at hbm hjm
    split at hbm
    · obtain rfl := Option.some.inj hbm
      cases hφ
    split at hjm
    · obtain rfl := Option.some.inj hjm
      exact absurd hφ (hu m (List.mem_of_getElem? hbm) ((hl.mapped_eq hbm (he ▸ hs₀)).symm.trans hname))
    · exact hb.alone hbm hjm he hφ hne

theorem create (hg : h.shared_memory (c_str (GetMappingName n.text)) = none) : Bound { h with
    shared_memory := Function.update h.shared_memory (c_str (GetMappingName n.text)) (some h.segments.length)
    segments      := h.segments ++ [.new n]
    mappings      := h.mappings ++ [⟨n, h.segments.length, 1, .opened⟩] } := by
  constructor
  case found_iff =>
    intro g s hs
    rw [mapped_concat rfl (by simp)]
    rw [List.getElem?_concat_eq_ite] at hs
    split at hs
    case isTrue hlen  =>
      obtain rfl := Option.some.inj hs
      simp [Segment.new, hlen]
    case isFalse hlen =>
      simp only [hlen, or_false, ← hb.found_iff hs, Function.update_apply]
      split
      case isTrue he  => simp [he, hg, hlen]
      case isFalse he => rfl
  case alone     =>
    intro b j m m' hbm hjm he hφ hne
    rw [List.getElem?_concat_eq_ite] at hbm hjm
    split at hbm
    · obtain rfl := Option.some.inj hbm
      cases hφ
    split at hjm
    · obtain rfl := Option.some.inj hjm
      exact absurd he (hl.mapping_lt hbm).ne
    · exact hb.alone hbm hjm he hφ hne

variable (hm : h.mappings[i]? = some m)
include hm

theorem remove {s' : SharedMapping} {shouldRemove : Bool} (hc : h.Counting) (hs : h.segments[m.segment]? = some s)
    (hi : (s.mapping m.name.text).remove_mapping fits = (s', shouldRemove)) (hφ : m.phase = .counted)
    (hu : (s.mapping m.name.text).counter = some 1 → ∀ m' ∈ h.mappings, m'.segment = m.segment → m'.phase ≠ .opened) :
    ((h.modifySegment m.segment (·.setMapping m.name.text s')).modifyMapping i
      fun m => { m with phase := if shouldRemove then .unlinking else .closed }).Bound := by
  constructor
  case found_iff =>
    intro g t ht
    obtain ⟨t, hs₁, rfl⟩ := List.exists_of_getElem?_modify ht
    rw [show (if m.segment = g then t.setMapping m.name.text s' else t).mapped = t.mapped by split <;> rfl]
    refine (hb.found_iff hs₁).trans ?_
    by_cases hg : m.segment = g
    case neg => exact (mapped_modify_of_ne hm rfl rfl hg).symm
    subst hg
    obtain rfl := Option.some.inj (hs.symm.trans hs₁)
    refine iff_of_true ⟨m, List.mem_of_getElem? hm, rfl, by simp [hφ]⟩ ?_
    cases shouldRemove
    case true  => exact ⟨_, List.mem_of_getElem? ((mappings_modify hm rfl).trans (if_pos rfl)), rfl, by simp⟩
    case false =>
      obtain ⟨m', hm', hp⟩ := hc.others hl hm hs hφ hi
      exact ⟨m', hm', hp⟩
  case alone     =>
    intro b j m₁ m' hbm hjm he hφ₁ hne
    rw [mappings_modify hm rfl] at hbm hjm
    split at hbm
    · obtain rfl := Option.some.inj hbm
      rw [if_neg (by omega)] at hjm
      have hremove : shouldRemove := by
        by_contra hf
        simp [hf] at hφ₁
      obtain ⟨hk, hcounter⟩ := hc.last hl hm hs hφ (hremove ▸ hi)
      exact hb.closed_of_last hm hφ hk (hu hcounter) hjm he (by omega)
    split at hjm
    · obtain rfl := Option.some.inj hjm
      cases hφ.symm.trans (hb.alone hbm hm he hφ₁ (by omega))
    · exact hb.alone hbm hjm he hφ₁ hne

theorem unlink (hφ : m.phase = .unlinking) : Bound { h.modifyMapping i fun m => { m with phase := .closed } with
    shared_memory := Function.update h.shared_memory (c_str (GetMappingName m.name.text)) none } := by
  constructor
  case found_iff =>
    intro g s hs
    obtain ⟨s₀, hs₀, he₀⟩ := hl.named hm
    by_cases hg : m.segment = g
    · subst hg
      obtain rfl := Option.some.inj (hs₀.symm.trans hs)
      refine iff_of_false (by simp [he₀]) ?_
      rintro ⟨m', hm', he, hne⟩
      obtain ⟨j, hj⟩ := List.getElem?_of_mem hm'
      rw [mappings_modify hm rfl] at hj
      split at hj
      case isTrue hij  =>
        obtain rfl := Option.some.inj hj
        exact hne rfl
      case isFalse hij => exact hne (hb.alone hm hj he.symm hφ hij)
    · rw [mapped_modify_of_ne hm rfl rfl hg, ← hb.found_iff hs]
      simp only [Function.update_apply]
      split
      case isTrue he  =>
        have hfound := (hb.found_iff hs₀).mpr ⟨m, List.mem_of_getElem? hm, rfl, by simp [hφ]⟩
        rw [he₀, ← he] at hfound
        simp [hfound, hg]
      case isFalse he => rfl
  case alone     =>
    intro b j m₁ m' hbm hjm he hφ₁ hne
    rw [mappings_modify hm rfl] at hbm hjm
    split at hbm
    · obtain rfl := Option.some.inj hbm
      cases hφ₁
    split at hjm
    · obtain rfl := Option.some.inj hjm
      rfl
    · exact hb.alone hbm hjm he hφ₁ hne

end

end Host.Bound

theorem bound_next (hn : Next fits h l h' l') (hr : Ready h l) (hu : l.Undisturbed fits h) (hl : h.Linked)
    (hc : h.Counting)
    (hb : h.Bound) : h'.Bound := by
  cases hn
  case find hg        => exact hb.find hl hg hu
  case create hg      => exact hb.create hl hg
  case remove i m s s' shouldRemove hm hs hi =>
    exact hb.remove hl hm hc hs hi (phase_eq_of_inPhase hm (hr.removing i rfl).left) (hu m hm s hs)
  case unlink i m hm  => exact hb.unlink hl hm (phase_eq_of_inPhase hm (hr.unlinking i rfl))
  case increment i m s s' hm hs hi =>
    have hφ := phase_eq_of_inPhase hm (hr.opened i rfl)
    refine hb.congr rfl (List.map_modify_of_eq fun _ _ => rfl) (List.map_modify_of_eq fun a ha => ?_)
    obtain rfl := Option.some.inj (ha.symm.trans hm)
    simp [standing, hφ]
  case delete => exact hb
  all_goals
    refine hb.congr rfl ?_ ?_
    all_goals first | rfl | exact List.map_modify_of_eq fun _ _ => rfl

namespace Host

-- The pointers that count as acquisitions of the object, until their deleters have been called.
def acquired (h : Host) (g : ℕ) (n : Name) : ℕ :=
  h.objects.countP fun p => p.segment = g ∧ p.name = n ∧ p.phase = .owned

-- What the processes may rely on while they have pointers to segments and to the objects in them.
structure Nested (h : Host) : Prop where
  counter   : ∀ {g : ℕ} {s}, h.segments[g]? = some s → ((s.mapping s.mapped.text).counter.getD 0).toNat = h.counted g
  count     : ∀ {g : ℕ} {s}, h.segments[g]? = some s → ∀ n : Name, (s.object n.text).count = h.acquired g n
  destroyed : ∀ {g : ℕ} {s}, h.segments[g]? = some s → ∀ n : Name, h.acquired g n = 0 → (s.object n.text).object = none
  alive     : ∀ {o : ℕ} {p}, h.objects[o]? = some p → p.phase = .owned → ∃ s, h.segments[p.segment]? = some s ∧
    ∀ k ∈ p.ptr.get, (s.object p.name.text).object = some k
  attached  : ∀ {o : ℕ} {p}, h.objects[o]? = some p → p.phase ≠ .detached →
    ∃ m, h.mappings[p.segmentPtr]? = some m ∧ m.segment = p.segment ∧ m.phase = .counted
  found_iff : ∀ {g : ℕ} {s}, h.segments[g]? = some s →
    (h.shared_memory (c_str (GetMappingName s.mapped.text)) = some g ↔ h.Mapped g)
  removed   : ∀ {b : ℕ} {m}, h.mappings[b]? = some m → m.phase = .unlinking →
    (∀ {j : ℕ} {m'}, h.mappings[j]? = some m' → m'.segment = m.segment → b ≠ j → m'.phase = .closed) ∧
    ∀ s ∈ h.segments[m.segment]?, ∀ n : Name, (s.object n.text).object = none

-- A step of a run is as if nobody opened a mapping that is being removed.
def Undisturbed (c : Config) : Program.Action Variable Fits → Prop
  | .enter _    => True
  | .run i fits => ∀ l ∈ c.calls[i]?, l.Undisturbed fits c.shared

instance : ∀ {a : Program.Action Variable Fits}, Decidable (Undisturbed c a)
  | .enter _ => inferInstanceAs (Decidable True)
  | .run _ _ => inferInstanceAs (Decidable (∀ _ ∈ _, _))

-- All that is known in a run.
structure Kept (c : Config) : Prop where
  owned    : Owned c
  linked   : c.shared.Linked
  attached : c.shared.Attached
  counting : c.shared.Counting
  bound    : c.shared.Bound

namespace Kept

theorem init : Kept ⟨.new, [], []⟩ where
  owned      := .init
  linked     := by constructor <;> simp [Host.new]
  attached   := by simp [Attached, Host.new]
  counting   := by constructor <;> simp [Host.new]
  bound      := by constructor <;> simp [Host.new]

theorem enter (hk : Kept c) (hs : l.starts) : Kept (c.enter l) where
  owned    := hk.owned.enter hs
  linked   := hk.linked
  attached := hk.attached
  counting := hk.counting
  bound    := hk.bound

theorem after (hk : Kept c) (hl : c.calls[i]? = some l) (hu : l.Undisturbed fits c.shared)
    (hs : l.step fits c.shared = some (h', l')) : Kept (c.after i l h' l') := by
  have hr := hk.owned.ready hl
  have hn := next_of_step hs fun b hb => by
    subst hb
    exact hu.left
  exact ⟨hk.owned.after hl hn, linked_next hn hk.linked, attached_next hn hk.attached,
    counting_next hn hr hu hk.linked hk.counting, bound_next hn hr hu hk.linked hk.counting hk.bound⟩

theorem invariant : (system.restrict Undisturbed).Invariant Kept :=
  Program.invariant_restrict (fun hi => hi ▸ init) (fun _ hk _ hs => hk.enter hs)
    fun _ hk hu hl hs => hk.after hl (hu _ hl) hs

theorem handles_countP (hc : c.shared.Counting) (n : Name) :
    (c.shared.handles g n).countP Handle.counted = c.shared.acquired g n := by
  rw [handles, List.countP_filterMap, acquired]
  refine List.countP_congr fun p hp => ?_
  obtain ⟨o, ho⟩ := List.getElem?_of_mem hp
  have := hc.deleters ho
  simp only [handle]
  split <;> simp_all [Handle.counted]

-- A deleter has a pointer to the segment that has been counted.
theorem counted_of_captured (hk : Kept c) (hp : c.shared.objects[o]? = some p) (hd : p.phase ≠ .detached) :
    ∃ m, c.shared.mappings[p.segmentPtr]? = some m ∧ m.segment = p.segment ∧ m.phase = .counted := by
  obtain ⟨m, hm, hseg⟩ := hk.linked.linked hp
  obtain ⟨m', hm', hφ⟩ := hk.attached hp
  obtain rfl := Option.some.inj (hm.symm.trans hm')
  have hcaptured : some p.segmentPtr ∈ c.shared.captured := by
    refine List.mem_map.mpr ⟨p, List.mem_of_getElem? hp, ?_⟩
    simp [ObjectPtr.captured, hd]
  have huses : 0 < c.shared.uses p.segmentPtr := by
    rw [hk.owned.uses, Program.Config.count_places]
    exact Nat.add_pos_left (List.count_pos_iff.mpr hcaptured) _
  have hremoving := hk.owned.removing p.segmentPtr
  have hopened := inPhase_eq (φ := .opened) hm
  rw [if_neg hφ] at hopened
  rw [if_pos huses, hopened] at hremoving
  refine ⟨m, hm, hseg, phase_eq_of_inPhase hm ?_⟩
  have := c.shared.inPhase_le .counted p.segmentPtr
  omega

theorem object_eq_none (hk : Kept c) (hs : c.shared.segments[g]? = some s) (ha : c.shared.acquired g n = 0) :
    (s.object n.text).object = none := by
  have hx := hk.counting.objects hs n
  exact hx.destroyed (hx.count.trans ((handles_countP hk.counting n).trans ha))

theorem nested_of_kept (hk : Kept c) : c.shared.Nested where
  counter hs        := (hk.counting.mappings hs).count
  count hs n        := (hk.counting.objects hs n).count.trans (handles_countP hk.counting n)
  destroyed hs n ha := hk.object_eq_none hs ha
  alive {o p} hp hφ := by
    obtain ⟨m, hm, hseg⟩ := hk.linked.linked hp
    obtain ⟨s, hs, _⟩ := hk.linked.named hm
    rw [hseg] at hs
    refine ⟨s, hs, (hk.counting.objects hs p.name).alive ⟨p.ptr, false⟩ ?_⟩
    exact List.mem_filterMap.mpr ⟨p, List.mem_of_getElem? hp, by simp [handle, hφ]⟩
  attached          := hk.counted_of_captured
  found_iff         := hk.bound.found_iff
  removed {b m} hm hφ := by
    have hclosed {j : ℕ} {m'} (hm' : c.shared.mappings[j]? = some m') (he : m'.segment = m.segment) (hne : b ≠ j) :
        m'.phase = .closed := hk.bound.alone hm hm' he.symm hφ hne
    refine ⟨hclosed, fun s hs n => hk.object_eq_none hs ?_⟩
    refine List.countP_eq_zero.mpr fun p hp hq => ?_
    obtain ⟨hseg, _, howned⟩ := of_decide_eq_true hq
    obtain ⟨o, ho⟩ := List.getElem?_of_mem hp
    obtain ⟨m', hm', he, hφ'⟩ := hk.counted_of_captured ho (by simp [howned])
    by_cases hb : b = p.segmentPtr
    · subst hb
      obtain rfl := Option.some.inj (hm.symm.trans hm')
      cases hφ.symm.trans hφ'
    · cases (hclosed hm' (he.trans hseg) hb).symm.trans hφ'

end Kept

end Host

-- In every run in which no mapping is opened while it is being removed, no counter wraps around and no constructor
-- throws.
theorem nested (h : (Host.system.restrict Host.Undisturbed).Reachable c) : c.shared.Nested :=
  (Kept.invariant.holds h).nested_of_kept

theorem nested_run : ∃ c : Host.Config, (c.shared.objects.map (·.phase) = [.detached, .detached] ∧
    c.shared.mappings.map (·.phase) = [.closed, .unlinking]) ∧ c.shared.Nested := by
  have ⟨c, hr, hq⟩ : ∃ c, (Host.system.restrict Host.Undisturbed).Reachable c ∧
      c.shared.objects.map (·.phase) = [.detached, .detached] ∧
      c.shared.mappings.map (·.phase) = [.closed, .unlinking] :=
    Program.exec_reachable rfl <| show Option.any _ (System.exec _ _ _ [
      .enter (.opening ⟨['m'], by decide⟩), .run 0 {}, .run 0 {},
      .enter (.opening ⟨['m'], by decide⟩), .run 1 {}, .run 1 {},
      .enter (.creating 0 ⟨['x'], by decide⟩ { nProcessMax := 2 }), .run 2 {},
      .enter (.creating 1 ⟨['x'], by decide⟩ { nProcessMax := 2 }), .run 3 {},
      .run 0 {}, .run 2 {}, .run 2 {}, .run 2 {}, .run 2 {}, .run 2 {},
      .run 1 {}, .run 3 {}, .run 3 {}, .run 3 {}, .run 3 {}]) by decide +kernel
  exact ⟨c, hq, nested hr⟩

end UtilsIPC
