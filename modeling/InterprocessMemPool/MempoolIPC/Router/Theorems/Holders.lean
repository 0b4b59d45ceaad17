import InterprocessMemPool.MempoolIPC.Pipe.Theorems.Transition
import InterprocessMemPool.MempoolIPC.Router.Theorems.Sweep

namespace RouterIPC

variable {α : Type*} {r r' : RouterIPC α} {c : Config α} {l l' : Call α} {x : Choice α} {i j k : ℕ}

-- The pipe that a call has a strong pointer to.
def Call.handle : Call α → Option ℕ
  | .send s         =>
    match s.pc with
    | .sending _ _ k _ => some k
    | _                => none
  | .receiver s     =>
    match s with
    | .pushing k | .holding k | .calling k _ => some k
    | _                                      => none
  | .shutdown s     =>
    match s with
    | .shuttingDown _ k _ => some k
    | _                   => none
  | .numReceivers s =>
    match s with
    | .counting _ _ k => some k
    | _               => none

-- What a call does with that pipe.
def Call.inner : Call α → Option (PipeIPC.Call α)
  | .send s     =>
    match s.pc with
    | .sending _ _ _ c => some (.send c)
    | _                => none
  | .receiver s =>
    match s with
    | .calling _ c => some c
    | _            => none
  | .shutdown s =>
    match s with
    | .shuttingDown _ _ c => some (.shutdown c)
    | _                   => none
  | .numReceivers _ => none

-- Everything that a step can do to the pipes of a router, and to the strong pointers to them.
inductive Grip (r : RouterIPC α) (l : Call α) (r' : RouterIPC α) (l' : Call α) : Prop
  | keep (h : l'.handle = l.handle) (hr : r'.segment = r.segment)
  | lock (k : ℕ) (h : l.handle = none) (h' : l'.handle = some k) (hr : r.lock k = some r')
  | release (k : ℕ) (h : l.handle = some k) (h' : l'.handle = none) (hr : r' = r.release k)
  | within (k : ℕ) (e : PipeIPC.Counted α) (p : PipeIPC α) (b b' : PipeIPC.Call α) (x : Bool)
    (h : l.handle = some k) (h' : l'.handle = some k) (hb : l.inner = some b) (hb' : l'.inner = some b')
    (he : r.segment[k]? = some e) (hs : b.step x e.pipe = some (p, b'))
    (hr : r' = r.modify k fun e => { e with pipe := p })
  | construct (capacity_in : SizeT) (h : l.handle = none) (h' : l'.handle = some r.segment.length)
    (hr : r' = { r with segment := r.segment ++ [⟨.new capacity_in, 1⟩] })

theorem Send.grip {s s' : Send α} {b : Bool} (h : s.step b r = some (r', s')) :
    Grip r (.send s) r' (.send s') := by
  obtain ⟨ptr, mode, t, pc⟩ := s
  cases pc <;> simp only [step, reduceCtorEq] at h
  case entered =>
    simp only [Option.ite_none_left_eq_some, Option.some.injEq, Prod.mk.injEq] at h
    obtain ⟨_, rfl, rfl⟩ := h
    exact .keep rfl rfl
  case sweeping i n =>
    split at h
    case isFalse =>
      obtain ⟨rfl, rfl⟩ := Prod.mk.inj (Option.some.inj h)
      exact .keep rfl rfl
    case isTrue =>
      obtain ⟨k, _, h⟩ := Option.map_eq_some_iff.mp h
      split at h <;> obtain ⟨rfl, rfl⟩ := Prod.mk.inj h
      case h_1 => exact .keep rfl rfl
      case h_2 => exact .lock k rfl rfl ‹r.lock k = _›
  case sending i n k c =>
    split at h
    case h_1 =>
      obtain ⟨rfl, rfl⟩ := Prod.mk.inj (Option.some.inj h)
      exact .release k rfl rfl rfl
    case h_2 =>
      obtain ⟨e, p, c', he, hs, rfl, rfl⟩ := through_eq_some h
      exact .within k e p (.send c) (.send c') b rfl rfl rfl rfl he (by simp [PipeIPC.Call.step, hs]) rfl

theorem Receiver.grip {s s' : Receiver α} (h : s.step x r = some (r', s')) :
    Grip r (.receiver s) r' (.receiver s') := by
  cases s <;> simp only [step, reduceCtorEq] at h
  case registering capacity_in =>
    split at h <;> obtain ⟨rfl, rfl⟩ := Prod.mk.inj (Option.some.inj h)
    case isTrue  => exact .keep rfl rfl
    case isFalse => exact .construct capacity_in rfl rfl rfl
  case pushing k =>
    simp only [Option.ite_none_left_eq_some] at h
    obtain ⟨_, h⟩ := h
    split at h <;> obtain ⟨rfl, rfl⟩ := Prod.mk.inj (Option.some.inj h)
    case isTrue  => exact .release k rfl rfl rfl
    case isFalse => exact .keep rfl rfl
  case copying k =>
    obtain ⟨_, hl, h⟩ := Option.map_eq_some_iff.mp h
    obtain ⟨rfl, rfl⟩ := Prod.mk.inj h
    exact .lock k rfl rfl hl
  case holding k =>
    split at h
    case h_1 =>
      obtain ⟨rfl, rfl⟩ := Prod.mk.inj (Option.some.inj h)
      exact .release k rfl rfl rfl
    case h_2 =>
      simp only [Option.ite_none_right_eq_some, Option.some.injEq, Prod.mk.injEq] at h
      obtain ⟨_, rfl, rfl⟩ := h
      exact .keep rfl rfl
  case calling k c =>
    split at h
    case h_1 =>
      obtain ⟨rfl, rfl⟩ := Prod.mk.inj (Option.some.inj h)
      exact .keep rfl rfl
    case h_2 =>
      obtain ⟨e, p, c', he, hs, rfl, rfl⟩ := through_eq_some h
      exact .within k e p c c' x.expired rfl rfl rfl rfl he hs rfl

theorem Shutdown.grip {s s' : Shutdown} (h : s.step r = some (r', s')) :
    Grip r (.shutdown s) r' (.shutdown s') := by
  cases s <;> simp only [step, reduceCtorEq] at h
  case entered =>
    simp only [Option.ite_none_left_eq_some, Option.some.injEq, Prod.mk.injEq] at h
    obtain ⟨_, rfl, rfl⟩ := h
    exact .keep rfl rfl
  case sweeping i =>
    split at h
    case h_1 =>
      obtain ⟨rfl, rfl⟩ := Prod.mk.inj (Option.some.inj h)
      exact .keep rfl rfl
    case h_2 k _ =>
      split at h <;> obtain ⟨rfl, rfl⟩ := Prod.mk.inj (Option.some.inj h)
      case h_1    => exact .keep rfl rfl
      case h_2 hl => exact .lock k rfl rfl hl
  case shuttingDown i k c =>
    split at h
    case h_1 =>
      obtain ⟨rfl, rfl⟩ := Prod.mk.inj (Option.some.inj h)
      exact .release k rfl rfl rfl
    case h_2 =>
      obtain ⟨e, p, c', he, hs, rfl, rfl⟩ := through_eq_some h
      refine .within k e p (.shutdown c) (.shutdown c') false rfl rfl rfl rfl he ?_ rfl
      simp [PipeIPC.Call.step, hs]

theorem NumReceivers.grip {s s' : NumReceivers} (h : s.step r = some (r', s')) :
    Grip r (.numReceivers s) r' (.numReceivers s') := by
  cases s <;> simp only [step, reduceCtorEq] at h
  case entered =>
    simp only [Option.ite_none_left_eq_some, Option.some.injEq, Prod.mk.injEq] at h
    obtain ⟨_, rfl, rfl⟩ := h
    exact .keep rfl rfl
  case sweeping i n =>
    split at h
    case h_1 =>
      obtain ⟨rfl, rfl⟩ := Prod.mk.inj (Option.some.inj h)
      exact .keep rfl rfl
    case h_2 k _ =>
      split at h <;> obtain ⟨rfl, rfl⟩ := Prod.mk.inj (Option.some.inj h)
      case h_1    => exact .keep rfl rfl
      case h_2 hl => exact .lock k rfl rfl hl
  case counting i n k =>
    obtain ⟨rfl, rfl⟩ := Prod.mk.inj (Option.some.inj h)
    exact .release k rfl rfl rfl

theorem grip (h : (program α).step x r l = some (r', l')) : Grip r l r' l' := by
  cases Call.steps h
  case send hs         => exact Send.grip hs
  case receiver hs     => exact Receiver.grip hs
  case shutdown hs     => exact Shutdown.grip hs
  case numReceivers hs => exact NumReceivers.grip hs

-- The number of strong pointers to a pipe.
def strong (r : RouterIPC α) (k : ℕ) : ℕ :=
  r.segment[k]?.elim 0 (·.strong)

theorem strong_lock (h : r.lock k = some r') :
    r'.strong j = if k = j then r.strong j + 1 else r.strong j := by
  simp only [lock, Option.ite_none_right_eq_some, Option.some.injEq] at h
  obtain ⟨ha, rfl⟩ := h
  simp only [strong, modify, List.getElem?_modify]
  cases he : r.segment[j]? <;> split <;> simp_all [alive]

theorem strong_release :
    (r.release k).strong j = if k = j then r.strong j - 1 else r.strong j := by
  simp only [strong, release, modify, List.getElem?_modify]
  cases r.segment[j]? <;> split <;> simp_all [PipeIPC.Counted.release]

theorem strong_within {p : PipeIPC α} :
    (r.modify k fun e => { e with pipe := p }).strong j = r.strong j := by
  simp only [strong, modify, List.getElem?_modify]
  cases r.segment[j]? <;> split <;> simp_all

theorem strong_construct {p : PipeIPC α} :
    ({ r with segment := r.segment ++ [⟨p, 1⟩] } : RouterIPC α).strong j =
      if r.segment.length = j then 1 else r.strong j := by
  simp only [strong, List.getElem?_append]
  split
  case isTrue hj  => simp [hj.ne']
  case isFalse hj =>
    split
    case isTrue hk  => simp [hk]
    case isFalse hk =>
      have hn : r.segment[j]? = none := List.getElem?_eq_none (by omega)
      simp [hn, show j - r.segment.length ≠ 0 by omega]

def Call.holding (l : Call α) (k : ℕ) : ℕ :=
  if l.handle = some k then 1 else 0

theorem Grip.strong_eq (g : Grip r l r' l') (h : l.holding k ≤ r.strong k) :
    r.strong k + l'.holding k = r'.strong k + l.holding k := by
  cases g
  case keep h hr                    => simp [Call.holding, strong, h, hr]
  case lock h h' hr                 =>
    simp only [strong_lock hr, Call.holding, h, h', Option.some.injEq]
    split <;> simp
  case release k' h₁ h' hr          =>
    simp only [Call.holding, h₁, h', Option.some.injEq, reduceCtorEq, if_false] at h ⊢
    simp only [hr, strong_release]
    split <;> simp_all
  case within h h' _ _ _ _ hr       =>
    rw [hr, strong_within, Call.holding, Call.holding, h, h']
  case construct h h' hr            =>
    simp only [hr, strong_construct, Call.holding, h, h', Option.some.injEq]
    split
    case isTrue hk => simp [strong, ← hk]
    case isFalse   => simp

theorem Call.handle_of_starts (h : l.starts) : l.handle = none := by
  cases l <;> simp only [starts] at h
  case send s         => cases hp : s.pc <;> simp_all [handle]
  case receiver s     => cases s <;> simp_all [handle]
  case shutdown s     => cases s <;> simp_all [handle]
  case numReceivers s => cases s <;> simp_all [handle]

-- Each strong pointer is that of a call.
theorem total_holding_eq (h : ((program α).system (· = new)).Reachable c) (k : ℕ) :
    c.total (·.holding k) = c.shared.strong k := by
  refine Program.invariant (I := fun c => c.total (·.holding k) = c.shared.strong k) ?_ ?_ ?_
    |>.holds h
  · rintro _ rfl
    simp [Program.Config.total, strong, new]
  · intro c l _ h hs
    simpa [Call.holding, Call.handle_of_starts hs] using h
  · intro c i x l r' l' _ h hl hs
    have ht := c.total_after (·.holding k) r' l' hl
    have hle := c.le_total (w := (·.holding k)) hl
    have := (grip hs).strong_eq (k := k) (by omega)
    simp only [Program.Config.after_shared]
    omega

-- No process shuts anything down, and a receiver does nothing but receive.
def Quiet : Program.Action (Call α) (Choice α) → Bool
  | .enter l =>
    match l with
    | .shutdown _ => false
    | _           => true
  | .run _ x => x.call.all PipeIPC.Call.receives

def receiving (α : Type*) : System (Config α) (Program.Action (Call α) (Choice α)) :=
  ((program α).system (· = new)).restrict fun _ a => Quiet a

theorem wellFormed_of_receiving (h : (receiving α).Reachable c) :
    ((program α).system WellFormed).Reachable c := by
  refine Program.reachable_mono ?_ (System.Reachable.of_restrict h)
  rintro _ rfl
  exact .new

def Call.quiet : Call α → Bool
  | .shutdown _ => false
  | .receiver s =>
    match s with
    | .calling _ b => b.receives
    | _            => true
  | _           => true

theorem Call.quiet_of_starts (h : l.starts) (hq : Quiet (.enter l)) : l.quiet := by
  cases l <;> simp only [starts, Quiet, Bool.false_eq_true] at h hq
  case send | numReceivers => rfl
  case receiver s          => cases s <;> simp_all [quiet]

theorem Receiver.quiet_step {s s' : Receiver α} (hl : (Call.receiver s).quiet)
    (hx : x.call.all PipeIPC.Call.receives) (h : s.step x r = some (r', s')) :
    (Call.receiver s').quiet := by
  cases s <;> simp only [step, reduceCtorEq] at h
  case registering =>
    split at h <;> obtain ⟨rfl, rfl⟩ := Prod.mk.inj (Option.some.inj h) <;> rfl
  case pushing =>
    simp only [Option.ite_none_left_eq_some] at h
    obtain ⟨_, h⟩ := h
    split at h <;> obtain ⟨rfl, rfl⟩ := Prod.mk.inj (Option.some.inj h) <;> rfl
  case copying =>
    obtain ⟨_, _, h⟩ := Option.map_eq_some_iff.mp h
    obtain ⟨rfl, rfl⟩ := Prod.mk.inj h
    rfl
  case holding =>
    split at h
    case h_1 =>
      obtain ⟨rfl, rfl⟩ := Prod.mk.inj (Option.some.inj h)
      rfl
    case h_2 b hb =>
      simp only [Option.ite_none_right_eq_some, Option.some.injEq, Prod.mk.injEq] at h
      obtain ⟨_, rfl, rfl⟩ := h
      simpa [Call.quiet, hb] using hx
  case calling b =>
    split at h
    case h_1 =>
      obtain ⟨rfl, rfl⟩ := Prod.mk.inj (Option.some.inj h)
      rfl
    case h_2 =>
      obtain ⟨_, _, _, _, hs, rfl, rfl⟩ := through_eq_some h
      exact (PipeIPC.Call.receives_of_step hs).trans hl

theorem Call.quiet_step (hl : l.quiet) (hx : x.call.all PipeIPC.Call.receives)
    (h : (program α).step x r l = some (r', l')) : l'.quiet := by
  cases l <;> simp only [program, step] at h
  all_goals
    obtain ⟨⟨_, _⟩, hs, h⟩ := Option.map_eq_some_iff.mp h
    obtain ⟨rfl, rfl⟩ := Prod.mk.inj h
  case send | numReceivers => rfl
  case shutdown            => simp [quiet] at hl
  case receiver            => exact Receiver.quiet_step hl hx hs

theorem Call.isShutdown_of_inner {b : PipeIPC.Call α} (hl : l.quiet) (hb : l.inner = some b) :
    b.isShutdown = false := by
  cases l
  case send s         =>
    cases hp : s.pc <;> simp only [inner, hp, Option.some.injEq, reduceCtorEq] at hb
    exact hb ▸ rfl
  case receiver s     =>
    cases s <;> simp only [inner, Option.some.injEq, reduceCtorEq] at hb
    exact hb ▸ PipeIPC.Call.isShutdown_of_receives hl
  case shutdown       => simp [quiet] at hl
  case numReceivers   => simp [inner] at hb

-- A pipe is not shut down before its last strong pointer is gone.
def Opened (r : RouterIPC α) : Prop :=
  ∀ (k : ℕ) (e : PipeIPC.Counted α), r.segment[k]? = some e → 0 < e.strong → e.pipe.shutdown = false

theorem Opened.modify {f : PipeIPC.Counted α → PipeIPC.Counted α} (h : r.Opened)
    (hf : ∀ e, r.segment[k]? = some e → 0 < (f e).strong → (f e).pipe.shutdown = false) :
    (r.modify k f).Opened := by
  intro j e' he' hp
  simp only [RouterIPC.modify, List.getElem?_modify, Option.map_eq_map, Option.map_eq_some_iff]
    at he'
  obtain ⟨e, he, rfl⟩ := he'
  split at hp
  case isTrue hk  =>
    subst hk
    simpa using hf e he hp
  case isFalse hk => simpa [hk] using h j e he hp

theorem Grip.opened (g : Grip r l r' l') (hl : l.quiet) (h : r.Opened) : r'.Opened := by
  cases g
  case keep hr                            => exact fun k e he => h k e (hr ▸ he)
  case lock k _ _ hr                      =>
    simp only [RouterIPC.lock, Option.ite_none_right_eq_some, Option.some.injEq] at hr
    obtain ⟨ha, rfl⟩ := hr
    refine h.modify fun e he _ => h k e he ?_
    simpa [alive, he, PipeIPC.Counted.alive] using ha
  case release k _ _ hr                   =>
    subst hr
    refine h.modify fun e he hp => ?_
    simp only [PipeIPC.Counted.release] at hp ⊢
    rw [if_neg (by omega)]
    exact h k e he (by omega)
  case within k e p b b' y _ _ hb _ he hs hr =>
    subst hr
    refine h.modify fun e' he' hp => ?_
    obtain rfl := Option.some.inj (he.symm.trans he')
    exact (PipeIPC.shutdown_eq hs (Call.isShutdown_of_inner hl hb)).trans (h k e he hp)
  case construct hr                       =>
    subst hr
    intro k e he hp
    simp only [List.getElem?_append] at he
    split at he
    case isTrue  => exact h k e he hp
    case isFalse =>
      have := List.mem_of_getElem? he
      simp only [List.mem_singleton] at this
      exact this ▸ rfl

theorem Opened.of_strong_pos (h : r.Opened) (hk : 0 < r.strong k) :
    ∃ e, r.segment[k]? = some e ∧ e.pipe.shutdown = false := by
  cases he : r.segment[k]? <;> simp only [strong, he, Option.elim_none, Option.elim_some] at hk
  case none   => exact absurd hk (lt_irrefl 0)
  case some e => exact ⟨e, rfl, h k e he hk⟩

theorem strong_pos_of_handle (h : ((program α).system (· = new)).Reachable c)
    (hl : c.calls[i]? = some l) (hk : l.handle = some k) : 0 < c.shared.strong k := by
  have hle := Program.Config.le_total (w := (·.holding k)) hl
  have := total_holding_eq h k
  simp only [Call.holding, hk, if_true] at hle this
  omega

theorem Send.handle_of_visit {s : Send α} (h : s.visit = some k) : (Call.send s).handle = some k := by
  cases hp : s.pc <;> simp only [visit, hp, reduceCtorEq] at h
  case sending => simp_all [Call.handle]

-- What holds of a run in which nobody shuts anything down.
structure Unshut (c : Config α) : Prop where
  calls    : ∀ l ∈ c.calls, l.quiet
  history  : ∀ t ∈ c.history, t.post.2.quiet
  opened   : c.shared.Opened
  refusals : refusals c.history = []

theorem unshut (h : (receiving α).Reachable c) : Unshut c := by
  refine Program.invariant_restrict (I := Unshut) ?_ ?_ ?_ |>.holds h
  · rintro _ rfl
    exact ⟨by simp, by simp, by simp [Opened, new], rfl⟩
  · intro c l _ h hq hs
    refine ⟨fun l' hl' => ?_, h.history, h.opened, h.refusals⟩
    obtain hl' | hl' := List.mem_append.mp hl'
    · exact h.calls l' hl'
    · exact List.mem_singleton.mp hl' ▸ Call.quiet_of_starts hs hq
  · intro c i x l r' l' hr h hq hl hs
    have hc := h.calls l (List.mem_of_getElem? hl)
    have hc' := Call.quiet_step hc hq hs
    refine ⟨fun l₁ hm => ?_, fun t hm => ?_, (grip hs).opened hc h.opened, ?_⟩
    · obtain hm | rfl := List.mem_or_eq_of_mem_set hm
      · exact h.calls l₁ hm
      · exact hc'
    · obtain hm | hm := List.mem_append.mp hm
      · exact h.history t hm
      · exact List.mem_singleton.mp hm ▸ hc'
    · rw [Program.Config.after_history, refusals_concat, h.refusals]
      refine List.append_eq_nil_iff.mpr ⟨rfl, Option.toList_eq_nil_iff.mpr ?_⟩
      refine Option.filter_eq_none_iff.mpr fun k hk => ?_
      obtain ⟨s, hs, hv⟩ := Option.bind_eq_some_iff.mp hk
      cases l <;> simp only [Call.send?, Option.some.injEq, reduceCtorEq] at hs
      subst hs
      have hpos := strong_pos_of_handle hr.of_restrict hl (Send.handle_of_visit hv)
      obtain ⟨e, he, hd⟩ := h.opened.of_strong_pos hpos
      simp [he, hd]

-- No `Send` is refused by a pipe.
theorem refusals_eq_nil (h : (receiving α).Reachable c) : refusals (c.recordsOf i) = [] := by
  refine List.filterMap_eq_nil_iff.mpr fun t ht => ?_
  exact List.filterMap_eq_nil_iff.mp (unshut h).refusals t (List.mem_of_mem_filter ht)

end RouterIPC
