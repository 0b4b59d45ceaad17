import InterprocessMemPool.MempoolIPC.PooledRouter.Basic
import InterprocessMemPool.MempoolIPC.Router.Theorems.Holders
import InterprocessMemPool.MempoolIPC.Router.Theorems.Next

open References

namespace PipeIPC

variable {α : Type*} {p p' : PipeIPC α} {l l' : Call α} {x : Bool}

-- The ring of a pipe that has not been destroyed.
structure Shaped (p : PipeIPC α) : Prop where
  length  : p.items.length = p.capacity.toNat
  push_lt : p.capacity ≠ 0 → p.indexPush < p.capacity
  pop_lt  : p.capacity ≠ 0 → p.indexPop < p.capacity

namespace Shaped

theorem new {capacity : SizeT} : (PipeIPC.new (α := α) capacity).Shaped where
  length  := by simp [PipeIPC.new]
  push_lt := UInt64.pos_iff_ne_zero.mpr
  pop_lt  := UInt64.pos_iff_ne_zero.mpr

theorem next {φ φ' : Phase} {o : Option (Fifo.Op (Option α))} (h : p.Shaped) (t : Transition p φ p' φ' o) :
    p'.Shaped := by
  cases t
  case store hc =>
    refine ⟨by simpa [PipeIPC.store] using h.length, fun _ => ?_, h.pop_lt⟩
    exact SizeT.succ_mod_lt (UInt64.pos_iff_ne_zero.mpr hc)
  case take hc =>
    refine ⟨by simpa [PipeIPC.take] using h.length, h.push_lt, fun _ => ?_⟩
    exact SizeT.succ_mod_lt (UInt64.pos_iff_ne_zero.mpr hc)
  all_goals exact ⟨h.length, h.push_lt, h.pop_lt⟩

theorem getElem?_push (h : p.Shaped) (hc : p.capacity ≠ 0) :
    p.items[p.indexPush.toNat]? = some (p.items[p.indexPush.toNat]?.getD none) := by
  have := UInt64.lt_iff_toNat_lt.mp (h.push_lt hc)
  rw [← h.length] at this
  simp [List.getElem?_eq_getElem this]

theorem getElem?_pop (h : p.Shaped) (hc : p.capacity ≠ 0) :
    p.items[p.indexPop.toNat]? = some p.take.1 := by
  have := UInt64.lt_iff_toNat_lt.mp (h.pop_lt hc)
  rw [← h.length] at this
  simp [take, List.getElem?_eq_getElem this]

end Shaped

def Call.ptrs (l : Call α) : List (Option α) :=
  l.borrowed.toList ++ l.locals

theorem Call.locals_of_starts (h : l.starts) : l.locals = [] := by
  cases l <;> simp only [locals]
  case consumer c => cases c <;> simp_all [starts]

theorem Call.locals_of_returned (h : l.returned) : l.locals = [] := by
  cases l <;> simp only [locals]
  case consumer c => cases c <;> simp_all [returned]

-- A call has the variable until it returns.
theorem Call.isSome_borrowed (h : l.step x p = some (p', l')) : l'.borrowed.isSome = l.borrowed.isSome := by
  cases l <;> simp only [step] at h
  all_goals
    obtain ⟨_, _, h⟩ := Option.map_eq_some_iff.mp h
    obtain ⟨rfl, rfl⟩ := Prod.mk.inj h
    rfl

variable [DecidableEq α]

theorem Send.moves {c c' : Send α} (hp : p.Shaped) (h : c.step x p = some (p', c')) :
    (c.handover p).Moves p.items p'.items := by
  obtain ⟨ptr, mode, t, pc⟩ := c
  cases pc <;> simp only [step, Option.some.injEq, Prod.mk.injEq, reduceCtorEq] at h
  case storing =>
    split at h <;> obtain ⟨rfl, rfl⟩ := Prod.mk.inj (Option.some.inj h)
    case isTrue hc  => simpa [handover, hc] using .of_count rfl fun _ => rfl
    case isFalse hc => simpa [handover, hc] using .assign ptr (hp.getElem?_push hc)
  case waiting =>
    obtain ⟨_, _, h⟩ := Option.map_eq_some_iff.mp h
    obtain ⟨rfl, rfl⟩ := Prod.mk.inj h
    exact .of_count rfl fun _ => rfl
  all_goals
    obtain ⟨rfl, rfl⟩ := h
    exact .of_count rfl fun _ => rfl

theorem Receive.moves {c c' : Receive α} (hp : p.Shaped) (h : c.step x p = some (p', c')) :
    (c.handover p).Moves (c.ptr :: p.items) (c'.ptr :: p'.items) := by
  obtain ⟨ptr, t, pc⟩ := c
  cases pc <;> simp only [step, Option.some.injEq, Prod.mk.injEq, reduceCtorEq] at h
  case entered =>
    obtain ⟨rfl, rfl⟩ := h
    intro e
    simp [handover, List.count_cons]
  case waiting =>
    obtain ⟨_, _, h⟩ := Option.map_eq_some_iff.mp h
    obtain ⟨rfl, rfl⟩ := Prod.mk.inj h
    exact .of_count rfl fun _ => rfl
  case taking =>
    split at h <;> obtain ⟨rfl, rfl⟩ := Prod.mk.inj (Option.some.inj h)
    case isTrue hc  => simpa [handover, hc] using .of_count rfl fun _ => rfl
    case isFalse hc =>
      -- The slot is copied into the variable and then reset.
      intro e
      have := Handover.Moves.assign none (hp.getElem?_pop hc) e
      simp only [List.count_cons, List.count_nil, beq_iff_eq, reduceCtorEq, if_false, take] at this
      simp only [handover, hc, if_false, List.count_cons, List.count_nil, beq_iff_eq, take]
      omega
  case posting =>
    obtain ⟨rfl, rfl⟩ := h
    exact .of_count rfl fun _ => rfl

theorem Consumer.moves {c c' : Consumer α} (hp : p.Shaped) (h : c.step x p = some (p', c')) :
    (c.handover p).Moves ((Call.consumer c).locals ++ p.items) ((Call.consumer c').locals ++ p'.items) := by
  have hloop {t : SizeT} {timedout pipe : Bool} (e : α) :
      (Call.consumer (loop (α := α) t timedout pipe)).locals.count (some e) = 0 := by
    simp only [loop]
    split <;> simp [Call.locals]
  cases c <;> simp only [step, Option.some.injEq, Prod.mk.injEq, reduceCtorEq] at h
  case testingShutdown =>
    obtain ⟨rfl, rfl⟩ := h
    refine .of_count rfl fun e => ?_
    split
    case isTrue  => simpa [Call.locals] using hloop e
    case isFalse => rfl
  case testingSize =>
    obtain ⟨rfl, rfl⟩ := h
    exact .of_count rfl fun e => by simpa [Call.locals] using hloop e
  case receiving c =>
    split at h
    case h_1 hc =>
      obtain ⟨rfl, rfl⟩ := Prod.mk.inj (Option.some.inj h)
      intro e
      simp [handover, hc, Call.locals, List.count_cons]
    case h_2 hc =>
      obtain ⟨⟨p₁, c₁⟩, hs, h⟩ := Option.map_eq_some_iff.mp h
      obtain ⟨rfl, rfl⟩ := Prod.mk.inj h
      have he : (Consumer.receiving c).handover p = c.handover p := by
        cases hp : c.pc <;> simp_all [handover]
      exact he ▸ Receive.moves hp hs

-- A call on a pipe moves pointers between its variables and the pipe.
theorem Call.moves (hp : p.Shaped) (h : l.step x p = some (p', l')) :
    (l.handover p).Moves (l.ptrs ++ p.items) (l'.ptrs ++ p'.items) := by
  cases l <;> simp only [step] at h
  all_goals
    obtain ⟨⟨p₁, c'⟩, hs, h⟩ := Option.map_eq_some_iff.mp h
    obtain ⟨rfl, rfl⟩ := Prod.mk.inj h
  case send c _     =>
    have := (Send.moves hp hs).frame [c.ptr]
    simpa [ptrs, borrowed, locals, handover, Send.step_ptr hs] using this
  case receive      => exact Receive.moves hp hs
  case shutdown c _ =>
    cases c <;> simp only [Shutdown.step, Option.some.injEq, Prod.mk.injEq, reduceCtorEq] at hs
    all_goals
      obtain ⟨rfl, _⟩ := hs
      exact .of_count rfl fun _ => rfl
  case consumer     => exact Consumer.moves hp hs

end PipeIPC

namespace RouterIPC

variable {α : Type*} {r r' : RouterIPC α} {l l' : Call α} {x : Choice α} {k : ℕ} {e : PipeIPC.Counted α}

-- The pointers in all pipes.
def slots (r : RouterIPC α) : List (Option α) :=
  r.segment.flatMap (·.pipe.items)

def Call.ptrs (l : Call α) : List (Option α) :=
  l.borrowed.toList ++ l.locals

-- The pipes that have not been destroyed.
def Shaped (r : RouterIPC α) : Prop :=
  ∀ (k : ℕ) (e : PipeIPC.Counted α), r.segment[k]? = some e → 0 < e.strong → e.pipe.Shaped

section

variable {f : PipeIPC.Counted α → PipeIPC.Counted α}

theorem getElem?_modify {j : ℕ} {e' : PipeIPC.Counted α} (he : (r.modify k f).segment[j]? = some e') :
    ∃ e, r.segment[j]? = some e ∧ e' = if k = j then f e else e := by
  simp only [modify, List.getElem?_modify, Option.map_eq_map, Option.map_eq_some_iff] at he
  obtain ⟨e, he, rfl⟩ := he
  exact ⟨e, he, by split <;> rfl⟩

theorem Shaped.modify (h : r.Shaped)
    (hf : ∀ e, r.segment[k]? = some e → 0 < (f e).strong → (f e).pipe.Shaped) : (r.modify k f).Shaped := by
  intro j e' he' hp
  obtain ⟨e, he, rfl⟩ := getElem?_modify he'
  split at hp
  case isTrue hk  =>
    subst hk
    simpa using hf e he hp
  case isFalse hk => simpa [hk] using h j e he hp

end

theorem Shaped.grip (h : r.Shaped) (g : Grip r l r' l') : r'.Shaped := by
  cases g
  case keep hr                             => exact fun k e he => h k e (hr ▸ he)
  case lock k _ _ hr                       =>
    simp only [RouterIPC.lock, Option.ite_none_right_eq_some, Option.some.injEq] at hr
    obtain ⟨ha, rfl⟩ := hr
    refine h.modify fun e he _ => h k e he ?_
    simpa [alive, he, PipeIPC.Counted.alive] using ha
  case release k _ _ hr                    =>
    subst hr
    refine h.modify fun e he hp => ?_
    simp only [PipeIPC.Counted.release] at hp ⊢
    rw [if_neg (by omega)]
    exact h k e he (by omega)
  case within k e p _ _ _ _ _ _ _ he hs hr =>
    subst hr
    refine h.modify fun e' he' hp => ?_
    obtain rfl := Option.some.inj (he.symm.trans he')
    exact (h k e he hp).next (PipeIPC.step_transition hs)
  case construct hr                        =>
    subst hr
    intro k e he hp
    simp only [List.getElem?_append] at he
    split at he
    case isTrue  => exact h k e he hp
    case isFalse =>
      have := List.mem_of_getElem? he
      simp only [List.mem_singleton] at this
      exact this ▸ .new

variable [DecidableEq α]

theorem count_slots_modify (f : PipeIPC.Counted α → PipeIPC.Counted α) (he : r.segment[k]? = some e)
    (a : Option α) : (r.modify k f).slots.count a + e.pipe.items.count a =
      r.slots.count a + (f e).pipe.items.count a := by
  obtain ⟨hk, rfl⟩ := List.getElem?_eq_some_iff.mp he
  have h₁ := ((List.set_perm_cons_eraseIdx hk (f r.segment[k])).flatMap_right (·.pipe.items)).count_eq a
  have h₂ := ((List.getElem_cons_eraseIdx_perm hk).flatMap_right (·.pipe.items)).count_eq a
  simp only [List.flatMap_cons, List.count_append] at h₁ h₂
  simp only [slots, modify, List.modify_eq_set_getElem?, he, Option.map_eq_map, Option.map_some,
    Option.getD_some]
  omega

theorem count_slots_lock (h : r.lock k = some r') (a : Option α) : r'.slots.count a = r.slots.count a := by
  simp only [RouterIPC.lock, Option.ite_none_right_eq_some, Option.some.injEq] at h
  obtain ⟨ha, rfl⟩ := h
  obtain ⟨e, he, _⟩ := (Option.any_eq_true ..).mp ha
  have := count_slots_modify (fun e => { e with strong := e.strong + 1 }) he a
  simp only at this
  omega

-- The destructor resets what remains in the pipe.
theorem moves_release (hk : 0 < r.strong k) :
    Handover.Moves ⟨[], r.remains k⟩ r.slots (r.release k).slots := by
  intro a
  obtain ⟨e, he⟩ : ∃ e, r.segment[k]? = some e := by
    cases he : r.segment[k]?
    case none   => simp [strong, he] at hk
    case some e => exact ⟨e, rfl⟩
  have := count_slots_modify PipeIPC.Counted.release he (some a)
  simp only [remains, he, release, PipeIPC.Counted.release] at this ⊢
  split at this
  case isTrue hs  => simp_all [PipeIPC.destroy]
  case isFalse hs => simp_all

theorem moves_within {p : PipeIPC α} {h : Handover α} (ptrs ptrs' : List (Option α))
    (he : r.segment[k]? = some e) (hm : h.Moves (ptrs ++ e.pipe.items) (ptrs' ++ p.items)) :
    h.Moves (ptrs ++ r.slots) (ptrs' ++ (r.modify k fun e => { e with pipe := p }).slots) := by
  intro a
  have h₁ := count_slots_modify (fun e => { e with pipe := p }) he (some a)
  have h₂ := hm a
  simp only [List.count_append] at h₁ h₂ ⊢
  omega

omit [DecidableEq α] in
theorem Shaped.pipe (h : r.Shaped) (hk : 0 < r.strong k) (he : r.segment[k]? = some e) : e.pipe.Shaped :=
  h k e he (by simpa [strong, he] using hk)

omit [DecidableEq α] in
theorem Send.ptr_of_step {s s' : Send α} {b : Bool} (hs : s.step b r = some (r', s')) : s'.ptr = s.ptr := by
  cases next_of_step hs <;> rfl

theorem Send.moves {s s' : Send α} {b : Bool} (h : r.Shaped)
    (hk : ∀ k, (Call.send s).handle = some k → 0 < r.strong k) (hs : s.step b r = some (r', s')) :
    (s.handover r).Moves r.slots r'.slots := by
  cases next_of_step hs
  case acquire | finish | pop => exact .of_count rfl fun _ => rfl
  case take hl                => exact .of_count rfl fun _ => count_slots_lock hl _
  case report hc              => simpa [handover, hc] using moves_release (hk _ rfl)
  case within k c e p c' hc he hst =>
    have hm := PipeIPC.Send.moves (h.pipe (hk k rfl) he) hst
    have := moves_within [] [] he hm
    cases hp : c.pc
    case returned => exact absurd hp (hc _)
    all_goals simpa only [handover, hp, within, he, List.nil_append] using this

theorem Shutdown.moves {s s' : Shutdown} (h : r.Shaped)
    (hk : ∀ k, (Call.shutdown (α := α) s).handle = some k → 0 < r.strong k) (hs : s.step r = some (r', s')) :
    (s.handover r).Moves r.slots r'.slots := by
  cases next_of_step hs
  case acquire | finish | skip => exact .of_count rfl fun _ => rfl
  case take hl                 => exact .of_count rfl fun _ => count_slots_lock hl _
  case report                  => exact moves_release (hk _ rfl)
  case within k c c' e p he hst =>
    have hc : (PipeIPC.Call.shutdown c).step false e.pipe = some (p, .shutdown c') := by
      rw [PipeIPC.Call.step, hst, Option.map_some]
    have hm := moves_within _ _ he (PipeIPC.Call.moves (h.pipe (hk k rfl) he) hc)
    cases c
    case returned => cases hst
    all_goals exact hm

theorem NumReceivers.moves {s s' : NumReceivers}
    (hk : ∀ k, (Call.numReceivers (α := α) s).handle = some k → 0 < r.strong k)
    (hs : s.step r = some (r', s')) : (s.handover r).Moves r.slots r'.slots := by
  cases next_of_step hs
  case acquire | finish | skip => exact .of_count rfl fun _ => rfl
  case take hl                 => exact .of_count rfl fun _ => count_slots_lock hl _
  case report                  => exact moves_release (hk _ rfl)

theorem Receiver.moves {s s' : Receiver α} {ptr ptr' : Option α} (h : r.Shaped)
    (hk : ∀ k, (Call.receiver s).handle = some k → 0 < r.strong k)
    (ho : (Call.receiver s).borrowed.isSome → ptr = none)
    (hl : lend ptr (Call.receiver s).borrowed (Call.receiver s').borrowed = some ptr')
    (hs : s.step x r = some (r', s')) :
    (s.handover x r).Moves (ptr :: (Call.receiver s).ptrs ++ r.slots)
      (ptr' :: (Call.receiver s').ptrs ++ r'.slots) := by
  cases next_of_step hs
  case within k c c' e p hc he hst =>
    have hptr : ptr' = ptr := by
      have hb := PipeIPC.Call.isSome_borrowed hst
      simp only [Call.borrowed] at hl
      cases hq : c.borrowed <;> cases hq' : c'.borrowed <;> simp_all
    have hm := (moves_within _ _ he (PipeIPC.Call.moves (h.pipe (hk k rfl) he) hst)).frame [ptr]
    have hh : (Receiver.calling k c).handover x r = c.handover e.pipe := by simp [handover, hc, within, he]
    rw [hptr, hh]
    exact hm
  case call c hx hc =>
    refine .of_count (by simp [handover, hx]) fun a => ?_
    have := count_lend hl a
    simp only [Call.ptrs, Call.borrowed, Call.locals, PipeIPC.Call.locals_of_starts hc, Option.toList_none,
      List.count_cons, List.count_append, List.count_nil, List.cons_append] at this ⊢
    omega
  case report c hc =>
    refine .of_count (by simp [handover, hc]) fun a => ?_
    have := count_lend_back hl ho a
    simp only [Call.ptrs, Call.borrowed, Call.locals, PipeIPC.Call.locals_of_returned hc, Option.toList_none,
      List.count_cons, List.count_append, List.count_nil, List.cons_append] at this ⊢
    omega
  all_goals
    simp only [Call.borrowed, lend_none_none, Option.some.injEq] at hl
    subst hl
  case exhausted    => exact .of_count rfl fun _ => rfl
  case push hx _    => exact .of_count (by simp [handover, hx]) fun _ => rfl
  case construct    =>
    refine .of_count rfl fun a => ?_
    simp [slots, PipeIPC.new, List.count_cons, List.count_replicate, Call.ptrs, Call.borrowed, Call.locals]
  case discard hx _ =>
    have := (moves_release (hk _ rfl)).frame [ptr]
    simpa [handover, hx, Call.ptrs, Call.borrowed, Call.locals] using this
  case copy hlock   =>
    refine .of_count rfl fun a => ?_
    simp [List.count_cons, count_slots_lock hlock, Call.ptrs, Call.borrowed, Call.locals]
  case drop hx      =>
    have := (moves_release (hk _ rfl)).frame [ptr]
    simpa [handover, hx, Call.ptrs, Call.borrowed, Call.locals] using this

-- A step of a call moves pointers between the caller's variable, those of the call, and the pipes.
theorem Call.moves {ptr ptr' : Option α} (h : r.Shaped) (hk : ∀ k, l.handle = some k → 0 < r.strong k)
    (ho : l.borrowed.isSome → ptr = none) (hl : lend ptr l.borrowed l'.borrowed = some ptr')
    (hs : l.step x r = some (r', l')) :
    (l.handover x r).Moves (ptr :: l.ptrs ++ r.slots) (ptr' :: l'.ptrs ++ r'.slots) := by
  cases l <;> simp only [step] at hs
  all_goals
    obtain ⟨⟨r₁, s'⟩, hst, h₁⟩ := Option.map_eq_some_iff.mp hs
    obtain ⟨rfl, rfl⟩ := Prod.mk.inj h₁
  case receiver       => exact Receiver.moves h hk ho hl hst
  all_goals obtain rfl := Option.some.inj hl
  case send           =>
    have := (Send.moves h hk hst).frame [ptr, s'.ptr]
    simpa [handover, ptrs, borrowed, locals, Send.ptr_of_step hst] using this
  case shutdown       => exact (Shutdown.moves h hk hst).frame [ptr]
  case numReceivers   => exact (NumReceivers.moves hk hst).frame [ptr]

end RouterIPC
