import InterprocessMemPool.MempoolIPC.MemPool.Basic
import InterprocessMemPool.MempoolIPC.Pool.Theorems.Partition

namespace IPC

namespace AllocatorState

variable {segment : ℕ} {s s' : AllocatorState} {m : Mapping segment} {p : Address}

theorem eq_of_loan_none (h : s.Loan m = (none, s')) :
    s' = s ∧ (s.nAvailable = 0 ∨ s.countPerElement = 0) := by
  simp only [Loan] at h
  split at h
  case isTrue => simp at h
  case isFalse hn =>
    have hn := not_and_or.mp hn
    simp only [UInt64.not_lt, UInt64.le_zero_iff] at hn
    exact ⟨(Prod.mk.inj h).right.symm, hn⟩

theorem eq_of_loan_some (h : s.Loan m = (some p, s')) :
    0 < s.nAvailable ∧ s' = { s with nAvailable := s.nAvailable - 1 } := by
  simp only [Loan] at h
  split at h
  case isTrue hn => exact ⟨hn.left, (Prod.mk.inj h).right.symm⟩
  case isFalse   => simp at h

theorem nAvailable_of_loan (h : s.Loan m = (some p, s')) :
    s'.nAvailable.toNat + 1 = s.nAvailable.toNat := by
  have ⟨hp, he⟩ := eq_of_loan_some h
  have hp := SizeT.toNat_pos_iff.mpr hp
  have := SizeT.toNat_pred hp
  rw [he]
  simp only
  omega

theorem nAvailable_of_accept {n : SizeT} (hp : p ≠ 0) (hn : s.nAvailable.toNat < n.toNat) :
    (s.Accept m p).nAvailable.toNat = s.nAvailable.toNat + 1 := by
  have := n.toNat_lt
  rw [Accept, if_neg hp]
  exact SizeT.toNat_succ (by omega)

@[simp]
theorem accept_countPerElement : (s.Accept m p).countPerElement = s.countPerElement := by
  simp only [Accept]
  split <;> rfl

end AllocatorState

-- The object of the element is on loan.
def Element.living (el : Element) : Bool :=
  el.phase = .owned ∨ el.phase = .disposing

def Element.lingering (el : Element) : Bool :=
  el.phase = .disposed

namespace MemPoolIPC

variable {segment : ℕ} {p p' : MemPoolIPC} {c : Config} {l l' : Call} {x : Choice segment}
variable {n : SizeT} {e : ℕ}

-- An object block that is on loan but has no control block.
def Call.inHand : Call → ℕ
  | .makePooled (.constructing _) | .makePooled (.pooling _) => 1
  | .makePooled (.threw _) | .makePooled (.crashed _)        => 1
  | _                                                        => 0

def living (p : MemPoolIPC) : ℕ :=
  p.elements.countP Element.living

-- The elements whose object has been returned, but whose control block is still in use.
def lingering (p : MemPoolIPC) : ℕ :=
  p.elements.countP Element.lingering

theorem countP_modify {α : Type*} {q : α → Bool} {as : List α} {a : α} {f : α → α}
    (h : as[e]? = some a) :
    (as.modify e f).countP q + (q a).toNat = as.countP q + (q (f a)).toNat := by
  have ⟨he, ha⟩ := List.getElem?_eq_some_iff.mp h
  have hs := congrArg (List.countP q) (List.take_append_drop e as)
  rw [List.modify_eq_take_cons_drop he, ha]
  rw [List.drop_eq_getElem_cons he, ha] at hs
  simp only [List.countP_append, List.countP_cons, Bool.toNat, Bool.cond_eq_ite] at hs ⊢
  omega

theorem mem_modify {α : Type*} {as : List α} {a : α} {f : α → α} (h : a ∈ as.modify e f) :
    a ∈ as ∨ ∃ b ∈ as, as[e]? = some b ∧ a = f b := by
  have ⟨i, hi⟩ := List.getElem?_of_mem h
  rw [List.getElem?_modify] at hi
  split at hi
  case isFalse => exact .inl <| List.mem_of_getElem? (by simpa using hi)
  case isTrue he =>
    have ⟨b, hb, ha⟩ := Option.map_eq_some_iff.mp hi
    exact .inr ⟨b, List.mem_of_getElem? hb, he ▸ hb, ha.symm⟩

-- An element is disposed of when it is out of strong pointers, and not earlier.
def Owned (p : MemPoolIPC) : Prop :=
  ∀ el ∈ p.elements, 0 < el.use_count ↔ el.phase = .owned

theorem Owned.modify {f : Element → Element} {el : Element} (h : Owned p) (he : p.elements[e]? = some el)
    (hf : 0 < (f el).use_count ↔ (f el).phase = .owned) :
    ∀ el ∈ p.elements.modify e f, 0 < el.use_count ↔ el.phase = .owned := by
  intro el' hel
  obtain hel | ⟨b, _, hb, rfl⟩ := mem_modify hel
  · exact h el' hel
  · exact Option.some.inj (he.symm.trans hb) ▸ hf

-- What a step does to the blocks of both pools. `k` object blocks are in the hand of the call before
-- it, and `k'` after it.
structure Kept (p p' : MemPoolIPC) (k k' : ℕ) : Prop where
  objects  : p'.myObjectAllocator.nAvailable.toNat + k' + p'.living =
    p.myObjectAllocator.nAvailable.toNat + k + p.living
  controls : p'.myControlBlockAllocator.nAvailable.toNat + p'.living + p'.lingering =
    p.myControlBlockAllocator.nAvailable.toNat + p.living + p.lingering
  count    : p'.myControlBlockAllocator.countPerElement = p.myControlBlockAllocator.countPerElement
  owned    : Owned p'

theorem Kept.of_modify {f : Element → Element} {el : Element} (ho : Owned p)
    (he : p.elements[e]? = some el) (hf : 0 < (f el).use_count ↔ (f el).phase = .owned)
    (hl : (f el).living = el.living) (hd : (f el).lingering = el.lingering) :
    Kept p (p.modify e f) 0 0 := by
  have h₁ := countP_modify (q := Element.living) (f := f) he
  have h₂ := countP_modify (q := Element.lingering) (f := f) he
  constructor <;> simp only [living, lingering, MemPoolIPC.modify]
  case objects  => rw [hl] at h₁; omega
  case controls => rw [hl] at h₁; rw [hd] at h₂; omega
  case owned    => exact ho.modify he hf

theorem use_kept {m : Mapping segment} {u : Use} (h : u.step m p e = some p') (ho : Owned p)
    (hn₁ : p.myObjectAllocator.nAvailable.toNat + p.living ≤ n.toNat)
    (hn₂ : p.myControlBlockAllocator.nAvailable.toNat + p.living + p.lingering ≤ n.toNat) :
    Kept p p' 0 0 := by
  simp only [Use.step, Option.bind_eq_some_iff] at h
  obtain ⟨el, he, h⟩ := h
  have hel := ho el (List.mem_of_getElem? he)
  cases u <;> simp only [Option.ite_none_right_eq_some, Option.some.injEq] at h
  case copy =>
    obtain ⟨hp, rfl⟩ := h
    exact .of_modify ho he (by simp [hel.mp hp]) rfl rfl
  case drop =>
    obtain ⟨hp, rfl⟩ := h
    have hph := hel.mp hp
    refine .of_modify ho he ?_ ?_ ?_
    all_goals by_cases h₁ : el.use_count = 1 <;> simp [h₁, hph, Element.living, Element.lingering]
    omega
  case observe =>
    obtain ⟨_, rfl⟩ := h
    exact .of_modify ho he hel rfl rfl
  case forget =>
    obtain ⟨_, rfl⟩ := h
    exact .of_modify ho he hel rfl rfl
  case dispose =>
    obtain ⟨⟨hp, hne⟩, rfl⟩ := h
    let f (el : Element) : Element := { el with phase := .disposed }
    have h₁ := countP_modify (q := Element.living) (f := f) he
    have h₂ := countP_modify (q := Element.lingering) (f := f) he
    simp [f, Element.living, Element.lingering, hp] at h₁ h₂
    constructor <;> simp only [living, lingering, MemPoolIPC.modify] at hn₁ ⊢
    case objects  =>
      rw [AllocatorState.nAvailable_of_accept (n := n) hne (by omega)]
      omega
    case controls => omega
    case owned    => exact ho.modify he (by simp [hel, hp])
  case destroy =>
    obtain ⟨⟨hp, _, hne⟩, rfl⟩ := h
    let f (el : Element) : Element := { el with phase := .destroyed }
    have h₁ := countP_modify (q := Element.living) (f := f) he
    have h₂ := countP_modify (q := Element.lingering) (f := f) he
    simp [f, Element.living, Element.lingering, hp] at h₁ h₂
    constructor <;> simp only [living, lingering, MemPoolIPC.modify] at hn₂ ⊢
    case objects  => omega
    case controls =>
      rw [AllocatorState.nAvailable_of_accept (n := n) hne (by omega)]
      omega
    case count    => rw [AllocatorState.accept_countPerElement]
    case owned    => exact ho.modify he (by simp [hel, hp])

theorem makePooled_kept {m : Mapping segment} {throws : Bool} {k k' : MakePooled}
    (h : k.step m throws p = some (p', k')) (ho : Owned p) :
    Kept p p' (Call.inHand (.makePooled k)) (Call.inHand (.makePooled k')) := by
  cases k <;> simp only [MakePooled.step, reduceCtorEq] at h
  case entered =>
    split at h <;> obtain ⟨rfl, rfl⟩ := Prod.mk.inj (Option.some.inj h)
    case h_1 hl => exact (AllocatorState.eq_of_loan_none hl).left ▸ ⟨rfl, rfl, rfl, ho⟩
    case h_2 hl =>
      have := AllocatorState.nAvailable_of_loan hl
      refine ⟨?_, rfl, rfl, ho⟩
      simp only [Call.inHand, living]
      omega
  case constructing =>
    obtain ⟨rfl, rfl⟩ := Prod.mk.inj (Option.some.inj h)
    cases throws <;> exact ⟨rfl, rfl, rfl, ho⟩
  case pooling =>
    split at h <;> obtain ⟨rfl, rfl⟩ := Prod.mk.inj (Option.some.inj h)
    case h_1 hl => exact (AllocatorState.eq_of_loan_none hl).left ▸ ⟨rfl, rfl, rfl, ho⟩
    case h_2 hl =>
      have := AllocatorState.nAvailable_of_loan hl
      have ⟨_, he⟩ := AllocatorState.eq_of_loan_some hl
      constructor
      case count => rw [he]
      case owned =>
        intro el hel
        cases List.mem_append.mp hel
        case inl hel => exact ho el hel
        case inr hel => simp [List.mem_singleton.mp hel]
      all_goals simp [Call.inHand, living, lingering, Element.living, Element.lingering]
      all_goals omega

theorem step_kept (h : l.step x p = some (p', l')) (ho : Owned p)
    (hn₁ : p.myObjectAllocator.nAvailable.toNat + p.living ≤ n.toNat)
    (hn₂ : p.myControlBlockAllocator.nAvailable.toNat + p.living + p.lingering ≤ n.toNat) :
    Kept p p' l.inHand l'.inHand := by
  cases l <;> simp only [Call.step, Option.map_eq_some_iff, Prod.mk.injEq, reduceCtorEq] at h
  case makePooled =>
    obtain ⟨_, h, rfl, rfl⟩ := h
    exact makePooled_kept h ho
  case use =>
    obtain ⟨_, h, rfl, rfl⟩ := h
    exact use_kept h ho hn₁ hn₂

-- Where the blocks of both pools are.
structure Blocks (n : SizeT) (c : Config) : Prop where
  objects  : c.shared.myObjectAllocator.nAvailable.toNat + c.total Call.inHand + c.shared.living =
    n.toNat
  controls : c.shared.myControlBlockAllocator.nAvailable.toNat + c.shared.living +
    c.shared.lingering = n.toNat
  count    : 0 < c.shared.myControlBlockAllocator.countPerElement
  owned    : Owned c.shared

theorem new_eq {memory : Memory segment} {layout : Layout} {count : SizeT}
    (h : new memory layout n count = .ok p) :
    p.myObjectAllocator.nAvailable = n ∧ p.myControlBlockAllocator.nAvailable = n ∧
      p.myControlBlockAllocator.countPerElement = 1 ∧ p.elements = [] := by
  simp only [new, bind, Except.bind] at h
  split at h
  case h_1 => simp at h
  case h_2 s₁ h₁ =>
    split at h
    case h_1 => simp at h
    case h_2 s₂ h₂ =>
      obtain rfl := Except.ok.inj h
      have ⟨_, _, _, he₁⟩ := AllocatorState.eq_of_allocate rfl h₁
      have ⟨_, _, _, he₂⟩ := AllocatorState.eq_of_allocate rfl h₂
      rw [he₁, he₂]
      exact ⟨rfl, rfl, rfl, rfl⟩

namespace Blocks

theorem init {memory : Memory segment} {layout : Layout} {count : SizeT}
    (h : new memory layout n count = .ok p) : Blocks n ⟨p, [], []⟩ := by
  have ⟨ho, hs, hc, he⟩ := new_eq h
  constructor
  case objects  => simp [Program.Config.total, living, he, ho]
  case controls => simp [living, lingering, he, hs]
  case count    => simp [hc]
  case owned    => simp [Owned, he]

theorem after {i : ℕ} (h : Blocks n c) (hl : c.calls[i]? = some l)
    (hk : Kept c.shared p' l.inHand l'.inHand) : Blocks n (c.after i l p' l') := by
  have ht := c.total_after Call.inHand p' l' hl
  have := h.objects
  have := hk.objects
  constructor
  case objects  => simp only [Program.Config.after_shared]; omega
  case controls => exact hk.controls.trans h.controls
  case count    => exact hk.count.symm ▸ h.count
  case owned    => exact hk.owned

theorem loan_iff (h : Blocks n c) {m : Mapping segment} :
    (c.shared.myControlBlockAllocator.Loan m).1 ≠ none ↔
      c.shared.lingering < c.shared.myObjectAllocator.nAvailable.toNat + c.total Call.inHand := by
  have := h.objects
  have := h.controls
  cases hl : c.shared.myControlBlockAllocator.Loan m
  case mk ptr s =>
  cases ptr
  case none =>
    obtain ⟨_, hn | hn⟩ := AllocatorState.eq_of_loan_none hl
    · simp only [hn, UInt64.toNat_zero] at this
      simp only [ne_eq, not_true_eq_false, false_iff]
      omega
    · exact absurd h.count (by simp [hn])
  case some =>
    have hn := AllocatorState.nAvailable_of_loan hl
    simp only [ne_eq, reduceCtorEq, not_false_eq_true, true_iff]
    omega

end Blocks

theorem blocks {memory : Memory segment} {layout : Layout} {count : SizeT}
    (hp : new memory layout n count = .ok p) (h : (system segment p).Reachable c) :
    Blocks n c := by
  refine Program.invariant (I := Blocks n) ?_ ?_ ?_ |>.holds h
  · rintro _ rfl
    exact .init hp
  · intro _ l _ h hl
    have hz : l.inHand = 0 := by
      cases l <;> simp_all [program, Call.starts, Call.inHand]
    exact { h with objects := by simpa [hz] using h.objects }
  · intro c _ _ _ _ _ _ h hl hs
    have := h.objects
    have := h.controls
    exact h.after hl <| step_kept (n := n) hs h.owned (by omega) (by omega)

def Call.pooling : Call → Bool
  | .makePooled (.pooling _) => true
  | _                        => false

def Call.crashed : Call → Bool
  | .makePooled (.crashed _) => true
  | _                        => false

-- The step takes a control block for an object.
def Pooling (c : Config) : Program.Action Call (Choice segment) → Prop
  | .enter _ => False
  | .run i _ => c.calls[i]?.map Call.pooling = some true

instance : DecidablePred (@Pooling segment c)
  | .enter _ => inferInstanceAs (Decidable False)
  | .run i _ => inferInstanceAs (Decidable (c.calls[i]?.map Call.pooling = some true))

-- Fewer elements linger than there are object blocks that are not in use by an element.
def ControlsKeepUp (c : Config) : Prop :=
  c.shared.lingering < c.shared.myObjectAllocator.nAvailable.toNat + c.total Call.inHand

instance : DecidablePred ControlsKeepUp :=
  fun c => inferInstanceAs (Decidable
    (c.shared.lingering < c.shared.myObjectAllocator.nAvailable.toNat + c.total Call.inHand))

theorem step_crashed (h : l.step x p = some (p', l')) (hc : l'.crashed) :
    l.pooling ∧ (p.myControlBlockAllocator.Loan x.m).1 = none := by
  cases l <;> simp only [Call.step, Option.map_eq_some_iff, Prod.mk.injEq, reduceCtorEq] at h
  case makePooled k =>
    obtain ⟨⟨_, k'⟩, h, rfl, rfl⟩ := h
    cases k <;> simp only [MakePooled.step, reduceCtorEq] at h
    case entered =>
      split at h <;> obtain ⟨rfl, rfl⟩ := Prod.mk.inj (Option.some.inj h) <;> simp [Call.crashed] at hc
    case constructing =>
      obtain ⟨rfl, rfl⟩ := Prod.mk.inj (Option.some.inj h)
      cases hx : x.throws <;> simp [hx, Call.crashed] at hc
    case pooling =>
      split at h <;> obtain ⟨rfl, rfl⟩ := Prod.mk.inj (Option.some.inj h)
      case h_1 hl => exact ⟨rfl, by rw [hl]⟩
      case h_2    => simp [Call.crashed] at hc
  case use =>
    obtain ⟨_, _, rfl, rfl⟩ := h
    simp [Call.crashed] at hc

section

variable {memory : Memory segment} {layout : Layout} {count : SizeT}

theorem not_crashed (hp : new memory layout n count = .ok p)
    (h : ((system segment p).restrict fun c a => Pooling c a → ControlsKeepUp c).Reachable c) :
    ∀ l ∈ c.calls, l.crashed = false := by
  refine Program.invariant_restrict (I := fun c => ∀ l ∈ c.calls, l.crashed = false) ?_ ?_ ?_
    |>.holds h
  · simp
  · intro _ l _ ih _ hl l' hm
    obtain hm | rfl := List.mem_append.mp hm |>.imp_right List.mem_singleton.mp
    · exact ih l' hm
    · cases l' <;> simp_all [program, Call.starts, Call.crashed]
  · intro c i x l p' l' hr ih hk hl hs l₁ hm
    have ⟨j, hj⟩ := List.getElem?_of_mem hm
    obtain ⟨rfl, rfl⟩ | ⟨_, hj⟩ := Program.Config.after_calls_get? hj
    · by_contra hc
      have ⟨hpool, hnone⟩ := step_crashed hs (by simpa using hc)
      exact (blocks hp hr.of_restrict).loan_iff.mpr (hk (by simp [Pooling, hl, hpool])) hnone
    · exact ih l₁ (List.mem_of_getElem? hj)

-- After the loan of an object, that of a control block succeeds just if the control blocks keep up.
-- If they always do, no `make_pooled` ever constructs a control block at `nullptr`.
theorem controls_keep_up (hp : new memory layout n count = .ok p) :
    (∀ {c}, (system segment p).Reachable c → ∀ m : Mapping segment,
      (c.shared.myControlBlockAllocator.Loan m).1 ≠ none ↔ ControlsKeepUp c) ∧
    (∀ {c}, ((system segment p).restrict fun c a => Pooling c a → ControlsKeepUp c).Reachable c →
      ∀ l ∈ c.calls, l.crashed = false) :=
  ⟨fun h _ => (blocks hp h).loan_iff, fun h => not_crashed hp h⟩

end

-- A pool of one element in a segment of 4096 bytes, as two processes see it.
def smallMemory : Memory 4096 where
  controls        := .freeAt 512 64 (by decide)
  controlPointers := .freeAt 1024 64 (by decide)
  objects         := .freeAt 2048 64 (by decide)
  objectPointers  := .freeAt 3072 64 (by decide)

def smallLayout : Layout where
  sizeT        := 16
  alignT       := 8
  sizeControl  := 32
  alignControl := 8

def low : Choice 4096 where
  m := ⟨65536, by decide, by decide⟩

def high : Choice 4096 where
  m := ⟨1048576, by decide, by decide⟩

theorem controls_keep_up_run : ∃ p, new smallMemory smallLayout 1 1 = .ok p ∧
    ∃ c, (system 4096 p).Reachable c ∧ Pooling c (.run 4 high) ∧
      (c.shared.myControlBlockAllocator.Loan high.m).1 ≠ none ∧
      ∀ l ∈ c.calls, l.crashed = false := by
  have ⟨p, hp⟩ : ∃ p, new smallMemory smallLayout 1 1 = .ok p := ⟨_, rfl⟩
  have ⟨c, hr, hq, hk⟩ : ∃ c, ((system 4096 p).restrict fun c a =>
      Pooling c a → ControlsKeepUp c).Reachable c ∧ Pooling c (.run 4 high) ∧ ControlsKeepUp c := by
    obtain rfl := Except.ok.inj hp
    exact Program.exec_reachable rfl <| show Option.any _ (System.exec _ _ _ [
      .enter (.makePooled .entered), .run 0 low, .run 0 low, .run 0 low,
      .enter (.use 0 .drop), .run 1 low, .enter (.use 0 .dispose), .run 2 low,
      .enter (.use 0 .destroy), .run 3 low,
      .enter (.makePooled .entered), .run 4 high, .run 4 high]) by decide +kernel
  have ⟨h₁, h₂⟩ := controls_keep_up hp
  exact ⟨p, hp, c, hr.of_restrict, hq, (h₁ hr.of_restrict high.m).mpr hk, h₂ hr⟩

-- The first process has disposed of its element but not destroyed it, when the other one pools its own.
theorem no_control_while_lingering : ∃ p, new smallMemory smallLayout 1 1 = .ok p ∧
    ∃ c, (system 4096 p).Reachable c ∧ Pooling c (.run 3 high) ∧
      (c.shared.myControlBlockAllocator.Loan high.m).1 = none := by
  have ⟨p, hp⟩ : ∃ p, new smallMemory smallLayout 1 1 = .ok p := ⟨_, rfl⟩
  refine ⟨p, hp, ?_⟩
  obtain rfl := Except.ok.inj hp
  rw [← System.restrict_true (S := system 4096 _)]
  exact Program.exec_reachable rfl <| show Option.any _ (System.exec _ _ _ [
    .enter (.makePooled .entered), .run 0 low, .run 0 low, .run 0 low,
    .enter (.use 0 .drop), .run 1 low, .enter (.use 0 .dispose), .run 2 low,
    .enter (.makePooled .entered), .run 3 high, .run 3 high]) by decide +kernel

end MemPoolIPC
end IPC
