import InterprocessMemPool.Concurrency.Holding
import InterprocessMemPool.MempoolIPC.MemPool.Theorems.Controls

namespace IPC

-- An element between two releases, if nobody observes it with a weak pointer.
def Element.Settled (el : Element) : Prop :=
  el.weak_count = 0 ∧ (0 < el.use_count ∧ el.phase = .owned ∨ el.use_count = 0 ∧ el.phase = .destroyed)

theorem Element.Settled.owned_of_pos {el : Element} (h : el.Settled) (hu : 0 < el.use_count) : el.phase = .owned := by
  obtain ⟨_, ⟨_, hp⟩ | ⟨hz, _⟩⟩ := h
  · exact hp
  · omega

namespace AllocatorState

open Lending

variable {segment : ℕ} {s t : AllocatorState} {m : Mapping segment} {ptr : Address} {position : SizeT}
variable {out : List SizeT}

theorem offsetOf_eq : offsetOf s m ptr = ptr - m.base - s.objects_alignedPtr := by
  simp only [offsetOf, Mapping.address]
  grind

-- A block that is given back by its position in the segment.
theorem Sound.give_back (h : s.Sound ⟨t, (position - s.objects_alignedPtr) :: out⟩)
    (hp : m.address position ≠ 0) : s.Sound ⟨t.Accept m (m.address position), out⟩ := by
  have heq : offsetOf s m (m.address position) = position - s.objects_alignedPtr := by
    simp only [offsetOf, Mapping.address]
    grind
  have := h.accept hp (by rw [heq]; exact List.mem_cons_self)
  rwa [heq, List.erase_cons_head] at this

end AllocatorState

namespace MemPoolIPC

variable {segment : ℕ} {p p' : MemPoolIPC} {s t : AllocatorState} {m : Mapping segment} {n : SizeT}
variable {e : ℕ} {el : Element} {hand : List SizeT} {ptr : Address}

-- What the elements that have not been returned have in their place.
def lent (p : MemPoolIPC) (f : Element → SizeT) : List SizeT :=
  p.elements.filterMap fun el => if el.phase = .owned then some (f el) else none

-- Where the blocks of both pools are, given the states in which they have been set up: an object block
-- that is not free is in the hand of somebody who makes an element of it, or it belongs to an element.
structure Lent (s t : AllocatorState) (p : MemPoolIPC) (hand : List SizeT) : Prop where
  objects  : s.Sound ⟨p.myObjectAllocator, hand ++ p.lent (·.object - s.objects_alignedPtr)⟩
  controls : t.Sound ⟨p.myControlBlockAllocator, p.lent (·.control - t.objects_alignedPtr)⟩
  settled  : ∀ el ∈ p.elements, el.Settled

theorem modify_eq {f : Element → Element} (he : p.elements[e]? = some el) :
    p.modify e f = { p with elements := p.elements.set e (f el) } := by
  simp [MemPoolIPC.modify, List.modify_eq_set_getElem?, he]

theorem getElem?_set_self (el' : Element) (he : p.elements[e]? = some el) :
    (p.elements.set e el')[e]? = some el' := by
  have ⟨h, _⟩ := List.getElem?_eq_some_iff.mp he
  simp [h]

theorem copy_eq (h : Use.copy.step m p e = some p') :
    ∃ el, p.elements[e]? = some el ∧ 0 < el.use_count ∧
      p' = { p with elements := p.elements.set e { el with use_count := el.use_count + 1 } } := by
  simp only [Use.step, Option.bind_eq_some_iff, Option.ite_none_right_eq_some, Option.some.injEq] at h
  obtain ⟨el, he, hu, rfl⟩ := h
  exact ⟨el, he, hu, modify_eq he⟩

theorem drop_eq (he : p.elements[e]? = some el) (hu : 0 < el.use_count) :
    Use.drop.step m p e = some { p with elements := p.elements.set e { el with
      use_count := el.use_count - 1
      phase     := if el.use_count = 1 then .disposing else el.phase } } := by
  simp [Use.step, he, hu, modify_eq he]

theorem dispose_eq (he : p.elements[e]? = some el) (h : Use.dispose.step m p e = some p') :
    m.address el.object ≠ 0 ∧ p' = { p with
      elements          := p.elements.set e { el with phase := .disposed }
      myObjectAllocator := p.myObjectAllocator.Accept m (m.address el.object) } := by
  simp only [Use.step, he, Option.bind_some, Option.ite_none_right_eq_some, Option.some.injEq,
    modify_eq he] at h
  exact ⟨h.left.right, h.right.symm⟩

theorem destroy_eq (he : p.elements[e]? = some el) (h : Use.destroy.step m p e = some p') :
    m.address el.control ≠ 0 ∧ p' = { p with
      elements                := p.elements.set e { el with phase := .destroyed }
      myControlBlockAllocator := p.myControlBlockAllocator.Accept m (m.address el.control) } := by
  simp only [Use.step, he, Option.bind_some, Option.ite_none_right_eq_some, Option.some.injEq,
    modify_eq he] at h
  exact ⟨h.left.right.right, h.right.symm⟩

-- The last strong pointer returns the element, and any other one does not.
theorem release_cases (he : p.elements[e]? = some el) (hs : el.Settled)
    (h : p.release m e = some p') :
    (1 < el.use_count ∧
      p' = { p with elements := p.elements.set e { el with use_count := el.use_count - 1 } }) ∨
    (el.use_count = 1 ∧ m.address el.object ≠ 0 ∧ m.address el.control ≠ 0 ∧
      p' = { p with
        elements                := p.elements.set e { el with use_count := 0, phase := .destroyed }
        myObjectAllocator       := p.myObjectAllocator.Accept m (m.address el.object)
        myControlBlockAllocator := p.myControlBlockAllocator.Accept m (m.address el.control) }) := by
  obtain ⟨hw, ⟨hu, hp⟩ | ⟨hu, hp⟩⟩ := hs
  case inr => simp [release, Use.step, he, hu] at h
  case inl =>
    rw [release, drop_eq he hu, Option.bind_some] at h
    simp only [getElem?_set_self _ he, Option.any_some] at h
    by_cases h₁ : el.use_count = 1
    case neg =>
      simp only [h₁, if_false, hp, reduceCtorEq, decide_false, Bool.false_eq_true, Option.some.injEq] at h
      exact .inl ⟨by omega, by rw [← h, hp]⟩
    case pos =>
      simp only [h₁, if_true, decide_true] at h
      obtain ⟨p₁, h₂, h₃⟩ := Option.bind_eq_some_iff.mp h
      obtain ⟨ho, rfl⟩ := dispose_eq (getElem?_set_self _ he) h₂
      obtain ⟨hc, rfl⟩ := destroy_eq (by simpa using getElem?_set_self _ he) h₃
      exact .inr ⟨h₁, ho, hc, by simp⟩

open AllocatorState.Lending

theorem lent_set (f : Element → SizeT) (el' : Element) (he : p.elements[e]? = some el) :
    ((if el.phase = .owned then some (f el) else none).toList ++
        ({ p with elements := p.elements.set e el' } : MemPoolIPC).lent f).Perm
      ((if el'.phase = .owned then some (f el') else none).toList ++ p.lent f) :=
  List.filterMap_set_perm (fun el => if el.phase = .owned then some (f el) else none) el' he

-- The number of elements that have not been returned.
def owned (p : MemPoolIPC) : ℕ :=
  p.elements.countP (·.phase = .owned)

theorem lent_length (f : Element → SizeT) : (p.lent f).length = p.owned := by
  simp only [lent, owned]
  induction p.elements
  case nil          => rfl
  case cons el _ ih => by_cases hp : el.phase = .owned <;> simp [hp, ih]

theorem owned_set (el' : Element) (he : p.elements[e]? = some el) :
    (if el.phase = .owned then 1 else 0) +
        ({ p with elements := p.elements.set e el' } : MemPoolIPC).owned =
      (if el'.phase = .owned then 1 else 0) + p.owned := by
  have := (lent_set (fun _ => 0) el' he).length_eq
  simp only [List.length_append, lent_length] at this
  by_cases hp : el.phase = .owned <;> by_cases hp' : el'.phase = .owned <;> simp_all

theorem exists_of_release (h : p.release m e = some p') : ∃ el, p.elements[e]? = some el := by
  cases he : p.elements[e]?
  case none    => simp [MemPoolIPC.release, Use.step, he] at h
  case some el => exact ⟨el, rfl⟩

namespace Lent

theorem congr {hand' : List SizeT} (h : Lent s t p hand) (hp : hand'.Perm hand) :
    Lent s t p hand' where
  objects  := h.objects.congr (hp.append_right _)
  controls := h.controls
  settled  := h.settled

theorem settled_set {el' : Element} (h : Lent s t p hand) (hs : el'.Settled) :
    ∀ el ∈ p.elements.set e el', el.Settled := by
  intro el hm
  obtain hm | rfl := List.mem_or_eq_of_mem_set hm
  · exact h.settled el hm
  · exact hs

-- The number of pointers to an element does not matter to the blocks.
theorem use_count {k : ℕ} (h : Lent s t p hand) (he : p.elements[e]? = some el) (hu : 0 < el.use_count)
    (hk : 0 < k) :
    Lent s t { p with elements := p.elements.set e { el with use_count := k } } hand := by
  have hsettled := h.settled el (List.mem_of_getElem? he)
  have hp := hsettled.owned_of_pos hu
  have hlent (f : Element → SizeT) (hf : f { el with use_count := k } = f el) :
      (({ p with elements := p.elements.set e { el with use_count := k } } : MemPoolIPC).lent f).Perm
        (p.lent f) := by
    have := lent_set f { el with use_count := k } he
    rw [if_pos hp, if_pos (show ({ el with use_count := k } : Element).phase = .owned from hp), hf] at this
    exact this.cons_inv
  exact ⟨h.objects.congr ((hlent _ rfl).append_left _), h.controls.congr (hlent _ rfl),
    h.settled_set ⟨hsettled.left, .inl ⟨hk, hp⟩⟩⟩

theorem copy (h : Lent s t p hand) (hs : Use.copy.step m p e = some p') : Lent s t p' hand := by
  obtain ⟨el, he, hu, rfl⟩ := copy_eq hs
  exact h.use_count he hu (Nat.succ_pos _)

theorem release (h : Lent s t p hand) (hr : p.release m e = some p') : Lent s t p' hand := by
  obtain ⟨el, he⟩ := exists_of_release hr
  have hs := h.settled el (List.mem_of_getElem? he)
  obtain ⟨hu, rfl⟩ | ⟨hu, ho, hc, rfl⟩ := release_cases he hs hr
  case inl => exact h.use_count he (by omega) (by omega)
  case inr =>
    have hp := hs.owned_of_pos (by omega)
    have hlent (f : Element → SizeT) : (p.lent f).Perm (f el :: ({ p with
        elements := p.elements.set e { el with use_count := 0, phase := .destroyed } } :
        MemPoolIPC).lent f) := by
      have := lent_set f { el with use_count := 0, phase := .destroyed } he
      simpa [hp] using this.symm
    constructor
    case objects  =>
      have hf := (hlent (·.object - s.objects_alignedPtr)).append_left hand
      exact (h.objects.congr (List.perm_middle.symm.trans hf.symm)).give_back ho
    case controls =>
      exact (h.controls.congr (hlent (·.control - t.objects_alignedPtr)).symm).give_back hc
    case settled  => exact h.settled_set ⟨hs.left, .inr ⟨rfl, rfl⟩⟩

theorem copy_owned (h : Lent s t p hand) (hs : Use.copy.step m p e = some p') :
    p'.owned = p.owned := by
  obtain ⟨el, he, hu, rfl⟩ := copy_eq hs
  have hp := (h.settled el (List.mem_of_getElem? he)).owned_of_pos hu
  have := owned_set { el with use_count := el.use_count + 1 } he
  simpa [hp] using this

-- The element has been returned after a release just if it was among those that had not been before.
theorem release_owned (h : Lent s t p hand) (hr : p.release m e = some p') :
    p'.owned + (if p'.elements[e]?.any (·.phase = .destroyed) then 1 else 0) = p.owned := by
  obtain ⟨el, he⟩ := exists_of_release hr
  have hs := h.settled el (List.mem_of_getElem? he)
  obtain ⟨hu, rfl⟩ | ⟨hu, _, _, rfl⟩ := release_cases he hs hr
  all_goals
    have hp := hs.owned_of_pos (by omega)
    simp only [getElem?_set_self _ he, Option.any_some]
  case inl =>
    have := owned_set { el with use_count := el.use_count - 1 } he
    simpa [hp] using this
  case inr =>
    have := owned_set { el with use_count := 0, phase := .destroyed } he
    simp only [hp, if_true, reduceCtorEq, if_false, Nat.zero_add, owned] at this
    simp only [decide_true, if_true, owned]
    omega

-- A block that is taken from the pool is in somebody's hand.
theorem loan {a : AllocatorState} (h : Lent s t p hand)
    (hl : p.myObjectAllocator.Loan m = (some ptr, a)) :
    Lent s t { p with myObjectAllocator := a } (offsetOf s m ptr :: hand) where
  objects  := h.objects.loan hl
  controls := h.controls
  settled  := h.settled

-- With a control block, the block in the hand becomes an element.
theorem pool {a : AllocatorState} {control : Address} (h : Lent s t p (offsetOf s m ptr :: hand))
    (hl : p.myControlBlockAllocator.Loan m = (some control, a)) :
    Lent s t { p with
      myControlBlockAllocator := a
      elements                := p.elements ++ [{
        object     := ptr - m.base
        control    := control - m.base
        use_count  := 1
        weak_count := 0
        phase      := .owned }] } hand := by
  have hlent (f : Element → SizeT) (el : Element) (hp : el.phase = .owned) :
      (({ p with myControlBlockAllocator := a, elements := p.elements ++ [el] } : MemPoolIPC).lent f).Perm
        (f el :: p.lent f) := by
    simp only [lent, List.filterMap_append, List.filterMap_cons, hp, if_true, List.filterMap_nil]
    exact List.perm_append_singleton _ _
  constructor
  case objects  =>
    refine h.objects.congr (((hlent _ _ rfl).append_left hand).trans ?_)
    rw [AllocatorState.offsetOf_eq]
    exact List.perm_middle
  case controls =>
    have := h.controls.loan hl
    rw [AllocatorState.offsetOf_eq] at this
    exact this.congr (hlent _ _ rfl)
  case settled  =>
    intro el hm
    obtain hm | hm := List.mem_append.mp hm
    · exact h.settled el hm
    · rw [List.mem_singleton.mp hm]
      exact ⟨rfl, .inl ⟨Nat.one_pos, rfl⟩⟩

-- For a block in the hand there is a control block, as both pools have the same size.
theorem exists_control (h : Lent s t p hand) (hn : s.nElementsTotal = t.nElementsTotal)
    (hc : 0 < t.countPerElement) (hh : hand ≠ []) (m : Mapping segment) :
    ∃ control a, p.myControlBlockAllocator.Loan m = (some control, a) := by
  have h₁ := h.objects.list.top_add_length
  have h₂ := h.controls.list.top_add_length
  simp only [AllocatorState.blocks, List.length_map, List.length_range, List.length_append] at h₁ h₂
  rw [lent_length] at h₁ h₂
  rw [hn] at h₁
  have := List.length_pos_of_ne_nil hh
  obtain ⟨hz, _⟩ | ⟨_, hz⟩ := AllocatorState.loan_cases (m := m) (h.controls.count_eq ▸ hc)
  · have := congrArg UInt64.toNat hz
    simp only [UInt64.toNat_zero] at this
    omega
  · exact ⟨_, _, hz⟩

end Lent

section

variable {memory : Memory segment} {layout : Layout} {count : SizeT}

theorem new_eq_ok (h : new memory layout n count = .ok p) :
    (AllocatorState.new n 1).Allocate memory.controls memory.controlPointers layout.sizeControl
      layout.alignControl = .ok p.myControlBlockAllocator ∧
    (AllocatorState.new n count).Allocate memory.objects memory.objectPointers layout.sizeT
      layout.alignT = .ok p.myObjectAllocator ∧
    p.nElements = n ∧ p.countPerElement = count ∧ p.elements = [] := by
  simp only [new, bind, Except.bind] at h
  split at h
  case h_1 => cases h
  case h_2 s₁ h₁ =>
    split at h
    case h_1 => cases h
    case h_2 s₂ h₂ =>
      obtain rfl := Except.ok.inj h
      exact ⟨h₁, h₂, rfl, rfl, rfl⟩

theorem sound_of_allocate {objects pointers : SegmentManager segment} {size align : SizeT}
    (h : (AllocatorState.new n count).Allocate objects pointers size align = .ok s) :
    s.Sound ⟨s, []⟩ ∧ s.nElementsTotal = n ∧ s.nAvailable = n ∧ s.countPerElement = count := by
  obtain ⟨_, _, _, he⟩ := AllocatorState.eq_of_allocate rfl h
  have hn : s.nElementsTotal = n := by rw [he]; rfl
  have ha : s.nAvailable = n := by rw [he]; rfl
  have hp : s.pointers_alignedPtr = s.blocks := congrArg AllocatorState.pointers_alignedPtr he
  refine ⟨⟨rfl, ?_⟩, hn, ha, by rw [he]; rfl⟩
  have := FreeList.Holds.init s.blocks
  simpa [AllocatorState.blocks, hp, hn, ha] using this

theorem lent_of_new (h : new memory layout n count = .ok p) :
    Lent p.myObjectAllocator p.myControlBlockAllocator p [] := by
  obtain ⟨hc, ho, _, _, he⟩ := new_eq_ok h
  have hz (f : Element → SizeT) : p.lent f = [] := by simp [lent, he]
  refine ⟨?_, ?_, by simp [he]⟩
  · rw [hz]
    exact (sound_of_allocate ho).left
  · rw [hz]
    exact (sound_of_allocate hc).left

end

end MemPoolIPC
end IPC
