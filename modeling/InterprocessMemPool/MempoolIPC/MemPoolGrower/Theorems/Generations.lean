import InterprocessMemPool.MempoolIPC.MemPool.Theorems.Lent
import InterprocessMemPool.MempoolIPC.MemPoolGrower.Basic

theorem Mapping.segment_lt {segment : ℕ} (m : Mapping segment) : segment < 2 ^ 64 := by
  have := m.pos
  have := m.fits
  omega

namespace RawMemoryIPC

theorem allocate_error {segment : ℕ} {b : RawMemoryIPC} {allocator : SegmentManager segment}
    {size align : SizeT} {f : Fault} (h : b.Allocate allocator size align = .error f) : f = .bad_alloc := by
  simp only [Allocate] at h
  split at h
  case h_2 => cases h
  case h_1 =>
    split at h
    case isTrue  => exact (Except.error.inj h).symm
    case isFalse => cases h

end RawMemoryIPC

namespace IPC

-- The sizes of the buffers of a pool do not wrap around.
def Fits (layout : Layout) (nElements countPerElement : SizeT) : Prop :=
  layout.sizeT.toNat * (nElements.toNat * countPerElement.toNat) < 2 ^ 64 ∧
  layout.sizeControl.toNat * nElements.toNat < 2 ^ 64 ∧
  8 * nElements.toNat < 2 ^ 64

instance {layout : Layout} {n count : SizeT} : Decidable (Fits layout n count) :=
  inferInstanceAs (Decidable (_ ∧ _ ∧ _))

namespace AllocatorState

variable {segment : ℕ} {objects pointers : SegmentManager segment} {n count size align : SizeT} {f : Fault}

-- There is room for all pointers if their size does not wrap around.
theorem allocate_error (hn : 8 * n.toNat < 2 ^ 64)
    (h : (new n count).Allocate objects pointers size align = .error f) : f = .bad_alloc := by
  rw [Allocate, if_neg (by simp [new])] at h
  cases h₁ : RawMemoryIPC.Allocate (new n count).objectsBuffer objects size align
  case error =>
    simp only [h₁, bind, Except.bind] at h
    exact Except.error.inj h ▸ RawMemoryIPC.allocate_error h₁
  case ok b =>
    cases h₂ : RawMemoryIPC.Allocate (new n count).pointersBuffer pointers 8 8
    case error =>
      simp only [h₁, h₂, bind, Except.bind] at h
      exact Except.error.inj h ▸ RawMemoryIPC.allocate_error h₂
    case ok b' =>
      have hs := (rawMemory_of_allocate h₂).left
      have : b'.rawSize.toNat = 8 * n.toNat := by
        rw [hs, UInt64.toNat_mul]
        exact Nat.mod_eq_of_lt hn
      simp only [h₁, h₂, bind, Except.bind] at h
      rw [if_neg (this ▸ Nat.lt_irrefl _)] at h
      cases h

end AllocatorState
namespace MemPoolIPC

open AllocatorState.Lending

variable {segment : ℕ} {p p' : MemPoolIPC} {s t : AllocatorState} {m : Mapping segment}
variable {memory : Memory segment} {layout : Layout} {n count : SizeT} {f : Fault}

theorem new_error (hf : Fits layout n count) (h : new memory layout n count = .error f) :
    f = .bad_alloc := by
  simp only [new, bind, Except.bind] at h
  split at h
  case h_1 h₁ => exact Except.error.inj h ▸ AllocatorState.allocate_error hf.right.right h₁
  case h_2 =>
    split at h
    case h_1 h₂ => exact Except.error.inj h ▸ AllocatorState.allocate_error hf.right.right h₂
    case h_2    => cases h

-- The object block that a call has taken and that does not belong to an element yet.
def MakePooled.inHand : MakePooled → Option Address
  | .constructing ptrObject | .pooling ptrObject => some ptrObject
  | .threw ptrObject | .crashed ptrObject        => some ptrObject
  | _                                            => none

-- The call has made an element.
def MakePooled.made : MakePooled → Bool
  | .returned (some _) => true
  | _                  => false

-- The steps of a call in which no constructor throws.
inductive MakePooled.Next (m : Mapping segment) (p : MemPoolIPC) : MakePooled → MemPoolIPC → MakePooled → Prop
  | empty (h : p.myObjectAllocator.Loan m = (none, p.myObjectAllocator)) : Next m p .entered p (.returned none)
  | take {ptr : Address} {a : AllocatorState} (h : p.myObjectAllocator.Loan m = (some ptr, a)) :
    Next m p .entered { p with myObjectAllocator := a } (.constructing ptr)
  | construct {ptr : Address} : Next m p (.constructing ptr) p (.pooling ptr)
  | pool {ptr control : Address} {a : AllocatorState}
    (h : p.myControlBlockAllocator.Loan m = (some control, a)) : Next m p (.pooling ptr)
      { p with
        myControlBlockAllocator := a
        elements                := p.elements ++ [{
          object     := ptr - m.base
          control    := control - m.base
          use_count  := 1
          weak_count := 0
          phase      := .owned }] }
      (.returned (some p.elements.length))
  | crash {ptr : Address} (h : p.myControlBlockAllocator.Loan m = (none, p.myControlBlockAllocator)) :
    Next m p (.pooling ptr) p (.crashed ptr)

theorem MakePooled.next_of_step {c c' : MakePooled} (h : c.step m false p = some (p', c')) :
    MakePooled.Next m p c p' c' := by
  cases c <;> simp only [MakePooled.step, Option.some.injEq, reduceCtorEq] at h
  case entered =>
    split at h
    case h_1 a ha =>
      obtain ⟨rfl, rfl⟩ := Prod.mk.inj (Option.some.inj h)
      obtain ⟨rfl, _⟩ := AllocatorState.eq_of_loan_none ha
      exact .empty ha
    case h_2 ha =>
      obtain ⟨rfl, rfl⟩ := Prod.mk.inj (Option.some.inj h)
      exact .take ha
  case constructing =>
    obtain ⟨rfl, rfl⟩ := Prod.mk.inj h
    exact .construct
  case pooling =>
    split at h
    case h_1 a ha =>
      obtain ⟨rfl, rfl⟩ := Prod.mk.inj (Option.some.inj h)
      obtain ⟨rfl, _⟩ := AllocatorState.eq_of_loan_none ha
      exact .crash ha
    case h_2 ha =>
      obtain ⟨rfl, rfl⟩ := Prod.mk.inj (Option.some.inj h)
      exact .pool ha

namespace MakePooled.Next

variable {c c' : MakePooled}

theorem nElements_eq (h : MakePooled.Next m p c p' c') : p'.nElements = p.nElements := by
  cases h <;> rfl

theorem countPerElement_eq (h : MakePooled.Next m p c p' c') : p'.countPerElement = p.countPerElement := by
  cases h <;> rfl

theorem buffers_eq (h : MakePooled.Next m p c p' c') : p'.buffers = p.buffers := by
  cases h
  case take h =>
    have ⟨_, ha⟩ := AllocatorState.eq_of_loan_some h
    rw [ha, buffers, buffers]
  case pool h =>
    have ⟨_, ha⟩ := AllocatorState.eq_of_loan_some h
    rw [ha, buffers, buffers]
  all_goals rfl

theorem not_crashed {ptr : Address} (h : MakePooled.Next m p c p' c')
    (hl : Lent s t p (c.inHand.toList.map (offsetOf s m))) (hn : s.nElementsTotal = t.nElementsTotal)
    (hc : 0 < t.countPerElement) : c' ≠ .crashed ptr := by
  cases h
  case crash h =>
    have ⟨_, _, he⟩ := hl.exists_control hn hc (by simp [inHand]) m
    cases h.symm.trans he
  all_goals simp

theorem lent (h : MakePooled.Next m p c p' c') (hl : Lent s t p (c.inHand.toList.map (offsetOf s m))) :
    Lent s t p' (c'.inHand.toList.map (offsetOf s m)) := by
  cases h
  case empty h   => exact hl
  case take h    => exact hl.loan h
  case construct => exact hl
  case pool h    => exact hl.pool h
  case crash     => exact hl

theorem owned_eq (h : MakePooled.Next m p c p' c') : p'.owned = p.owned + c'.made.toNat := by
  cases h <;> simp [owned, made]

end MakePooled.Next

-- The buffers of a pool are the ones it has been set up with.
theorem Lent.buffers_eq {hand : List SizeT} (h : Lent s t p hand) : p.buffers =
    [t.objectsBuffer, t.pointersBuffer, s.objectsBuffer, s.pointersBuffer] := by
  have h₁ := h.objects.eq
  have h₂ := h.controls.eq
  simp only at h₁ h₂
  rw [buffers, h₁, h₂]

end MemPoolIPC

-- A generation whose pool has been set up by the constructor. It is the grower's pool, or it is not.
structure Generation.Sound (segment : ℕ) (layout : Layout) (count : SizeT) (current : Bool) (hand : List SizeT)
    (gen : Generation) : Prop where
  fits      : Fits layout gen.pool.nElements count
  count_eq  : gen.pool.countPerElement = count
  lent      : ∃ (memory : Memory segment) (p : MemPoolIPC),
    MemPoolIPC.new memory layout gen.pool.nElements count = .ok p ∧
    MemPoolIPC.Lent p.myObjectAllocator p.myControlBlockAllocator gen.pool
      (hand.map (· - p.myObjectAllocator.objects_alignedPtr))
  use_count : gen.use_count = current.toNat + gen.pool.owned
  freed     : gen.freed ↔ gen.use_count = 0
  mapped    : gen.pool.elements ≠ [] → segment < 2 ^ 64

namespace Generation.Sound

open MemPoolIPC

variable {segment : ℕ} {layout : Layout} {count : SizeT} {current : Bool} {hand : List SizeT}
variable {gen : Generation} {m : Mapping segment} {p : MemPoolIPC} {e : ℕ}

theorem congr {hand' : List SizeT} (h : gen.Sound segment layout count current hand) (hp : hand'.Perm hand) :
    gen.Sound segment layout count current hand' :=
  have ⟨memory, p, hn, hl⟩ := h.lent
  { h with lent := ⟨memory, p, hn, hl.congr (hp.map _)⟩ }

theorem of_new {memory : Memory segment} {n : SizeT} (hf : Fits layout n count)
    (h : new memory layout n count = .ok p) : Generation.Sound segment layout count true [] { pool := p } := by
  obtain ⟨_, _, rfl, hc, he⟩ := new_eq_ok h
  exact {
    fits      := hf
    count_eq  := hc
    lent      := ⟨memory, p, h, lent_of_new h⟩
    use_count := by simp [owned, he]
    freed     := by simp
    mapped    := fun hne => (hne he).elim }

theorem copy (h : gen.Sound segment layout count current hand) (hs : Use.copy.step m gen.pool e = some p) :
    Generation.Sound segment layout count current hand { gen with pool := p } := by
  have ⟨memory, p₀, hn, hl⟩ := h.lent
  have ho := hl.copy_owned hs
  have hl' := hl.copy hs
  obtain ⟨_, _, _, rfl⟩ := copy_eq hs
  exact {
    fits      := h.fits
    count_eq  := h.count_eq
    lent      := ⟨memory, p₀, hn, hl'⟩
    use_count := ho ▸ h.use_count
    freed     := h.freed
    mapped    := fun _ => m.segment_lt }

theorem not_crashed {c c' : MakePooled} {ptr : Address}
    (h : gen.Sound segment layout count current (c.inHand.toList.map (· - m.base)))
    (hs : MakePooled.Next m gen.pool c p c') : c' ≠ .crashed ptr := by
  have ⟨memory, p₀, hn, hl⟩ := h.lent
  have ⟨hc, ho, _⟩ := new_eq_ok hn
  have ⟨_, hc, _, h₁⟩ := sound_of_allocate hc
  have ⟨_, ho, _, _⟩ := sound_of_allocate ho
  simp only [List.map_map, Function.comp_def, ← AllocatorState.offsetOf_eq] at hl
  exact hs.not_crashed hl (ho.trans hc.symm) (h₁ ▸ Nat.one_pos)

-- The generation from which the pool takes the elements is not freed.
theorem step {c c' : MakePooled} (h : gen.Sound segment layout count true (c.inHand.toList.map (· - m.base)))
    (hs : MakePooled.Next m gen.pool c p c') :
    Generation.Sound segment layout count true (c'.inHand.toList.map (· - m.base))
      { gen with pool := p, use_count := gen.use_count + c'.made.toNat } := by
  have ⟨memory, p₀, hn, hl⟩ := h.lent
  have ho := hs.owned_eq
  have hu := h.use_count
  simp only [List.map_map, Function.comp_def, ← AllocatorState.offsetOf_eq] at hl
  have hl' := hs.lent hl
  constructor <;> simp only [hs.nElements_eq, hs.countPerElement_eq]
  case fits      => exact h.fits
  case count_eq  => exact h.count_eq
  case lent      =>
    refine ⟨memory, p₀, hn, ?_⟩
    simpa only [List.map_map, Function.comp_def, ← AllocatorState.offsetOf_eq] using hl'
  case use_count => omega
  case freed     =>
    have := h.freed
    simp only [hu, Bool.toNat_true] at this ⊢
    simp only [this]
    omega
  case mapped    => exact fun _ => m.segment_lt

theorem freed_release (h : gen.freed ↔ gen.use_count = 0) (hu : 0 < gen.use_count) :
    gen.release.freed ↔ gen.release.use_count = 0 := by
  have hf : gen.freed = false := by
    rw [← Bool.not_eq_true, h]
    omega
  simp only [Generation.release, hf, Bool.false_or, decide_eq_true_eq]
  omega

theorem supersede (h : gen.Sound segment layout count true hand) :
    gen.release.Sound segment layout count false hand where
  fits      := h.fits
  count_eq  := h.count_eq
  lent      := h.lent
  use_count := by
    have := h.use_count
    simp only [Generation.release, Bool.toNat_true, Bool.toNat_false] at this ⊢
    omega
  freed     := freed_release h.freed <| by
    rw [h.use_count, Bool.toNat_true]
    omega
  mapped    := h.mapped

-- The blocks of an element are returned to its own generation.
theorem release (h : gen.Sound segment layout count current hand) (hr : gen.pool.release m e = some p) :
    let gen' : Generation := { gen with pool := p }
    (if p.elements[e]?.any (·.phase = .destroyed) then gen'.release else gen').Sound
      segment layout count current hand := by
  have ⟨memory, p₀, hn, hl⟩ := h.lent
  have ho := hl.release_owned hr
  have hl' := hl.release hr
  have hu := h.use_count
  have hc : p.nElements = gen.pool.nElements ∧ p.countPerElement = gen.pool.countPerElement := by
    have ⟨el, he⟩ := exists_of_release hr
    obtain ⟨_, rfl⟩ | ⟨_, _, _, rfl⟩ := release_cases he (hl.settled el (List.mem_of_getElem? he)) hr <;>
      exact ⟨rfl, rfl⟩
  intro gen'
  split
  case isTrue hd =>
    rw [if_pos hd] at ho
    constructor <;> simp only [Generation.release, gen', hc]
    case fits      => exact h.fits
    case count_eq  => exact h.count_eq
    case lent      => exact ⟨memory, p₀, hn, hl'⟩
    case use_count => omega
    case freed     => exact freed_release h.freed (by omega)
    case mapped    => exact fun _ => m.segment_lt
  case isFalse hd =>
    rw [if_neg hd] at ho
    constructor <;> simp only [gen', hc]
    case fits      => exact h.fits
    case count_eq  => exact h.count_eq
    case lent      => exact ⟨memory, p₀, hn, hl'⟩
    case use_count => omega
    case freed     => exact h.freed
    case mapped    => exact fun _ => m.segment_lt

-- Without free blocks there is no element, and otherwise there is one.
theorem nAvailable_of_loan (h : gen.Sound segment layout count current hand) (hc : 0 < count)
    {a : AllocatorState} (hl : gen.pool.myObjectAllocator.Loan m = (none, a)) :
    gen.pool.myObjectAllocator.nAvailable = 0 := by
  have ⟨_, p₀, hn, hl₀⟩ := h.lent
  have ⟨_, ho, _⟩ := new_eq_ok hn
  have ⟨_, _, _, he⟩ := sound_of_allocate ho
  obtain ⟨_, hz | hz⟩ := AllocatorState.eq_of_loan_none hl
  · exact hz
  · rw [hl₀.objects.count_eq, he] at hz
    exact absurd hz (UInt64.pos_iff_ne_zero.mp hc)

theorem buffers_of_copy (h : gen.Sound segment layout count current hand)
    (hs : Use.copy.step m gen.pool e = some p) : p.buffers = gen.pool.buffers :=
  have ⟨_, _, _, hl⟩ := h.lent
  (hl.copy hs).buffers_eq.trans hl.buffers_eq.symm

theorem buffers_of_release (h : gen.Sound segment layout count current hand)
    (hr : gen.pool.release m e = some p) : p.buffers = gen.pool.buffers :=
  have ⟨_, _, _, hl⟩ := h.lent
  (hl.release hr).buffers_eq.trans hl.buffers_eq.symm

end Generation.Sound
end IPC
