import InterprocessMemPool.MempoolIPC.MemPool.Construction
import InterprocessMemPool.MempoolIPC.MemPool.Theorems.Controls

namespace IPC

variable {segment : ℕ} {Args T : Type*} {m : Mapping segment} {new : Constructor Args T} {is_arithmetic : Bool}
variable {sizeof_args : ℕ} {p : MemPoolIPC} {args : Args} {ptrObject : Address} {s : AllocatorState}

namespace MemPoolIPC

-- No element is left alive in the block, and the free blocks of both pools are those that were free before.
structure AsBefore (p : MemPoolIPC) (made : Made T) : Prop where
  destroyed : made.alive = []
  available : made.pool.myObjectAllocator.nAvailable = p.myObjectAllocator.nAvailable
  objects   : made.pool.myObjectAllocator.free.Perm p.myObjectAllocator.free
  controls  : made.pool.myControlBlockAllocator.free.Perm p.myControlBlockAllocator.free

-- The elements before the one whose constructor throws stay alive, and the block stays on loan.
theorem make_pooled_of_threw (hl : p.myObjectAllocator.Loan m = (some ptrObject, s))
    (hc : constructs is_arithmetic sizeof_args)
    (ht : (construct new 0 args p.countPerElement.toNat).threw) :
    make_pooled m new is_arithmetic sizeof_args p args = {
      pool    := { p with myObjectAllocator := s }
      alive   := (construct new 0 args p.countPerElement.toNat).elements
      outcome := .threw ptrObject } := by
  simp only [make_pooled, hl, hc, if_true, ht]

-- If the constructor of an element throws, then the pool is never as it was: it has lost the block, and
-- the elements before that one are still alive.
theorem not_asBefore_of_threw (hl : p.myObjectAllocator.Loan m = (some ptrObject, s))
    (hc : constructs is_arithmetic sizeof_args)
    (ht : (construct new 0 args p.countPerElement.toNat).threw) :
    ∃ k < p.countPerElement.toNat, (make_pooled m new is_arithmetic sizeof_args p args).alive.length = k ∧
      ¬AsBefore p (make_pooled m new is_arithmetic sizeof_args p args) := by
  rw [make_pooled_of_threw hl hc ht]
  refine ⟨_, construct.length_lt_of_threw ht, rfl, fun h => ?_⟩
  have hn : s.nAvailable = p.myObjectAllocator.nAvailable := h.available
  have := AllocatorState.nAvailable_of_loan hl
  rw [hn] at this
  omega

-- A constructor of numbers that throws for the element at the given index.
def throwsAt (k : ℕ) : Constructor Unit ℕ := fun i args =>
  if i = k then none else some (i, args)

theorem not_asBefore_run : ∃ p, MemPoolIPC.new smallMemory smallLayout 1 2 = .ok p ∧
    ∃ k < p.countPerElement.toNat, (make_pooled low.m (throwsAt 1) false 0 p ()).alive.length = k ∧
      ¬AsBefore p (make_pooled low.m (throwsAt 1) false 0 p ()) := by
  have ⟨p, hp⟩ : ∃ p, MemPoolIPC.new smallMemory smallLayout 1 2 = .ok p := ⟨_, rfl⟩
  refine ⟨p, hp, ?_⟩
  obtain rfl := Except.ok.inj hp
  exact not_asBefore_of_threw rfl rfl rfl

-- The element that has been constructed is still alive.
theorem not_as_before : ∃ p, MemPoolIPC.new smallMemory smallLayout 1 2 = .ok p ∧
    ¬AsBefore p (make_pooled low.m (throwsAt 1) false 0 p ()) := by
  have ⟨p, hp⟩ : ∃ p, MemPoolIPC.new smallMemory smallLayout 1 2 = .ok p := ⟨_, rfl⟩
  refine ⟨p, hp, ?_⟩
  obtain rfl := Except.ok.inj hp
  exact fun h => absurd h.destroyed (by decide)

end MemPoolIPC
end IPC
