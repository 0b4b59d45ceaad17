import InterprocessMemPool.Construction
import InterprocessMemPool.MempoolIPC.MemPool.Basic

variable {segment : ℕ} {Args T : Type*}

namespace IPC.MemPoolIPC

-- The condition of the branch that constructs the elements.
def constructs (is_arithmetic : Bool) (sizeof_args : ℕ) : Bool :=
  !is_arithmetic || 0 < sizeof_args

-- What a call of `make_pooled` leaves: the pool, the elements in its block that are alive, and how it has
-- ended.
structure Made (T : Type*) where
  pool    : MemPoolIPC
  alive   : List T
  outcome : MakePooled

def make_pooled (m : Mapping segment) (new : Constructor Args T) (is_arithmetic : Bool) (sizeof_args : ℕ)
    (p : MemPoolIPC) (args : Args) : Made T :=
  match p.myObjectAllocator.Loan m with
  | (none, s)           => ⟨{ p with myObjectAllocator := s }, [], .returned none⟩
  | (some ptrObject, s) =>
    let p := { p with myObjectAllocator := s }
    let made :=
      if constructs is_arithmetic sizeof_args then construct new 0 args p.countPerElement.toNat else ⟨[], false⟩
    -- An exception leaves `make_pooled` with nobody that would return the block or destroy elements in it.
    if made.threw then ⟨p, made.elements, .threw ptrObject⟩ else
    match p.myControlBlockAllocator.Loan m with
    | (none, s)         => ⟨{ p with myControlBlockAllocator := s }, made.elements, .crashed ptrObject⟩
    | (some control, s) => {
        pool    := { p with
          myControlBlockAllocator := s
          elements := p.elements ++ [{
            object     := ptrObject - m.base
            control    := control - m.base
            use_count  := 1
            weak_count := 0
            phase      := .owned }] }
        alive   := made.elements
        outcome := .returned (some p.elements.length) }

variable {m : Mapping segment} {new : Constructor Args T} {is_arithmetic : Bool} {sizeof_args : ℕ}
variable {p : MemPoolIPC} {args : Args} {ptrObject : Address} {s : AllocatorState}

-- One step of `make_pooled` in the given process.
def MakePooled.Moves (m : Mapping segment) (x y : MemPoolIPC × MakePooled) : Prop :=
  ∃ throws, MakePooled.step m throws x.1 x.2 = some y

-- The steps of a call that nobody interrupts.
theorem make_pooled_steps :
    Relation.ReflTransGen (MakePooled.Moves m) (p, .entered)
      ((make_pooled m new is_arithmetic sizeof_args p args).pool,
        (make_pooled m new is_arithmetic sizeof_args p args).outcome) := by
  rcases hl : p.myObjectAllocator.Loan m with ⟨_ | ptrObject, s⟩
  case none =>
    exact .single ⟨false, by simp [MakePooled.step, make_pooled, hl]⟩
  case some =>
    refine .head ⟨false, by simp only [MakePooled.step, hl]; rfl⟩ ?_
    simp only [make_pooled, hl]
    generalize (if constructs is_arithmetic sizeof_args then _ else _ : Constructed T) = made
    cases hm : made.threw
    case true  => exact .single ⟨true, rfl⟩
    case false =>
      refine .head ⟨false, rfl⟩ (.single ⟨false, ?_⟩)
      rcases hc : p.myControlBlockAllocator.Loan m with ⟨_ | control, s'⟩ <;> simp [MakePooled.step, hc]

end IPC.MemPoolIPC
