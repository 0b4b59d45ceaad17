import InterprocessMemPool.Concurrency.Calls
import InterprocessMemPool.MempoolIPC.Pool.Basic

namespace IPC

-- The states of a `boost::interprocess::shared_ptr`'s control block, in their order: there are strong
-- pointers, the last of them has been released but the deleter has not returned the object yet, the
-- object has been returned, the control block has been deallocated.
inductive Element.Phase
  | owned
  | disposing
  | disposed
  | destroyed
  deriving DecidableEq

-- An element for which a control block has been constructed. Pointers are positions in the segment.
structure Element where
  object     : SizeT
  control    : SizeT
  use_count  : ℕ
  weak_count : ℕ
  phase      : Element.Phase
  deriving DecidableEq

-- `elements` has all elements that were ever pooled, in the order in which they were.
structure MemPoolIPC where
  nElements               : SizeT
  countPerElement         : SizeT
  myControlBlockAllocator : AllocatorState
  myObjectAllocator       : AllocatorState
  elements                : List Element

-- The sizes and alignments of an element and of its control block.
structure Layout where
  sizeT        : SizeT
  alignT       : SizeT
  sizeControl  : SizeT
  alignControl : SizeT

-- The answers of the segment manager to the requests of the constructor. Those for objects that are
-- freed at the end of the constructor are left out.
structure Memory (segment : ℕ) where
  controls        : SegmentManager segment
  controlPointers : SegmentManager segment
  objects         : SegmentManager segment
  objectPointers  : SegmentManager segment

namespace MemPoolIPC

variable {segment : ℕ}

def new (memory : Memory segment) (layout : Layout) (nElements_in countPerElement_in : SizeT) :
    Except Fault MemPoolIPC := do
  let myControlBlockAllocator ← (AllocatorState.new nElements_in 1).Allocate
    memory.controls memory.controlPointers layout.sizeControl layout.alignControl
  let myObjectAllocator ← (AllocatorState.new nElements_in countPerElement_in).Allocate
    memory.objects memory.objectPointers layout.sizeT layout.alignT
  return {
    nElements       := nElements_in
    countPerElement := countPerElement_in
    myControlBlockAllocator
    myObjectAllocator
    elements        := [] }

def modify (p : MemPoolIPC) (e : ℕ) (f : Element → Element) : MemPoolIPC :=
  { p with elements := p.elements.modify e f }

-- `crashed` is a call that has constructed a control block at `nullptr`.
inductive MakePooled
  | entered
  | constructing (ptrObject : Address)
  | pooling (ptrObject : Address)
  | returned (e : Option ℕ)
  | threw (ptrObject : Address)
  | crashed (ptrObject : Address)
  deriving DecidableEq

-- The constructors of the elements in the block are a single step. The constructor of the shared
-- pointer takes a control block from the pool and does not check what it got.
def MakePooled.step (m : Mapping segment) (throws : Bool) (p : MemPoolIPC) :
    MakePooled → Option (MemPoolIPC × MakePooled)
  | .entered                =>
    match p.myObjectAllocator.Loan m with
    | (none, s)           => some ({ p with myObjectAllocator := s }, .returned none)
    | (some ptrObject, s) => some ({ p with myObjectAllocator := s }, .constructing ptrObject)
  | .constructing ptrObject => some (p, if throws then .threw ptrObject else .pooling ptrObject)
  | .pooling ptrObject      =>
    match p.myControlBlockAllocator.Loan m with
    | (none, s)         => some ({ p with myControlBlockAllocator := s }, .crashed ptrObject)
    | (some control, s) => some ({ p with
        myControlBlockAllocator := s
        elements := p.elements ++ [{
          object     := ptrObject - m.base
          control    := control - m.base
          use_count  := 1
          weak_count := 0
          phase      := .owned }] }, .returned (some p.elements.length))
  | .returned _             => none
  | .threw _                => none
  | .crashed _              => none

-- What the owners of strong and weak pointers do with the element `e`. To lock a weak pointer is to
-- copy a strong one. `dispose` and `destroy` are the last parts of a release, and are run by whoever
-- has begun it.
inductive Use
  | copy
  | drop
  | observe
  | forget
  | dispose
  | destroy
  deriving DecidableEq

-- A process cannot run the destructors of an object, or use a control block, that it sees at
-- `nullptr`.
def Use.step (m : Mapping segment) (p : MemPoolIPC) (e : ℕ) (u : Use) : Option MemPoolIPC :=
  p.elements[e]?.bind fun el =>
    match u with
    | .copy    =>
      if 0 < el.use_count then
        some <| p.modify e fun el => { el with use_count := el.use_count + 1 }
      else none
    | .drop    =>
      if 0 < el.use_count then some <| p.modify e fun el => { el with
        use_count := el.use_count - 1
        phase     := if el.use_count = 1 then .disposing else el.phase }
      else none
    | .observe =>
      if 0 < el.use_count ∨ 0 < el.weak_count then
        some <| p.modify e fun el => { el with weak_count := el.weak_count + 1 }
      else none
    | .forget  =>
      if 0 < el.weak_count then
        some <| p.modify e fun el => { el with weak_count := el.weak_count - 1 }
      else none
    | .dispose =>
      if el.phase = .disposing ∧ m.address el.object ≠ 0 then
        some { p.modify e (fun el => { el with phase := .disposed }) with
          myObjectAllocator := p.myObjectAllocator.Accept m (m.address el.object) }
      else none
    | .destroy =>
      if el.phase = .disposed ∧ el.weak_count = 0 ∧ m.address el.control ≠ 0 then
        some { p.modify e (fun el => { el with phase := .destroyed }) with
          myControlBlockAllocator := p.myControlBlockAllocator.Accept m (m.address el.control) }
      else none

-- The release of a strong pointer by a process that nobody interrupts: if it was the last one, then the
-- object and the control block are returned at once.
def release (m : Mapping segment) (p : MemPoolIPC) (e : ℕ) : Option MemPoolIPC :=
  (Use.drop.step m p e).bind fun p =>
    if p.elements[e]?.any (·.phase = .disposing) then
      (Use.dispose.step m p e).bind fun p => Use.destroy.step m p e
    else some p

inductive Call
  | makePooled (c : MakePooled)
  | use (e : ℕ) (u : Use)
  | used
  deriving DecidableEq

-- The process that takes the step, and whether the constructor of an element throws.
structure Choice (segment : ℕ) where
  m : Mapping segment
  throws : Bool := false

namespace Call

def starts : Call → Bool
  | .makePooled c => c = .entered
  | .use _ _      => true
  | .used         => false

def step (x : Choice segment) (p : MemPoolIPC) : Call → Option (MemPoolIPC × Call)
  | .makePooled c => (c.step x.m x.throws p).map fun (p', c') => (p', .makePooled c')
  | .use e u      => (u.step x.m p e).map fun p' => (p', .used)
  | .used         => none

end Call

def program (segment : ℕ) : Program MemPoolIPC Call (Choice segment) where
  starts := Call.starts
  step   := Call.step

abbrev Config := Program.Config MemPoolIPC Call

-- A pool that has just been constructed.
def system (segment : ℕ) (p : MemPoolIPC) :=
  (program segment).system (· = p)

end MemPoolIPC
end IPC
