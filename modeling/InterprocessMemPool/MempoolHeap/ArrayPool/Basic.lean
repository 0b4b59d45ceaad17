import InterprocessMemPool.Concurrency.Calls
import InterprocessMemPool.MempoolHeap.Pool.Basic

namespace MempoolHeap

-- `sizeof(T)` and `alignof(T)` of a type that is not arithmetic, so that its objects are constructed
-- and destroyed.
structure ElementType where
  size  : SizeT
  align : SizeT
  pos   : 0 < size.toNat

-- What `std::allocate_shared` allocates for a `T*`: a control block, with the pointer somewhere in it.
structure SharedT where
  size   : SizeT
  align  : SizeT
  object : SizeT
  inside : object.toNat + 8 ≤ size.toNat

-- There is no `state` if its memory could not be allocated.
structure SharedPointerArrayAllocator where
  state      : Option AllocatorState
  rawObjects : RawMemory
  count      : SizeT
  rawAligned : Address

namespace SharedPointerArrayAllocator

def new (shared : SharedT) (type : ElementType) (nElements count_in : SizeT)
    (blocks pointers arrays : Allocator) : SharedPointerArrayAllocator :=
  let state := (AllocatorState.new nElements).Allocate blocks pointers shared.size shared.align
  let (rawObjects, rawAligned) :=
    (RawMemory.new (nElements * count_in)).Allocate arrays type.size type.align
  { state := if state.initialized then some state else none
    rawObjects
    count := count_in
    rawAligned }

-- The number of elements that there is memory for behind `rawAligned`.
def room (a : SharedPointerArrayAllocator) (type : ElementType) : ℕ :=
  if a.rawAligned = 0 then 0 else a.rawObjects.room / type.size.toNat

-- The elements of an array, as positions behind `rawAligned`. The last one is `last - 1`.
structure Slice where
  first : ℕ
  last  : ℕ
  deriving DecidableEq

def slice (a : SharedPointerArrayAllocator) (index : SizeT) : Slice where
  first := (index * a.count).toNat
  last  := (index * a.count).toNat + a.count.toNat

-- What happens to the elements.
inductive Event
  | constructed (ptr : ℕ)
  | destroyed (ptr : ℕ)
  deriving DecidableEq

-- The allocator, and what has happened to the elements so far.
structure Heap where
  allocator : SharedPointerArrayAllocator
  events    : List Event

inductive Outcome
  | null
  | threw
  | released
  deriving DecidableEq

-- A call to `allocate_raw`, followed by the life of the `shared_ptr` that it returns. `p` is the block
-- of the pool that this pointer owns. The behavior is undefined, which `faulted` stands for, if the
-- array is not in the memory for the elements.
inductive Call
  | entered
  | constructing (p : Address) (slice : Slice) (ptr : ℕ)
  | holding (p : Address) (made : Slice)
  | destroying (p : Address) (made slice : Slice) (ptr : ℕ) (outcome : Outcome)
  | accepting (p : Address) (outcome : Outcome)
  | returned (outcome : Outcome)
  | faulted (p : Address)
  deriving DecidableEq

-- The first part of `Accept`. `made` are the elements that have been constructed.
def destructed (a : SharedPointerArrayAllocator) (p : Address) (made : Slice) (outcome : Outcome) :
    Call :=
  match a.state.bind (·.destructed p) with
  | none              => .returned outcome
  | some elementIndex =>
    .destroying p made (a.slice elementIndex) (a.slice elementIndex).first outcome

-- A choice is whether the constructor of the next element throws, in which case `ret` is destroyed.
def Call.step (shared : SharedT) (type : ElementType) (throws : Bool) (h : Heap) :
    Call → Option (Heap × Call)
  | .entered =>
    match h.allocator.state with
    | none   => some (h, .returned .null)
    | some s =>
      match s.Loan with
      | .error _    => some (h, .returned .null)
      | .ok (p, s') =>
        let allocator := { h.allocator with state := some s' }
        let slice := allocator.slice (s'.GetElementNumber (p + shared.object))
        some ({ h with allocator },
          if slice.last ≤ allocator.room type then .constructing p slice slice.first else .faulted p)
  | .constructing p slice ptr =>
    if ptr < slice.last then
      if throws then some (h, h.allocator.destructed p ⟨slice.first, ptr⟩ .threw)
      else some ({ h with events := h.events ++ [.constructed ptr] }, .constructing p slice (ptr + 1))
    else some (h, .holding p slice)
  | .holding p made => some (h, h.allocator.destructed p made .released)
  | .destroying p made slice ptr outcome =>
    if ptr < slice.last then
      some ({ h with events := h.events ++ [.destroyed ptr] },
        .destroying p made slice (ptr + 1) outcome)
    else some (h, .accepting p outcome)
  | .accepting p outcome =>
    some ({ h with allocator.state := h.allocator.state.map (·.Accept p) }, .returned outcome)
  | .returned _ => none
  | .faulted _  => none

def program (shared : SharedT) (type : ElementType) : Program Heap Call Bool where
  starts := (· = .entered)
  step   := Call.step shared type

abbrev Config := Program.Config Heap Call

def system (shared : SharedT) (type : ElementType) (a : SharedPointerArrayAllocator) :=
  (program shared type).system (· = ⟨a, []⟩)

end SharedPointerArrayAllocator
end MempoolHeap
