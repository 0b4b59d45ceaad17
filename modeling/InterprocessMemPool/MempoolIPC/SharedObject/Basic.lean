import InterprocessMemPool.Concurrency.System
import InterprocessMemPool.Machine

namespace UtilsIPC

-- What the segment has under the three names of a shared object. The object itself is represented by
-- the number of objects that have been constructed under its name before it.
structure SharedObject where
  mutex       : Option Unit
  counter     : Option SizeT
  object      : Option ℕ
  constructed : ℕ

-- What happens if the object has to be constructed.
inductive Construction
  | succeeds
  | noMemory
  | throws
  | throwsOther
  deriving DecidableEq

-- What leaves a constructor that throws: a `std::exception`, or something else.
inductive Thrown
  | exception
  | other

-- Whether the segment has memory left for the mutex and for the counter.
structure Fits where
  mutex   : Bool := true
  counter : Bool := true
  deriving DecidableEq

structure Request where
  nProcessMax  : SizeT
  construction : Construction := .succeeds
  fits         : Fits := {}

structure SharedPtr where
  get     : Option ℕ
  deleter : Bool
  deriving DecidableEq

def SharedPtr.nullptr : SharedPtr where
  get     := none
  deleter := false

def find_or_construct {α : Type*} (found : Option α) (fits : Bool) (value : α) : Option α :=
  found.or <| if fits then some value else none

namespace SharedObject

-- With `std::nothrow`, the object is `nullptr` if there is no memory for it.
def find_or_construct_object (s : SharedObject) (c : Construction) :
    Except Thrown (SharedObject × Option ℕ) :=
  match s.object, c with
  | some k, _            => .ok (s, some k)
  | none, .succeeds      =>
    .ok ({ s with object := some s.constructed, constructed := s.constructed + 1 },
      some s.constructed)
  | none, .noMemory      => .ok (s, none)
  | none, .throws        => .error .exception
  | none, .throwsOther   => .error .other

-- Runs under the mutex, that is, in a single step. There is no result if what the constructor has
-- thrown is not caught. A call without a segment returns `nullptr` and is left out.
def find_or_create_shared_object (x : Request) (s : SharedObject) : SharedObject × Option SharedPtr :=
  let s := { s with mutex := find_or_construct s.mutex x.fits.mutex () }
  if s.mutex = none then (s, some .nullptr) else
  let s := { s with counter := find_or_construct s.counter x.fits.counter 0 }
  match s.counter with
  | none         => (s, some .nullptr)
  | some counter =>
    if x.nProcessMax ≤ counter then (s, some .nullptr) else
    match s.find_or_construct_object x.construction with
    | .ok (s, objectPtr)   =>
      ({ s with counter := some (counter + 1) }, some { get := objectPtr, deleter := true })
    | .error .exception    => (s, some { get := none, deleter := true })
    | .error .other        => (s, none)

-- The destructor of an object is run after the object has been removed from the segment, so that it
-- makes no difference whether it throws.
def destroy_shared_object (fits : Fits) (s : SharedObject) : SharedObject :=
  let s := { s with mutex := find_or_construct s.mutex fits.mutex () }
  if s.mutex = none then s else
  let s := { s with counter := find_or_construct s.counter fits.counter 0 }
  match s.counter with
  | none            => s
  | some counterOld =>
    let s := { s with counter := some (if 0 < counterOld then counterOld - 1 else counterOld) }
    if counterOld = 1 then { s with object := none } else s

-- The constructor throws if it is called for the request.
def throws (s : SharedObject) (x : Request) : Bool :=
  s.object = none ∧ x.construction = .throws

end SharedObject

-- A pointer that a process has not released yet. `threw` is set if the constructor has thrown in the
-- call that returned it.
structure Handle where
  ptr   : SharedPtr
  threw : Bool
  deriving DecidableEq

-- The pointers of all processes.
structure Processes where
  segment : SharedObject
  held    : List Handle

-- A release of the last copy of a pointer in its process.
inductive Action
  | call (x : Request)
  | release (i : ℕ) (fits : Fits)

namespace Processes

def call (w : Processes) (x : Request) : Processes :=
  let (s, ptr) := w.segment.find_or_create_shared_object x
  { segment := s, held := w.held ++ ptr.toList.map (⟨·, w.segment.throws x⟩) }

-- A `std::shared_ptr` runs its deleter even if it is null.
def release (w : Processes) (i : ℕ) (h : Handle) (fits : Fits) : Processes where
  segment := if h.ptr.deleter then w.segment.destroy_shared_object fits else w.segment
  held    := w.held.eraseIdx i

def next (w : Processes) : Action → Option Processes
  | .call x         => some (w.call x)
  | .release i fits => w.held[i]?.map (w.release i · fits)

-- No process has a pointer, and the object does not exist.
def Initial (w : Processes) : Prop :=
  w.held = [] ∧ w.segment.object = none ∧ w.segment.counter.getD 0 = 0

def system : System Processes Action :=
  .ofNext Initial next

end Processes
end UtilsIPC
