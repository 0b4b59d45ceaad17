import InterprocessMemPool.Concurrency.Calls
import InterprocessMemPool.MempoolIPC.SharedObject.Basic

namespace UtilsIPC

-- The character that ends a string in C.
def nul : Char :=
  Char.ofNat 0

-- What the functions of Boost get of a text.
def c_str (text : Text) : Text :=
  text.takeWhile (· ≠ nul)

-- A name that a user has given to a mapping or an object. A name with a null character is left out, as
-- then the internal names would be cut off in front of their ends.
structure Name where
  text  : Text
  valid : nul ∉ text
  deriving DecidableEq

def GetObjectMutexName (name : Text) : Text :=
  "__".toList ++ name ++ "_object_mutex__".toList

def GetObjectCounterName (name : Text) : Text :=
  "__".toList ++ name ++ "_object_couter__".toList

def GetObjectName (name : Text) : Text :=
  "__".toList ++ name ++ "_object__".toList

def GetMappingMutexName (name : Text) : Text :=
  "__".toList ++ name ++ "_mapping_mutex__".toList

def GetMappingCounterName (name : Text) : Text :=
  "__".toList ++ name ++ "_mapping_count__".toList

def GetMappingName (name : Text) : Text :=
  "__".toList ++ name ++ "_mapping__".toList

-- What a segment has under a name. An object is represented by the number of objects that have been
-- constructed under its name before it.
inductive Entry
  | mutex
  | counter (n : SizeT)
  | object (k : ℕ)
  deriving DecidableEq

namespace Entry

def mutex? : Entry → Option Unit
  | .mutex => some ()
  | _      => none

def counter? : Entry → Option SizeT
  | .counter n => some n
  | _          => none

def object? : Entry → Option ℕ
  | .object k => some k
  | _         => none

end Entry

-- `mapped` is the name under which the segment has been created.
structure Segment where
  mapped      : Name
  named       : Text → Option Entry
  constructed : Text → ℕ

-- The mutex and the counter of a mapping.
structure SharedMapping where
  mutex   : Option Unit
  counter : Option SizeT

namespace SharedMapping

-- The end of `open_or_create_mapping`, and whether it returns the pointer.
def increment (fits : Fits) (s : SharedMapping) : SharedMapping × Bool :=
  let s := { s with mutex := find_or_construct s.mutex fits.mutex () }
  if s.mutex = none then (s, false) else
  let s := { s with counter := find_or_construct s.counter fits.counter 0 }
  match s.counter with
  | none         => (s, false)
  | some counter => ({ s with counter := some (counter + 1) }, true)

-- The result is `shouldRemove`.
def remove_mapping (fits : Fits) (s : SharedMapping) : SharedMapping × Bool :=
  let s := { s with mutex := find_or_construct s.mutex fits.mutex () }
  if s.mutex = none then (s, false) else
  let s := { s with counter := find_or_construct s.counter fits.counter 0 }
  match s.counter with
  | none            => (s, false)
  | some counterOld =>
    ({ s with counter := some (if 0 < counterOld then counterOld - 1 else counterOld) }, counterOld = 1)

end SharedMapping

namespace Segment

def new (name : Name) : Segment where
  mapped      := name
  named _       := none
  constructed _ := 0

def find {α : Type*} (s : Segment) (name : Text) (as : Entry → Option α) : Option α :=
  (s.named (c_str name)).bind as

-- The segment after it has been made to have `entry`, or nothing, under the name.
def write (s : Segment) (name : Text) (entry : Option Entry) : Segment :=
  { s with named := Function.update s.named (c_str name) entry }

def object (s : Segment) (name : Text) : SharedObject where
  mutex       := s.find (GetObjectMutexName name) Entry.mutex?
  counter     := s.find (GetObjectCounterName name) Entry.counter?
  object      := s.find (GetObjectName name) Entry.object?
  constructed := s.constructed (c_str (GetObjectName name))

def setObject (s : Segment) (name : Text) (o : SharedObject) : Segment :=
  let s := s.write (GetObjectMutexName name) (o.mutex.map fun _ => .mutex)
  let s := s.write (GetObjectCounterName name) (o.counter.map .counter)
  let s := s.write (GetObjectName name) (o.object.map .object)
  { s with constructed := Function.update s.constructed (c_str (GetObjectName name)) o.constructed }

def mapping (s : Segment) (name : Text) : SharedMapping where
  mutex   := s.find (GetMappingMutexName name) Entry.mutex?
  counter := s.find (GetMappingCounterName name) Entry.counter?

def setMapping (s : Segment) (name : Text) (m : SharedMapping) : Segment :=
  let s := s.write (GetMappingMutexName name) (m.mutex.map fun _ => .mutex)
  s.write (GetMappingCounterName name) (m.counter.map .counter)

end Segment

-- Whether the counter of the mapping has been incremented for the pointer, and then decremented. From then on
-- its deleter may be about to remove the mapping.
inductive MappingPtr.Phase
  | opened
  | counted
  | unlinking
  | closed
  deriving DecidableEq

-- A `std::shared_ptr` to a mapped segment that `open_or_create_mapping` has made, with all of its copies in
-- its process.
structure MappingPtr where
  name      : Name
  segment   : ℕ
  use_count : ℕ
  phase     : MappingPtr.Phase
  deriving DecidableEq

-- There is a copy of the pointer outside of `open_or_create_mapping`.
def MappingPtr.held (m : MappingPtr) : Bool :=
  0 < m.use_count ∧ m.phase ≠ .opened

-- Whether the deleter has been called, and whether it has been destroyed.
inductive ObjectPtr.Phase
  | owned
  | deleted
  | detached
  deriving DecidableEq

-- A `std::shared_ptr` to an object, with all of its copies in its process. Its deleter has a copy of the
-- pointer to the segment until it is destroyed.
structure ObjectPtr where
  segmentPtr : ℕ
  segment    : ℕ
  name       : Name
  ptr        : SharedPtr
  use_count  : ℕ
  phase      : ObjectPtr.Phase
  deriving DecidableEq

-- The shared memory objects of the operating system by their names, their contents, and the pointers of all
-- processes. A segment that has been removed is no longer found by its name.
structure Host where
  shared_memory : Text → Option ℕ
  segments      : List Segment
  mappings      : List MappingPtr
  objects       : List ObjectPtr

namespace Host

def modifySegment (h : Host) (g : ℕ) (f : Segment → Segment) : Host :=
  { h with segments := h.segments.modify g f }

def modifyMapping (h : Host) (b : ℕ) (f : MappingPtr → MappingPtr) : Host :=
  { h with mappings := h.mappings.modify b f }

def modifyObject (h : Host) (o : ℕ) (f : ObjectPtr → ObjectPtr) : Host :=
  { h with objects := h.objects.modify o f }

end Host

-- A variable of a thread, with what is called to initialize it, and with what is called when it is reset. There
-- is a copy of the pointer with the given index in `opened`, `mapping` and `object`.
inductive Variable
  | opening (name : Name)
  | opened (b : ℕ)
  | copyingMapping (b : ℕ)
  | mapping (b : ℕ)
  | removing (b : ℕ)
  | deleting (b : ℕ) (shouldRemove : Bool)
  | unlinking (b : ℕ)
  | creating (b : ℕ) (name : Name) (x : Request)
  | copyingObject (o : ℕ)
  | object (o : ℕ)
  | destroying (o : ℕ)
  | detaching (o : ℕ)
  | ended

namespace Variable

-- The release of a copy of the pointer to the segment. The last one runs the deleter.
def releaseMapping (h : Host) (b : ℕ) : Option (Host × Variable) :=
  h.mappings[b]?.bind fun m =>
    if 0 < m.use_count then
      some (h.modifyMapping b fun m => { m with use_count := m.use_count - 1 },
        if m.use_count = 1 then .removing b else .ended)
    else none

-- Locked scopes are single steps. Exceptions of `managed_shared_memory` are left out.
def step (fits : Fits) (h : Host) : Variable → Option (Host × Variable)
  | .opening name          =>
    match h.shared_memory (c_str (GetMappingName name.text)) with
    | some g => some ({ h with mappings := h.mappings ++ [⟨name, g, 1, .opened⟩] }, .opened h.mappings.length)
    | none   => some ({ h with
        shared_memory := Function.update h.shared_memory (c_str (GetMappingName name.text)) (some h.segments.length)
        segments      := h.segments ++ [.new name]
        mappings      := h.mappings ++ [⟨name, h.segments.length, 1, .opened⟩] }, .opened h.mappings.length)
  | .opened b              =>
    h.mappings[b]?.bind fun m => h.segments[m.segment]?.bind fun s =>
      let (s', returns) := (s.mapping m.name.text).increment fits
      let h := h.modifySegment m.segment (·.setMapping m.name.text s')
      if returns then some (h.modifyMapping b fun m => { m with phase := .counted }, .mapping b)
      else releaseMapping h b
  | .copyingMapping b      =>
    h.mappings[b]?.bind fun m =>
      if m.held then
        some (h.modifyMapping b fun m => { m with use_count := m.use_count + 1 }, .mapping b)
      else none
  | .mapping b             => releaseMapping h b
  | .removing b            =>
    h.mappings[b]?.bind fun m => h.segments[m.segment]?.map fun s =>
      let (s', shouldRemove) := (s.mapping m.name.text).remove_mapping fits
      let h := h.modifySegment m.segment (·.setMapping m.name.text s')
      (h.modifyMapping b fun m => { m with phase := if shouldRemove then .unlinking else .closed },
        .deleting b shouldRemove)
  | .deleting b remove     => some (h, if remove then .unlinking b else .ended)
  | .unlinking b           =>
    h.mappings[b]?.map fun m =>
      let h := h.modifyMapping b fun m => { m with phase := .closed }
      ({ h with shared_memory := Function.update h.shared_memory (c_str (GetMappingName m.name.text)) none }, .ended)
  | .creating b name x     =>
    h.mappings[b]?.bind fun m => h.segments[m.segment]?.bind fun s =>
      if m.held then
        let (s', ptr) := (s.object name.text).find_or_create_shared_object x
        let h := h.modifySegment m.segment (·.setObject name.text s')
        match ptr with
        | none     => some (h, .ended)
        | some ptr =>
          if ptr.deleter then
            let h := h.modifyMapping b fun m => { m with use_count := m.use_count + 1 }
            some ({ h with objects := h.objects ++ [⟨b, m.segment, name, ptr, 1, .owned⟩] }, .object h.objects.length)
          else some (h, .ended)
      else none
  | .copyingObject o       =>
    h.objects[o]?.bind fun p =>
      if 0 < p.use_count then
        some (h.modifyObject o fun p => { p with use_count := p.use_count + 1 }, .object o)
      else none
  | .object o              =>
    h.objects[o]?.bind fun p =>
      if 0 < p.use_count then
        some (h.modifyObject o fun p => { p with use_count := p.use_count - 1 },
          if p.use_count = 1 then .destroying o else .ended)
      else none
  | .destroying o          =>
    h.objects[o]?.bind fun p => h.segments[p.segment]?.map fun s =>
      let h := h.modifySegment p.segment (·.setObject p.name.text ((s.object p.name.text).destroy_shared_object fits))
      (h.modifyObject o fun p => { p with phase := .deleted }, .detaching o)
  | .detaching o           =>
    h.objects[o]?.bind fun p =>
      releaseMapping (h.modifyObject o fun p => { p with phase := .detached }) p.segmentPtr
  | .ended                 => none

def starts : Variable → Bool
  | .opening _ | .copyingMapping _ | .creating _ _ _ | .copyingObject _ => true
  | _                                                                   => false

end Variable

namespace Host

def program : Program Host Variable Fits where
  starts := Variable.starts
  step   := Variable.step

abbrev Config := Program.Config Host Variable

def new : Host where
  shared_memory _ := none
  segments        := []
  mappings        := []
  objects         := []

-- All runs of any number of processes on a machine that has no shared memory yet.
def system :=
  program.system (· = new)

end Host
end UtilsIPC
