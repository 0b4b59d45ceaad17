import InterprocessMemPool.Machine

-- Bytes of a segment of the given size. An `offset_ptr` into the segment is a position in it, as this
-- is what it denotes in every process that has mapped the segment.
structure Extent (segment : ℕ) (nBytes : SizeT) where
  position : SizeT
  inside   : position.toNat + nBytes.toNat ≤ segment

-- The answer of the segment manager to a call of `allocate_aligned`.
abbrev SegmentManager (segment : ℕ) :=
  (nBytes alignT : SizeT) → Option (Extent segment nBytes)

-- A segment manager that has its free memory at the given position.
def SegmentManager.freeAt {segment : ℕ} (position nFree : SizeT)
    (h : position.toNat + nFree.toNat ≤ segment) : SegmentManager segment := fun nBytes _ =>
  if hn : nBytes ≤ nFree then
    some ⟨position, Nat.le_trans (Nat.add_le_add_left (UInt64.le_iff_toNat_le.mp hn) _) h⟩
  else none

-- Where a process has mapped the segment. No mapping covers `nullptr`.
structure Mapping (segment : ℕ) where
  base : Address
  pos  : 0 < base.toNat
  fits : base.toNat + segment ≤ 2 ^ 64

namespace Mapping

variable {segment : ℕ} {m : Mapping segment} {position : SizeT}

def address (m : Mapping segment) (position : SizeT) : Address :=
  m.base + position

theorem address_toNat (h : position.toNat < segment) :
    (m.address position).toNat = m.base.toNat + position.toNat := by
  have := m.fits
  rw [address, UInt64.toNat_add, Nat.mod_eq_of_lt (by omega)]

theorem address_ne_zero (h : position.toNat < segment) : m.address position ≠ 0 := by
  have := m.pos
  intro he
  have := congrArg UInt64.toNat he
  rw [address_toNat h, UInt64.toNat_zero] at this
  omega

end Mapping

structure RawMemoryIPC where
  raw            : Option SizeT
  rawSize        : SizeT
  nElementsTotal : SizeT

namespace RawMemoryIPC

def new (nElementsTotal_in : SizeT) : RawMemoryIPC where
  raw            := none
  rawSize        := 0
  nElementsTotal := nElementsTotal_in

def Allocate {segment : ℕ} (b : RawMemoryIPC) (allocator : SegmentManager segment)
    (sizeT alignT : SizeT) : Except Fault RawMemoryIPC :=
  let nBytesTotal := sizeT * b.nElementsTotal
  match allocator nBytesTotal alignT with
  | none   => if 0 < nBytesTotal then .error .bad_alloc else .ok { b with raw := none, rawSize := 0 }
  | some e => .ok { b with raw := some e.position, rawSize := nBytesTotal }

end RawMemoryIPC

namespace IPC

structure AllocatorState where
  objectsBuffer       : RawMemoryIPC
  pointersBuffer      : RawMemoryIPC
  objects_alignedPtr  : SizeT
  pointers_alignedPtr : List SizeT
  nElementsTotal      : SizeT
  nAvailable          : SizeT
  initialized         : Bool
  sizeSharedT         : SizeT
  alignSharedT        : SizeT
  countPerElement     : SizeT

namespace AllocatorState

def new (nElements_in countPerElement_in : SizeT) : AllocatorState where
  objectsBuffer       := .new (nElements_in * countPerElement_in)
  pointersBuffer      := .new nElements_in
  objects_alignedPtr  := 0
  pointers_alignedPtr := []
  nElementsTotal      := nElements_in
  nAvailable          := nElements_in
  initialized         := false
  sizeSharedT         := 0
  alignSharedT        := 0
  countPerElement     := countPerElement_in

-- What the loop writes to the pointer at the given index.
def offset (s : AllocatorState) (i : ℕ) : SizeT :=
  s.sizeSharedT * s.countPerElement * UInt64.ofNat i

-- `sizeof(uintptr_t)` and `alignof(uintptr_t)` are 8. There is no telling what happens if there are
-- more pointers to be written than the buffer has room for.
def Allocate {segment : ℕ} (s : AllocatorState) (objects pointers : SegmentManager segment)
    (sizeSharedT_in alignSharedT_in : SizeT) : Except Fault AllocatorState :=
  if s.initialized then .ok s else do
    let s := { s with sizeSharedT := sizeSharedT_in, alignSharedT := alignSharedT_in }
    let objectsBuffer ← s.objectsBuffer.Allocate objects sizeSharedT_in alignSharedT_in
    let pointersBuffer ← s.pointersBuffer.Allocate pointers 8 8
    if pointersBuffer.rawSize.toNat < 8 * s.nElementsTotal.toNat then .error .undefinedBehavior else
    return { s with
      objectsBuffer
      pointersBuffer
      objects_alignedPtr  := objectsBuffer.raw.getD 0
      pointers_alignedPtr := (List.range s.nElementsTotal.toNat).map s.offset
      initialized         := true }

-- Pointers that have no value in the array are not read by a pool that has been set up.
def Loan {segment : ℕ} (s : AllocatorState) (m : Mapping segment) :
    Option Address × AllocatorState :=
  if 0 < s.nAvailable ∧ 0 < s.countPerElement then
    let nAvailable := s.nAvailable - 1
    (some (m.address s.objects_alignedPtr + s.pointers_alignedPtr[nAvailable.toNat]?.getD 0),
      { s with nAvailable })
  else (none, s)

def Accept {segment : ℕ} (s : AllocatorState) (m : Mapping segment) (p : Address) :
    AllocatorState :=
  if p = 0 then s else
    { s with
      pointers_alignedPtr :=
        s.pointers_alignedPtr.set s.nAvailable.toNat (p - m.address s.objects_alignedPtr)
      nAvailable := s.nAvailable + 1 }

structure Statistics where
  nOutstanding : SizeT
  nAvailable   : SizeT

def statistics (s : AllocatorState) : Statistics where
  nOutstanding := s.nElementsTotal - s.nAvailable
  nAvailable   := s.nAvailable

end AllocatorState
end IPC
