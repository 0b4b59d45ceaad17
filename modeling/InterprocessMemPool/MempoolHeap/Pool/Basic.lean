import InterprocessMemPool.Machine

namespace MempoolHeap

-- Bytes on the heap. There are no objects of more than `PTRDIFF_MAX` bytes.
structure Region (nBytes : SizeT) where
  address : Address
  pos     : 0 < address.toNat
  fits    : address.toNat + nBytes.toNat ≤ 2 ^ 64
  small   : nBytes.toNat < 2 ^ 63

-- The answer of the allocator to a call of `allocate`. It throws `std::bad_alloc` if there is none.
abbrev Allocator := (nBytes : SizeT) → Option (Region nBytes)

-- An allocator that has its free memory at the given address.
def Allocator.freeAt (address nFree : SizeT) (pos : 0 < address.toNat)
    (fits : address.toNat + nFree.toNat ≤ 2 ^ 64) (small : nFree.toNat < 2 ^ 63) : Allocator :=
  fun nBytes =>
    if hn : nBytes ≤ nFree then
      have hn := UInt64.le_iff_toNat_le.mp hn
      some ⟨address, pos, Nat.le_trans (Nat.add_le_add_left hn _) fits, Nat.lt_of_le_of_lt hn small⟩
    else none

-- `std::align`, which returns what it changes `ptr` and `space` to.
def align (alignment size : SizeT) (ptr : Address) (space : SizeT) : Option (Address × SizeT) :=
  let padding := (alignment.toNat - ptr.toNat % alignment.toNat) % alignment.toNat
  if size.toNat + padding ≤ space.toNat then
    some (ptr + UInt64.ofNat padding, space - UInt64.ofNat padding)
  else none

structure RawMemory where
  raw            : Address
  rawSize        : SizeT
  nElementsTotal : SizeT
  rawAligned     : Address

namespace RawMemory

def new (nElementsTotal_in : SizeT) : RawMemory where
  raw            := 0
  rawSize        := 0
  nElementsTotal := nElementsTotal_in
  rawAligned     := 0

-- `alignof(std::max_align_t)` is 16. What is returned next to the changed memory is `nullptr` if there
-- is none.
def Allocate (b : RawMemory) (allocator : Allocator) (sizeT alignT : SizeT) : RawMemory × Address :=
  let nBytesTotal := sizeT * b.nElementsTotal + 16
  let raw := (allocator nBytesTotal).elim b.raw Region.address
  if raw = 0 then ({ b with rawSize := 0 }, 0) else
  let b := { b with raw, rawSize := nBytesTotal }
  match align alignT (b.nElementsTotal * sizeT) raw nBytesTotal with
  | none                                     => ({ b with rawAligned := 0 }, 0)
  | some (rawAligned, rawSizeAfterAlignment) =>
    let b := { b with rawAligned }
    if rawSizeAfterAlignment < sizeT * b.nElementsTotal then (b, 0) else (b, rawAligned)

-- The bytes from `rawAligned` to the end of the memory.
def room (b : RawMemory) : ℕ :=
  b.raw.toNat + b.rawSize.toNat - b.rawAligned.toNat

end RawMemory

structure AllocatorState where
  memoryRaw              : RawMemory
  memoryPtrsToRaw        : RawMemory
  rawAligned             : Address
  ptrsAligned            : List Address
  nElementsTotal         : SizeT
  nAvailable             : SizeT
  historic_min_available : SizeT
  initialized            : Bool
  sizeSharedT            : SizeT
  alignSharedT           : SizeT

namespace AllocatorState

def new (nElements_in : SizeT) : AllocatorState where
  memoryRaw              := .new nElements_in
  memoryPtrsToRaw        := .new nElements_in
  rawAligned             := 0
  ptrsAligned            := []
  nElementsTotal         := nElements_in
  nAvailable             := nElements_in
  historic_min_available := nElements_in
  initialized            := false
  sizeSharedT            := 0
  alignSharedT           := 0

-- How far behind `rawAligned` the loop places the pointer with the given index.
def offset (s : AllocatorState) (i : ℕ) : SizeT :=
  s.sizeSharedT * UInt64.ofNat i

-- `sizeof(uint8_t*)` and `alignof(uint8_t*)` are 8. The loop computes the pointers as addresses that wrap
-- around, and `ptrsAligned` is what it writes, also if that is past the end of the memory it has for them.
def Allocate (s : AllocatorState) (objects pointers : Allocator)
    (sizeSharedT_in alignSharedT_in : SizeT) : AllocatorState :=
  if s.initialized then s else
  let s := { s with sizeSharedT := sizeSharedT_in, alignSharedT := alignSharedT_in }
  let (memoryRaw, rawAligned) := s.memoryRaw.Allocate objects sizeSharedT_in alignSharedT_in
  let (memoryPtrsToRaw, ptrsAligned) := s.memoryPtrsToRaw.Allocate pointers 8 8
  let s := { s with memoryRaw, memoryPtrsToRaw, rawAligned }
  if rawAligned ≠ 0 ∧ ptrsAligned ≠ 0 then
    { s with
      ptrsAligned := (List.range s.nElementsTotal.toNat).map fun i => rawAligned + s.offset i
      initialized := true }
  else { s with nAvailable := 0, initialized := false }

-- Pointers that have no value in the array are not read by a pool that has been set up.
def Loan (s : AllocatorState) : Except Fault (Address × AllocatorState) :=
  if 0 < s.nAvailable then
    let nAvailable := s.nAvailable - 1
    .ok (s.ptrsAligned[nAvailable.toNat]?.getD 0,
      { s with nAvailable, historic_min_available := min s.historic_min_available nAvailable })
  else .error .bad_alloc

def GetElementNumber (s : AllocatorState) (ptr : Address) : SizeT :=
  (ptr - s.rawAligned) / s.sizeSharedT

-- What `Accept` does before it takes its guard. There is no result if it returns right away, and else
-- it is what the destructor callback is called with. The callback does not change the pool.
def destructed (s : AllocatorState) (p : Address) : Option SizeT :=
  if p = 0 then none else some (s.GetElementNumber p)

-- What `Accept` does behind its guard.
def Accept (s : AllocatorState) (p : Address) : AllocatorState :=
  { s with
    ptrsAligned := s.ptrsAligned.set s.nAvailable.toNat p
    nAvailable  := s.nAvailable + 1 }

structure Statistics where
  nOutstanding           : SizeT
  nAvailable             : SizeT
  historic_min_available : SizeT

def statistics (s : AllocatorState) : Statistics where
  nOutstanding           := s.nElementsTotal - s.nAvailable
  nAvailable             := s.nAvailable
  historic_min_available := s.historic_min_available

end AllocatorState
end MempoolHeap
