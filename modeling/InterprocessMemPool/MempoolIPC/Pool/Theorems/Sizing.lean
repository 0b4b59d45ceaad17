import InterprocessMemPool.MempoolIPC.Pool.Theorems.Partition

theorem RawMemoryIPC.rawSize_of_allocate {segment : ℕ} {b b' : RawMemoryIPC} {allocator : SegmentManager segment}
    {size align : SizeT} (h : b.Allocate allocator size align = .ok b') (hr : b'.raw = none) :
    b'.rawSize.toNat = 0 := by
  simp only [RawMemoryIPC.Allocate] at h
  split at h
  case h_2 => cases Except.ok.inj h ▸ hr
  case h_1 =>
    split at h
    case isTrue  => cases h
    case isFalse => rw [← Except.ok.inj h, UInt64.toNat_zero]

namespace IPC.AllocatorState

variable {segment : ℕ} {objects pointers : SegmentManager segment} {n count size align : SizeT}
variable {s s' : AllocatorState} {b b' : RawMemoryIPC}

-- Neither of the two requests that `Allocate` makes throws, and this is what they get.
structure Obtains (s : AllocatorState) (objects pointers : SegmentManager segment) (size align : SizeT)
    (b b' : RawMemoryIPC) : Prop where
  objects  : s.objectsBuffer.Allocate objects size align = .ok b
  pointers : s.pointersBuffer.Allocate pointers 8 8 = .ok b'

theorem obtains_of_allocate (hi : s.initialized = false)
    (h : s.Allocate objects pointers size align = .ok s') :
    s.Obtains objects pointers size align s'.objectsBuffer s'.pointersBuffer := by
  rw [Allocate, hi, if_neg Bool.false_ne_true] at h
  cases h₁ : s.objectsBuffer.Allocate objects size align
  case error => simp [h₁, bind, Except.bind] at h
  case ok b =>
    cases h₂ : s.pointersBuffer.Allocate pointers 8 8
    case error => simp [h₁, h₂, bind, Except.bind] at h
    case ok b' =>
      simp only [h₁, h₂, bind, Except.bind] at h
      split at h
      case isTrue  => cases h
      case isFalse =>
        obtain rfl := Except.ok.inj h
        exact ⟨h₁, h₂⟩

-- Without wrapping around, each block is in the buffer, and so are the pointers to all of them.
structure Sized (n count size : SizeT) (b b' : RawMemoryIPC) : Prop where
  objects  : ∀ i < n.toNat, ∃ x ∈ b.raw,
    x.toNat + size.toNat * count.toNat * i + size.toNat * count.toNat ≤ x.toNat + b.rawSize.toNat
  pointers : 8 * n.toNat ≤ b'.rawSize.toNat

namespace Obtains

theorem rawSize_objects (h : (new n count).Obtains objects pointers size align b b') :
    b.rawSize.toNat = size.toNat * (n.toNat * count.toNat) % 2 ^ 64 := by
  rw [(rawMemory_of_allocate h.objects).left]
  simp only [new, RawMemoryIPC.new, UInt64.toNat_mul, Nat.mul_mod_mod]

theorem rawSize_pointers (h : (new n count).Obtains objects pointers size align b b') :
    b'.rawSize.toNat = 8 * n.toNat % 2 ^ 64 := by
  rw [(rawMemory_of_allocate h.pointers).left]
  exact UInt64.toNat_mul ..

theorem raw (h : s.Obtains objects pointers size align b b') (hp : 0 < b.rawSize.toNat) :
    ∃ x, b.raw = some x := by
  cases hr : b.raw
  case none   => exact (hp.ne' (RawMemoryIPC.rawSize_of_allocate h.objects hr)).elim
  case some x => exact ⟨x, rfl⟩

theorem sized (hc : 0 < count) (hs : 0 < size)
    (h : (new n count).Obtains objects pointers size align b b')
    (hobjects : size.toNat * (n.toNat * count.toNat) < 2 ^ 64) (hpointers : 8 * n.toNat < 2 ^ 64) :
    Sized n count size b b' := by
  have hr := h.rawSize_objects
  have hr' := h.rawSize_pointers
  rw [Nat.mod_eq_of_lt hobjects, Nat.mul_left_comm, Nat.mul_comm] at hr
  rw [Nat.mod_eq_of_lt hpointers] at hr'
  refine ⟨fun i hi => ?_, hr'.ge⟩
  have hpos := Nat.mul_pos (SizeT.toNat_pos_iff.mpr hs) (SizeT.toNat_pos_iff.mpr hc)
  -- The end of a block is the start of the next one, and the end of the last one is that of the buffer.
  have hle := Nat.mul_le_mul_left (size.toNat * count.toNat) (show i + 1 ≤ n.toNat from hi)
  rw [Nat.mul_succ] at hle
  have ⟨x, hx⟩ := h.raw (by omega)
  exact ⟨x, hx, by omega⟩

end Obtains

theorem Sized.fits (h : Sized n count size b b') :
    size.toNat * (n.toNat * count.toNat) < 2 ^ 64 ∧ 8 * n.toNat < 2 ^ 64 := by
  refine ⟨?_, h.pointers.trans_lt b'.rawSize.toNat_lt⟩
  cases hn : n.toNat
  case zero   => simp
  case succ i =>
    have ⟨x, _, hle⟩ := h.objects i (by omega)
    have := b.rawSize.toNat_lt
    rw [Nat.mul_left_comm, Nat.mul_comm, Nat.mul_succ]
    omega

-- A pool has room for its blocks and their pointers just if the sizes of both do not wrap around. Else
-- the requests are for less memory than there are blocks, and nothing tells.
theorem sized_iff (hc : 0 < count) (hs : 0 < size)
    (h : (new n count).Obtains objects pointers size align b b') :
    Sized n count size b b' ↔ size.toNat * (n.toNat * count.toNat) < 2 ^ 64 ∧ 8 * n.toNat < 2 ^ 64 :=
  ⟨Sized.fits, fun ⟨hobjects, hpointers⟩ => h.sized hc hs hobjects hpointers⟩

def segmentManager : SegmentManager 4096 :=
  .freeAt 64 1024 (by decide)

theorem sized_three : ∃ b b', (new 3 2).Obtains segmentManager segmentManager 8 16 b b' ∧
    Sized 3 2 8 b b' := by
  have ho : (new 3 2).Obtains segmentManager segmentManager 8 16 _ _ := ⟨rfl, rfl⟩
  exact ⟨_, _, ho, (sized_iff (by decide) (by decide) ho).mpr (by decide)⟩

-- Two blocks of 2⁶¹ times 8 bytes take 2⁶⁵ bytes, for which 0 bytes are requested.
theorem not_sized : ∃ s, (new 2 (2 ^ 61)).Allocate segmentManager segmentManager 8 8 = .ok s ∧
    ¬Sized 2 (2 ^ 61) 8 s.objectsBuffer s.pointersBuffer := by
  have hok : ((new 2 (2 ^ 61)).Allocate segmentManager segmentManager 8 8).toOption.isSome := by
    decide +kernel
  cases h : (new 2 (2 ^ 61)).Allocate segmentManager segmentManager 8 8
  case error => simp [h, Except.toOption] at hok
  case ok s  => exact ⟨s, rfl, fun hs => absurd hs.fits.left (by decide +kernel)⟩

end IPC.AllocatorState
