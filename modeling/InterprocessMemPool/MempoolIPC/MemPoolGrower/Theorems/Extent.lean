import InterprocessMemPool.MempoolIPC.MemPoolGrower.Theorems.Generations
import InterprocessMemPool.MempoolIPC.Pool.Theorems.Sizing

theorem RawMemoryIPC.Apart.symm {b b' : RawMemoryIPC} (h : b.Apart b') : b'.Apart b :=
  fun x hx y hy => (h y hy x hx).symm

-- The bytes are in the buffer.
def RawMemoryIPC.Covers (b : RawMemoryIPC) (bytes : Set ℕ) : Prop :=
  ∃ x ∈ b.raw, bytes ⊆ Set.Ico x.toNat (x.toNat + b.rawSize.toNat)

theorem RawMemoryIPC.Apart.disjoint {b b' : RawMemoryIPC} {bytes bytes' : Set ℕ} (h : b.Apart b')
    (hb : b.Covers bytes) (hb' : b'.Covers bytes') : Disjoint bytes bytes' := by
  have ⟨x, hx, hsub⟩ := hb
  have ⟨y, hy, hsub'⟩ := hb'
  refine Set.disjoint_of_subset hsub hsub' ?_
  rw [Set.Ico_disjoint_Ico]
  have := h x hx y hy
  omega

namespace IPC

-- The bytes of blocks of a size that are at the given positions.
def spans (size : ℕ) (xs : List SizeT) : List (Set ℕ) :=
  xs.map fun x => Set.Ico x.toNat (x.toNat + size)

namespace AllocatorState

variable {segment : ℕ} {objects pointers : SegmentManager segment} {n count size align x y : SizeT}
variable {s : AllocatorState} {xs : List SizeT}

theorem Laid.toNat_of_mem_blocks (h : Laid segment s) (hs : segment < 2 ^ 64)
    (hx : x - s.objects_alignedPtr ∈ s.blocks) :
    x.toNat = s.objects_alignedPtr.toNat + (x - s.objects_alignedPtr).toNat := by
  have := h.block_le hx
  have := h.block_pos
  have := h.inside
  conv_lhs => rw [← UInt64.sub_add_cancel x s.objects_alignedPtr, UInt64.add_comm, UInt64.toNat_add]
  exact Nat.mod_eq_of_lt (by omega)

theorem Laid.pairwise_spans (h : Laid segment s) (hs : segment < 2 ^ 64)
    (hx : ∀ x ∈ xs, x - s.objects_alignedPtr ∈ s.blocks) (hn : (xs.map (· - s.objects_alignedPtr)).Nodup) :
    (spans (s.sizeSharedT.toNat * s.countPerElement.toNat) xs).Pairwise Disjoint := by
  rw [spans, List.pairwise_map]
  refine (List.pairwise_map.mp hn).imp_of_mem fun {x y} hmx hmy hne => ?_
  have := h.disjoint (hx x hmx) (hx y hmy) hne
  rw [Set.Ico_disjoint_Ico, h.toNat_of_mem_blocks hs (hx x hmx), h.toNat_of_mem_blocks hs (hx y hmy)]
  omega

-- A pool that has blocks has been set up in its buffer.
theorem buffer_of_allocate (hn : size.toNat * (n.toNat * count.toNat) < 2 ^ 64)
    (h : (new n count).Allocate objects pointers size align = .ok s) :
    s.objectsBuffer.rawSize.toNat = size.toNat * (n.toNat * count.toNat) ∧
    (0 < s.objectsBuffer.rawSize.toNat → s.objects_alignedPtr ∈ s.objectsBuffer.raw) := by
  have ho := obtains_of_allocate rfl h
  refine ⟨by rw [ho.rawSize_objects, Nat.mod_eq_of_lt hn], fun hp => ?_⟩
  have ⟨x, hx⟩ := ho.raw hp
  have ⟨_, _, _, he⟩ := eq_of_allocate rfl h
  rw [he] at hx ⊢
  exact hx.trans <| congrArg some (congrArg (·.getD 0) hx).symm

-- The blocks of a pool that are lent do not overlap, and they are inside of its buffer.
theorem spans_of_sound {a : AllocatorState} (out : List SizeT) (hc : 0 < count) (hs : 0 < size)
    (hn : size.toNat * (n.toNat * count.toNat) < 2 ^ 64) (hseg : segment < 2 ^ 64)
    (ha : (new n count).Allocate objects pointers size align = .ok s)
    (h : s.Sound ⟨a, out ++ xs.map (· - s.objects_alignedPtr)⟩) :
    (spans (size.toNat * count.toNat) xs).Pairwise Disjoint ∧
    ∀ bytes ∈ spans (size.toNat * count.toNat) xs, s.objectsBuffer.Covers bytes := by
  have ⟨hl, he, hcount, hsize, _, _⟩ := laid hc hs hn ha
  have ⟨hraw, hbuf⟩ := buffer_of_allocate hn ha
  have hx : ∀ x ∈ xs, x - s.objects_alignedPtr ∈ s.blocks := fun x hx =>
    h.list.mem_of_mem_out <| List.mem_append_right _ <| List.mem_map_of_mem hx
  have hnd : (xs.map (· - s.objects_alignedPtr)).Nodup :=
    (h.list.nodup hl.blocks_nodup).sublist <|
      (List.sublist_append_right ..).trans (List.sublist_append_right ..)
  constructor
  · rw [← hsize, ← hcount]
    exact hl.pairwise_spans hseg hx hnd
  · intro bytes hb
    obtain ⟨x, hm, rfl⟩ := List.mem_map.mp hb
    have hle := hl.block_le (hx x hm)
    have hpos := hl.block_pos
    have heq := hl.toNat_of_mem_blocks hseg (hx x hm)
    rw [hsize, hcount, he, Nat.mul_assoc _ _ n.toNat, Nat.mul_comm count.toNat, ← hraw] at hle
    rw [hsize, hcount] at hpos
    refine ⟨_, hbuf (by omega), Set.Ico_subset_Ico (by omega) (by omega)⟩

end AllocatorState

theorem MemPoolIPC.lent_sub {p : MemPoolIPC} (f : Element → SizeT) (x : SizeT) :
    p.lent (f · - x) = (p.lent f).map (· - x) := by
  rw [lent, lent, List.map_filterMap]
  congr
  funext el
  by_cases hp : el.phase = .owned <;> simp [hp]

-- The bytes of the elements of a generation that have not been returned.
def Generation.bytes (layout : Layout) (count : SizeT) (gen : Generation) : List (Set ℕ) :=
  spans (layout.sizeT.toNat * count.toNat) (gen.pool.lent (·.object)) ++
    spans layout.sizeControl.toNat (gen.pool.lent (·.control))

namespace Generation.Sound

open MemPoolIPC

variable {segment : ℕ} {layout : Layout} {count : SizeT} {current : Bool} {hand : List SizeT}
variable {gen : Generation}

theorem lent_eq_nil {f : Element → SizeT} (h : gen.Sound segment layout count current hand)
    (hs : ¬segment < 2 ^ 64) : gen.pool.lent f = [] := by
  rw [MemPoolIPC.lent, not_not.mp (mt h.mapped hs), List.filterMap_nil]

-- What elements take is in the buffers of their generation.
theorem bytes (h : gen.Sound segment layout count current hand) (hT : 0 < layout.sizeT)
    (hControl : 0 < layout.sizeControl) (hc : 0 < count) (hp : gen.pool.buffers.Pairwise (·.Apart ·)) :
    (gen.bytes layout count).Pairwise Disjoint ∧
    ∀ bytes ∈ gen.bytes layout count, ∃ b ∈ gen.pool.buffers, b.Covers bytes := by
  by_cases hseg : segment < 2 ^ 64
  case neg => simp [Generation.bytes, h.lent_eq_nil hseg, spans]
  case pos =>
    have ⟨memory, p, hn, hl⟩ := h.lent
    have ⟨hcontrols, hobjects, _⟩ := new_eq_ok hn
    have hso := hl.objects
    have hsc := hl.controls
    rw [lent_sub] at hso hsc
    have ⟨h₁, h₂⟩ := AllocatorState.spans_of_sound _ hc hT h.fits.left hseg hobjects hso
    have ⟨h₃, h₄⟩ := AllocatorState.spans_of_sound [] Nat.one_pos hControl
      (by simpa using h.fits.right.left) hseg hcontrols hsc
    simp only [UInt64.toNat_one, Nat.mul_one] at h₃ h₄
    rw [hl.buffers_eq] at hp ⊢
    constructor
    · refine List.pairwise_append.mpr ⟨h₁, h₃, fun bytes hb bytes' hb' => ?_⟩
      simp only [List.pairwise_cons, List.mem_cons, forall_eq_or_imp] at hp
      exact (hp.left.right.left.disjoint (h₄ bytes' hb') (h₂ bytes hb)).symm
    · intro bytes hb
      obtain hb | hb := List.mem_append.mp hb
      · exact ⟨_, by simp, h₂ bytes hb⟩
      · exact ⟨_, by simp, h₄ bytes hb⟩

end Generation.Sound
end IPC
