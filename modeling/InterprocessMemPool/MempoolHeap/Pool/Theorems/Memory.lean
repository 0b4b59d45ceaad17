import InterprocessMemPool.MempoolHeap.Pool.Theorems.Partition

namespace MempoolHeap

variable {n size alignment space : SizeT} {ptr ptr' x : Address} {objects pointers allocator : Allocator}
variable {b : RawMemory} {s : AllocatorState} {i : ℕ}

-- What `alignof` and `sizeof` of a type are.
structure Valid (alignment size : SizeT) : Prop where
  power : ∃ k, alignment.toNat = 2 ^ k
  dvd   : alignment.toNat ∣ size.toNat

theorem Valid.pos (h : Valid alignment size) : 0 < alignment.toNat := by
  have ⟨k, hk⟩ := h.power
  exact hk ▸ Nat.two_pow_pos k

-- The bytes from `first` up to `last` belong to the memory.
def Region.Covers (r : Region n) (first last : ℕ) : Prop :=
  r.address.toNat ≤ first ∧ last ≤ r.address.toNat + n.toNat

def padding (alignment : SizeT) (ptr : Address) : ℕ :=
  (alignment.toNat - ptr.toNat % alignment.toNat) % alignment.toNat

theorem padding_lt (h : 0 < alignment.toNat) : padding alignment ptr < alignment.toNat :=
  Nat.mod_lt _ h

theorem dvd_add_padding (h : 0 < alignment.toNat) : alignment.toNat ∣ ptr.toNat + padding alignment ptr := by
  have hlt := Nat.mod_lt ptr.toNat h
  have heq : ptr.toNat + (alignment.toNat - ptr.toNat % alignment.toNat) =
      alignment.toNat * (ptr.toNat / alignment.toNat + 1) := by
    have := Nat.div_add_mod ptr.toNat alignment.toNat
    rw [Nat.mul_succ]
    omega
  rw [Nat.dvd_iff_mod_eq_zero, padding, Nat.add_mod_mod, heq, Nat.mul_mod_right]

theorem align_eq : align alignment size ptr space =
    if size.toNat + padding alignment ptr ≤ space.toNat then
      some (ptr + UInt64.ofNat (padding alignment ptr), space - UInt64.ofNat (padding alignment ptr))
    else none :=
  rfl

-- The request for `n` elements is granted, and `std::align` finds a place for them.
def Obtained (allocator : Allocator) (n size alignment : SizeT) : Prop :=
  ∃ r ∈ allocator (size * n + 16),
    ∃ p ∈ align alignment (n * size) r.address (size * n + 16), p.fst ≠ 0

-- A request that is granted is for all bytes that `std::align` needs, also if it wraps around.
def Whole (allocator : Allocator) (n size alignment : SizeT) : Prop :=
  (allocator (size * n + 16)).isSome → alignment ≤ 16 → (size * n).toNat + 16 < 2 ^ 64

instance : Decidable (Whole allocator n size alignment) :=
  inferInstanceAs (Decidable (_ → _ → _))

namespace RawMemory

theorem allocate_eq : ((new n).Allocate allocator size alignment).2 =
    (allocator (size * n + 16)).elim 0 fun r =>
      (align alignment (n * size) r.address (size * n + 16)).elim 0 Prod.fst := by
  simp only [Allocate, new]
  obtain hr | ⟨r, hr⟩ := Option.eq_none_or_eq_some (allocator (size * n + 16))
  case inl => simp [hr]
  case inr =>
    have hne : r.address ≠ 0 := fun h => by simpa [h] using r.pos
    simp only [hr, Option.elim, hne, if_false]
    obtain h | ⟨x, h⟩ := Option.eq_none_or_eq_some (align alignment (n * size) r.address (size * n + 16))
    case inl => simp only [h]
    case inr =>
      have hx : x.2.toNat ≥ (size * n).toNat := by
        rw [align_eq, Option.ite_none_right_eq_some, Option.some.injEq] at h
        obtain ⟨hle, rfl⟩ := h
        have hlt : padding alignment r.address < 2 ^ 64 := by
          have := (size * n + 16).toNat_lt
          omega
        rw [UInt64.toNat_sub_of_le]
        · have hcomm : (size * n).toNat = (n * size).toNat := by rw [UInt64.mul_comm]
          rw [UInt64.toNat_ofNat_of_lt' hlt]
          omega
        · rw [UInt64.le_iff_toNat_le, UInt64.toNat_ofNat_of_lt' hlt]
          omega
      simp only [h, UInt64.lt_iff_toNat_lt, Nat.not_lt.mpr hx, if_false]

-- `Allocate` only returns memory that it has obtained.
theorem allocate_ne_zero_iff :
    ((new n).Allocate allocator size alignment).2 ≠ 0 ↔ Obtained allocator n size alignment := by
  rw [allocate_eq, Obtained]
  obtain hr | ⟨r, hr⟩ := Option.eq_none_or_eq_some (allocator (size * n + 16))
  case inl => simp [hr]
  case inr =>
    obtain h | ⟨⟨p, m⟩, h⟩ := Option.eq_none_or_eq_some (align alignment (n * size) r.address (size * n + 16))
    all_goals simp [hr, h]

theorem region_of_allocate (ha : 0 < alignment.toNat)
    (h : (new n).Allocate allocator size alignment = (b, ptr)) (hp : ptr ≠ 0) :
    alignment.toNat ∣ ptr.toNat ∧ ∃ r ∈ allocator (size * n + 16),
      r.Covers ptr.toNat (ptr.toNat + (size * n).toNat) := by
  have heq : ((new n).Allocate allocator size alignment).2 = _ := allocate_eq
  rw [h] at heq
  cases hr : allocator (size * n + 16)
  case none   => simp [hr, hp] at heq
  case some r =>
    simp only [hr, Option.elim, align_eq] at heq
    by_cases hle : (n * size).toNat + padding alignment r.address ≤ (size * n + 16).toNat
    case neg =>
      rw [if_neg hle] at heq
      exact absurd heq hp
    case pos =>
      rw [if_pos hle] at heq
      replace heq : ptr = r.address + UInt64.ofNat (padding alignment r.address) := heq
      have hadd := r.toNat_add_padding (by omega) (heq ▸ hp)
      rw [← heq] at hadd
      rw [UInt64.mul_comm n size] at hle
      refine ⟨hadd ▸ dvd_add_padding ha, r, rfl, ?_, ?_⟩ <;> omega

end RawMemory

-- Up to `alignof(std::max_align_t)`, there is room for the alignment in all memory that is granted.
def Aligns (allocator : Allocator) (n size alignment : SizeT) : Prop :=
  (allocator (size * n + 16)).isSome → alignment ≤ 16 →
    ((RawMemory.new n).Allocate allocator size alignment).2 ≠ 0

-- The bytes that are requested on top are enough, unless there is no request on top.
theorem aligns_iff (ha : 0 < alignment.toNat) :
    Aligns allocator n size alignment ↔ Whole allocator n size alignment := by
  refine forall₂_congr fun h hle => ?_
  rw [RawMemory.allocate_ne_zero_iff]
  have ⟨r, hr⟩ := Option.isSome_iff_exists.mp h
  have hal : align alignment (n * size) r.address (size * n + 16) = _ := align_eq
  have hcomm : (n * size).toNat = (size * n).toNat := by rw [UInt64.mul_comm]
  have hadd : (size * n + 16).toNat = ((size * n).toNat + 16) % 2 ^ 64 := UInt64.toNat_add ..
  have hlt : padding alignment r.address < 16 :=
    (padding_lt ha).trans_le (UInt64.le_iff_toNat_le.mp hle)
  constructor
  · rintro ⟨r', hr', p, hp, _⟩
    obtain rfl := Option.some.inj (hr.symm.trans hr')
    rw [hal, Option.mem_def, Option.ite_none_right_eq_some] at hp
    have := hp.left
    have := (size * n).toNat_lt
    omega
  · intro hw
    have hpos := r.pos
    have hfits := r.fits
    rw [if_pos (by omega)] at hal
    refine ⟨r, hr, _, hal, fun hz => ?_⟩
    have := congrArg UInt64.toNat hz
    have hlt' : padding alignment r.address < 2 ^ 64 := by omega
    rw [UInt64.toNat_add, UInt64.toNat_ofNat_of_lt' hlt', Nat.mod_eq_of_lt (by omega),
      UInt64.toNat_zero] at this
    omega

-- Bytes of an element that are in memory for `n` elements.
structure Owned (allocator : Allocator) (n size alignment : SizeT) (first : ℕ) : Prop where
  aligned : alignment.toNat ∣ first
  inside  : ∃ r ∈ allocator (size * n + 16), r.Covers first (first + size.toNat)

theorem owned_of_allocate (hv : Valid alignment size)
    (h : (RawMemory.new n).Allocate allocator size alignment = (b, ptr)) (hp : ptr ≠ 0)
    (hw : size.toNat * n.toNat < 2 ^ 64) (hi : i < n.toNat) :
    Owned allocator n size alignment (ptr.toNat + size.toNat * i) := by
  have ⟨hdvd, r, hr, hcov⟩ := RawMemory.region_of_allocate hv.pos h hp
  have hle := Nat.mul_le_mul_left size.toNat (show i + 1 ≤ n.toNat from hi)
  rw [Nat.mul_succ] at hle
  rw [UInt64.toNat_mul, Nat.mod_eq_of_lt hw] at hcov
  refine ⟨Nat.dvd_add hdvd (Nat.dvd_mul_right_of_dvd hv.dvd i), r, hr, ?_, ?_⟩
  · exact hcov.left.trans (Nat.le_add_right ..)
  · have := hcov.right
    omega

namespace AllocatorState

-- The sizes of what is obtained do not wrap around.
structure Fits (objects pointers : Allocator) (n size alignment : SizeT) : Prop where
  blocks : Whole objects n size alignment
  table  : Whole pointers n 8 8
  both   : Obtained objects n size alignment → Obtained pointers n 8 8 → Unwrapped n size

theorem initialized_iff (h : (new n).Allocate objects pointers size alignment = s) :
    (s.initialized ↔ Obtained objects n size alignment ∧ Obtained pointers n 8 8) ∧
    (s.initialized = false → s.nAvailable = 0) := by
  rw [← RawMemory.allocate_ne_zero_iff, ← RawMemory.allocate_ne_zero_iff]
  cases h₁ : (RawMemory.new n).Allocate objects size alignment
  case mk b raw =>
  cases h₂ : (RawMemory.new n).Allocate pointers 8 8
  case mk b' table =>
  rw [Allocate, if_neg (by simp [new])] at h
  simp only [new, h₁, h₂] at h
  subst h
  split
  case isFalse hp => exact ⟨by simpa using hp, fun _ => rfl⟩
  case isTrue hp  => exact ⟨by simpa using hp, by simp⟩

theorem Fits.unwrapped (hf : Fits objects pointers n size alignment)
    (h : (new n).Allocate objects pointers size alignment = s) (hi : s.initialized) : Unwrapped n size :=
  have ⟨hobjects, hpointers⟩ := (initialized_iff h).left.mp hi
  hf.both hobjects hpointers

theorem owned_of_mem_blocks (hv : Valid alignment size) (hs : 0 < size)
    (ha : (new n).Allocate objects pointers size alignment = s) (hi : s.initialized)
    (hw : size.toNat * n.toNat < 2 ^ 64) (hp : ptr ∈ s.blocks) :
    Owned objects n size alignment ptr.toNat := by
  have ⟨hr, hb, hne, _⟩ := ready_of_allocate ha hi
  have hl := (laid ha hi hw).right
  simp only [blocks, List.mem_map, List.mem_range] at hp
  obtain ⟨i, hi, rfl⟩ := hp
  rw [hl.block_toNat (hr.size ▸ SizeT.toNat_pos_iff.mpr hs) hi, hr.size]
  exact owned_of_allocate hv hb hne hw (hr.total ▸ hi)

theorem Laid.disjoint {y : Address} (h : Laid s) (hs : 0 < s.sizeSharedT.toNat) (hx : x ∈ s.blocks)
    (hy : y ∈ s.blocks) (hne : x ≠ y) :
    Disjoint (Set.Ico x.toNat (x.toNat + s.sizeSharedT.toNat))
      (Set.Ico y.toNat (y.toNat + s.sizeSharedT.toNat)) := by
  simp only [blocks, List.mem_map, List.mem_range] at hx hy
  obtain ⟨i, hi, rfl⟩ := hx
  obtain ⟨j, hj, rfl⟩ := hy
  have hij : i ≠ j := fun h => hne (h ▸ rfl)
  rw [Set.Ico_disjoint_Ico, h.block_toNat hs hi, h.block_toNat hs hj]
  obtain hlt | hlt := Nat.lt_or_gt_of_ne hij
  all_goals
    have := Nat.mul_le_mul_left s.sizeSharedT.toNat (Nat.succ_le_of_lt hlt)
    rw [Nat.mul_succ] at this
    omega

theorem Laid.pairwise_disjoint {xs : List Address} (h : Laid s) (hs : 0 < s.sizeSharedT.toNat)
    (hx : ∀ x ∈ xs, x ∈ s.blocks) (hn : xs.Nodup) :
    xs.Pairwise fun x y => Disjoint (Set.Ico x.toNat (x.toNat + s.sizeSharedT.toNat))
      (Set.Ico y.toNat (y.toNat + s.sizeSharedT.toNat)) :=
  hn.imp_of_mem fun hmx hmy hne => h.disjoint hs (hx _ hmx) (hx _ hmy) hne

-- The blocks that have been handed out are in memory of the pool, and they do not overlap. Without this
-- memory, none is. The entries of the pool are in memory, too.
structure Lending.Owns (objects pointers : Allocator) (n size alignment : SizeT) (c : Lending) : Prop where
  entries  : c.pool.initialized → 8 * n.toNat ≤ c.pool.memoryPtrsToRaw.room
  owned    : ∀ p ∈ c.loaned ++ c.destructed, Owned objects n size alignment p.toNat
  disjoint : (c.loaned ++ c.destructed).Pairwise fun p q =>
    Disjoint (Set.Ico p.toNat (p.toNat + size.toNat)) (Set.Ico q.toNat (q.toNat + size.toNat))
  refused  : ¬(Obtained objects n size alignment ∧ Obtained pointers n 8 8) →
    c.pool.Loan = .error .bad_alloc

theorem Lending.idle {c : Lending} (hz : s.nAvailable = 0) (h : (Lending.system s).Reachable c) :
    c.pool = s ∧ c.loaned = [] ∧ c.destructed = [] := by
  refine System.Invariant.holds (I := fun c => c.pool = s ∧ c.loaned = [] ∧ c.destructed = []) ⟨?_, ?_⟩ h
  · rintro _ rfl
    exact ⟨rfl, rfl, rfl⟩
  · intro c a c' _ ⟨hp, hl, hd⟩ hn
    replace hn : c.next a = some c' := hn
    cases a <;> simp only [Lending.next, hl, hd, List.not_mem_nil, if_false, reduceCtorEq] at hn
    have hloan : c.pool.Loan = .error .bad_alloc := by simp [Loan, hp, hz]
    rw [hloan] at hn
    exact Option.some.inj hn ▸ ⟨hp, hl, hd⟩

theorem Lending.owns {c : Lending} (hv : Valid alignment size) (hs : 0 < size)
    (hf : Fits objects pointers n size alignment)
    (ha : (new n).Allocate objects pointers size alignment = s)
    (h : (Lending.system s).Reachable c) : c.Owns objects pointers n size alignment := by
  obtain ⟨hiff, hz⟩ := initialized_iff ha
  cases hi : s.initialized
  case false =>
    obtain ⟨hp, hl, hd⟩ := Lending.idle (hz hi) h
    exact ⟨by simp [hp, hi], by simp [hl, hd], by simp [hl, hd], fun _ => by simp [Loan, hp, hz hi]⟩
  case true =>
    have hw := hf.unwrapped ha hi
    obtain ⟨hr, hl⟩ := laid ha hi hw.blocks
    have hso := sound hs hr hl h
    have hs' : 0 < s.sizeSharedT.toNat := hr.size ▸ SizeT.toNat_pos_iff.mpr hs
    refine ⟨fun _ => ?_, fun p hp => ?_, ?_, fun hne => absurd (hiff.mp hi) hne⟩
    · have := entries_le ha hi hw.entries
      rwa [hso.eq]
    · exact owned_of_mem_blocks hv hs ha hi hw.blocks (hso.mem_blocks hp)
    · have hnd := (hso.list.nodup (hl.blocks_nodup hs')).sublist (List.sublist_append_right ..)
      exact hr.size ▸ hl.pairwise_disjoint hs' (fun _ => hso.mem_blocks) hnd

end AllocatorState
end MempoolHeap
