import InterprocessMemPool.MempoolHeap.ArrayPool.Theorems.Balance
import InterprocessMemPool.MempoolHeap.Pool.Theorems.Memory

namespace MempoolHeap

theorem SharedT.size_pos (shared : SharedT) : 0 < shared.size :=
  SizeT.toNat_pos_iff.mp (Nat.zero_lt_of_lt shared.inside)

namespace SharedPointerArrayAllocator

open AllocatorState

variable {shared : SharedT} {type : ElementType} {blocks pointers arrays : Allocator} {n count : SizeT}
variable {a : SharedPointerArrayAllocator} {s : AllocatorState} {c : Config} {l : Call} {slice : Slice}

-- The sizes of what is obtained do not wrap around, and there are no blocks without memory for arrays.
structure Fits (shared : SharedT) (type : ElementType) (blocks pointers arrays : Allocator)
    (n count : SizeT) : Prop where
  pool   : AllocatorState.Fits blocks pointers n shared.size shared.align
  whole  : Whole arrays (n * count) type.size type.align
  arrays : Obtained blocks n shared.size shared.align → Obtained pointers n 8 8 → 0 < n → 0 < count →
    Obtained arrays (n * count) type.size type.align ∧
      n.toNat * count.toNat * type.size.toNat < 2 ^ 64

-- The blocks that calls hold and the slices that they work with are in memory of the allocator, and do
-- not overlap. Without memory for the blocks, calls return `nullptr`. The entries of the pool are in memory, too.
structure Owns (shared : SharedT) (type : ElementType) (blocks pointers arrays : Allocator)
    (n count : SizeT) (a : SharedPointerArrayAllocator) (c : Config) : Prop where
  defined         : ∀ p, .faulted p ∉ c.calls
  entries         : ∀ s ∈ c.shared.allocator.state, 8 * n.toNat ≤ s.memoryPtrsToRaw.room
  owned           : ∀ p ∈ c.held Call.block, Owned blocks n shared.size shared.align p.toNat
  disjoint        : (c.held Call.block).Pairwise fun p q =>
    Disjoint (Set.Ico p.toNat (p.toNat + shared.size.toNat)) (Set.Ico q.toNat (q.toNat + shared.size.toNat))
  slices          : ∀ l ∈ c.calls, ∀ slice ∈ l.live, ∀ ptr ∈ Set.Ico slice.first slice.last,
    Owned arrays (n * count) type.size type.align (a.rawAligned.toNat + type.size.toNat * ptr)
  slices_disjoint : ∀ {i j : ℕ} {l l' : Call} {slice slice' : Slice}, i ≠ j → c.calls[i]? = some l →
    c.calls[j]? = some l' → l.live = some slice → l'.live = some slice' →
    Disjoint (Set.Ico slice.first slice.last) (Set.Ico slice'.first slice'.last)
  refused         : ¬(Obtained blocks n shared.size shared.align ∧ Obtained pointers n 8 8) →
    ∀ l ∈ c.calls, l = .entered ∨ l = .returned .null

theorem obtained_iff (hn : new shared type n count blocks pointers arrays = a) :
    (a.state = none ↔ ¬(Obtained blocks n shared.size shared.align ∧ Obtained pointers n 8 8)) ∧
    (a.rawAligned ≠ 0 ↔ Obtained arrays (n * count) type.size type.align) := by
  subst hn
  refine ⟨?_, ?_⟩
  · rw [← (initialized_iff rfl).left]
    simp [new]
  · rw [← RawMemory.allocate_ne_zero_iff]
    rfl

theorem owns_of_idle (hs : a.state = none) (h : (system shared type a).Reachable c) :
    Owns shared type blocks pointers arrays n count a c := by
  have ⟨hsh, hl⟩ := idle hs h
  have hb (l : Call) (hm : l ∈ c.calls) : l.block = none ∧ l.live = none := by
    obtain rfl | rfl := hl l hm <;> exact ⟨rfl, rfl⟩
  have hheld : c.held Call.block = [] := List.filterMap_eq_nil_iff.mpr fun l hm => (hb l hm).left
  constructor
  case defined         => exact fun p hp => absurd (hb _ hp).left (by simp [Call.block])
  case entries         => simp [hsh, hs]
  case owned           => simp [hheld]
  case disjoint        => simp [hheld]
  case slices          => exact fun l hm slice hs => absurd hs (by simp [(hb l hm).right])
  case slices_disjoint =>
    intro i j l l' slice slice' _ hi _ hl
    simp [(hb _ (List.mem_of_getElem? hi)).right] at hl
  case refused         => exact fun _ => hl

theorem owns (hshared : Valid shared.align shared.size) (htype : Valid type.align type.size)
    (hf : Fits shared type blocks pointers arrays n count)
    (hn : new shared type n count blocks pointers arrays = a)
    (h : (system shared type a).Reachable c) :
    Owns shared type blocks pointers arrays n count a c := by
  have ⟨hnone, hraw⟩ := obtained_iff hn
  obtain hs | ⟨s, hs⟩ := Option.eq_none_or_eq_some a.state
  case inl => exact owns_of_idle hs h
  case inr =>
    have ⟨hblocks, hpointers⟩ := not_not.mp (mt hnone.mpr (by simp [hs]))
    have hw := hf.pool.both hblocks hpointers
    have harrays (hpos : 0 < n.toNat * count.toNat) := hf.arrays hblocks hpointers
      (SizeT.toNat_pos_iff.mp (Nat.pos_of_mul_pos_right hpos))
      (SizeT.toNat_pos_iff.mp (Nat.pos_of_mul_pos_left hpos))
    have hroom : n.toNat * count.toNat ≤ a.room type := by
      obtain hz | hpos := Nat.eq_zero_or_pos (n.toNat * count.toNat)
      case inl => exact hz ▸ Nat.zero_le _
      case inr => exact room_of_fits hn (hraw.mpr (harrays hpos).left) (harrays hpos).right
    have ⟨hpl, hso⟩ := sound hn hw.blocks hroom hs h
    have ⟨ha, hi⟩ := allocate_of_new hn hs
    have ⟨hr, hl⟩ := laid ha hi hw.blocks
    have ⟨pool, hp, he, hlist⟩ := hso.pool
    constructor
    case defined         => exact fun p hp => hso.sliced _ hp
    case entries         =>
      intro pool' hp'
      obtain rfl : pool = pool' := by simpa [hp] using hp'
      have := entries_le ha hi hw.entries
      rwa [he]
    case slices_disjoint => exact live_disjoint hpl hso
    case refused         => exact fun hne => absurd ⟨hblocks, hpointers⟩ hne
    case owned           =>
      exact fun p hp => owned_of_mem_blocks hshared shared.size_pos ha hi
        hw.blocks (hlist.mem_of_mem_out hp)
    case disjoint        =>
      have hnd := (hlist.nodup (hl.blocks_nodup hpl.size_pos)).sublist (List.sublist_append_right ..)
      exact hr.size ▸ hl.pairwise_disjoint hpl.size_pos (fun _ => hlist.mem_of_mem_out) hnd
    case slices          =>
      intro l hm slice hsl ptr hp
      have ⟨i, hi⟩ := List.mem_iff_getElem?.mp hm
      have ⟨p, hb, he⟩ := (hso.sliced _ hm).slice_eq hsl
      have hlt : ptr < n.toNat * count.toNat := by
        have := hpl.slice_le_total (hso.mem_blocks hi hb)
        rw [hr.total, (room_of_new hn).left, ← he] at this
        exact hp.right.trans_le this
      have ⟨ho, hw⟩ := harrays (Nat.zero_lt_of_lt hlt)
      have hcount : (n * count).toNat = n.toNat * count.toNat := by
        rw [UInt64.toNat_mul]
        exact Nat.mod_eq_of_lt <| (Nat.le_mul_of_pos_right _ type.pos).trans_lt hw
      rw [← hcount] at hlt hw
      exact owned_of_allocate htype (rawObjects_of_new hn) (hraw.mpr ho) (Nat.mul_comm .. ▸ hw) hlt

-- Pools of blocks and pools of arrays only hand out memory that they own, and they find room to align it.
theorem handed_out_owned {m size alignment : SizeT} {objects table : Allocator} (hv : Valid alignment size)
    (hs : 0 < size) (hf : AllocatorState.Fits objects table m size alignment)
    (hshared : Valid shared.align shared.size) (htype : Valid type.align type.size)
    (h : Fits shared type blocks pointers arrays n count) :
    ((∀ c, (Lending.system ((AllocatorState.new m).Allocate objects table size alignment)).Reachable c →
      c.Owns objects table m size alignment) ∧
      Aligns objects m size alignment ∧ Aligns table m 8 8) ∧
    (∀ c, (system shared type (new shared type n count blocks pointers arrays)).Reachable c →
      Owns shared type blocks pointers arrays n count (new shared type n count blocks pointers arrays) c) ∧
      Aligns blocks n shared.size shared.align ∧ Aligns pointers n 8 8 ∧
      Aligns arrays (n * count) type.size type.align := by
  refine ⟨⟨?_, (aligns_iff hv.pos).mpr hf.blocks, (aligns_iff (by decide)).mpr hf.table⟩, ?_,
    (aligns_iff hshared.pos).mpr h.pool.blocks, (aligns_iff (by decide)).mpr h.pool.table,
    (aligns_iff htype.pos).mpr h.whole⟩
  · exact fun c hr => Lending.owns hv hs hf rfl hr
  · exact fun c hr => owns hshared htype h rfl hr

theorem handed_out_owned_run :
    (∀ c, (Lending.system ((AllocatorState.new 3).Allocate low high 16 8)).Reachable c →
      c.Owns low high 3 16 8) ∧
    ∀ c, (system sharedT elementType (new sharedT elementType 2 2 low high top)).Reachable c →
      Owns sharedT elementType low high top 2 2 (new sharedT elementType 2 2 low high top) c := by
  have hf : AllocatorState.Fits low high 3 16 8 :=
    ⟨by decide, by decide, fun _ _ => ⟨by decide, by decide⟩⟩
  have hpool : AllocatorState.Fits low high 2 sharedT.size sharedT.align :=
    ⟨by decide, by decide, fun _ _ => ⟨by decide, by decide⟩⟩
  have harrays : Obtained top (2 * 2) elementType.size elementType.align :=
    RawMemory.allocate_ne_zero_iff.mp (by decide +kernel)
  have h : Fits sharedT elementType low high top 2 2 :=
    ⟨hpool, by decide, fun _ _ _ _ => ⟨harrays, by decide⟩⟩
  have ho := handed_out_owned ⟨⟨3, rfl⟩, by decide⟩ (by decide) hf ⟨⟨3, rfl⟩, by decide⟩
    ⟨⟨3, rfl⟩, by decide⟩ h
  exact ⟨ho.left.left, ho.right.left⟩

-- The memory for the arrays is not granted, and the constructor carries on.
theorem not_owned : ∃ c : Config,
    (system sharedT elementType (new sharedT elementType 1 1 low high (fun _ => none))).Reachable c ∧
    ¬Owns sharedT elementType low high (fun _ => none) 1 1
      (new sharedT elementType 1 1 low high (fun _ => none)) c := by
  obtain ⟨c, h, he⟩ : ∃ c, ((system sharedT elementType
      (new sharedT elementType 1 1 low high (fun _ => none))).restrict fun _ _ => True).Reachable c ∧
      c.calls = [.faulted 4096] :=
    Program.exec_reachable rfl <| show Option.any _ (System.exec _ _ _ [
      .enter .entered, .run 0 false]) by decide +kernel
  exact ⟨c, h.of_restrict, fun ho => ho.defined 4096 (he ▸ List.mem_singleton_self _)⟩

end SharedPointerArrayAllocator
end MempoolHeap
