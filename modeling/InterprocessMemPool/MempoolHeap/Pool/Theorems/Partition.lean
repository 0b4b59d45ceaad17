import InterprocessMemPool.Concurrency.FreeList
import InterprocessMemPool.Concurrency.System
import InterprocessMemPool.MempoolHeap.Pool.Basic

namespace MempoolHeap

variable {n size alignment space : SizeT} {ptr ptr' : Address} {objects pointers : Allocator}
variable {b b' : RawMemory} {s s' : AllocatorState} {i : ℕ}

theorem align_spec (h : align alignment size ptr space = some (ptr', n)) :
    ∃ padding, size.toNat + padding ≤ space.toNat ∧ ptr' = ptr + UInt64.ofNat padding := by
  simp only [align, Option.ite_none_right_eq_some, Option.some.injEq, Prod.mk.injEq] at h
  exact ⟨_, h.left, h.right.left.symm⟩

theorem Region.toNat_add_padding (r : Region n) {padding : ℕ} (h : padding ≤ n.toNat)
    (hp : r.address + UInt64.ofNat padding ≠ 0) :
    (r.address + UInt64.ofNat padding).toNat = r.address.toNat + padding := by
  have := r.fits
  have hn := n.toNat_lt
  have hadd : (r.address + UInt64.ofNat padding).toNat = (r.address.toNat + padding) % 2 ^ 64 := by
    rw [UInt64.toNat_add, UInt64.toNat_ofNat_of_lt' (show padding < 2 ^ 64 by omega)]
  have hne : (r.address + UInt64.ofNat padding).toNat ≠ 0 :=
    fun hz => hp (UInt64.toNat_inj.mp hz)
  omega

-- Memory that has room for all elements, unless their size is so large that it wraps around.
theorem rawMemory_of_allocate (hz : b.raw = 0)
    (h : b.Allocate objects size alignment = (b', ptr)) (hp : ptr ≠ 0) :
    b'.room < 2 ^ 63 ∧ ptr.toNat + b'.room ≤ 2 ^ 64 ∧
      (b.nElementsTotal * size).toNat ≤ b'.room := by
  simp only [RawMemory.Allocate] at h
  split at h
  case isTrue => exact absurd (Prod.mk.inj h).right.symm hp
  case isFalse hr =>
    cases ha : objects (size * b.nElementsTotal + 16)
    case none => simp [ha, hz] at hr
    case some r =>
      simp only [ha, Option.elim] at h
      split at h
      case h_1 => exact absurd (Prod.mk.inj h).right.symm hp
      case h_2 hal =>
        have ⟨padding, hle, he⟩ := align_spec hal
        split at h
        case isTrue  => exact absurd (Prod.mk.inj h).right.symm hp
        case isFalse =>
          obtain ⟨rfl, rfl⟩ := Prod.mk.inj h
          have := r.toNat_add_padding (by omega) (he ▸ hp)
          have := r.fits
          have := r.small
          simp only [RawMemory.room, he]
          omega

theorem mul_ofNat_toNat (h : size.toNat * i < 2 ^ 64) (hi : i < 2 ^ 64) :
    (size * UInt64.ofNat i).toNat = size.toNat * i := by
  rw [UInt64.toNat_mul, UInt64.toNat_ofNat_of_lt' hi, Nat.mod_eq_of_lt h]

-- The sizes of the blocks and of the entries that point to them do not wrap around.
structure Unwrapped (n size : SizeT) : Prop where
  blocks  : size.toNat * n.toNat < 2 ^ 64
  entries : 8 * n.toNat < 2 ^ 64

namespace AllocatorState

def blocks (s : AllocatorState) : List Address :=
  (List.range s.nElementsTotal.toNat).map fun i => s.rawAligned + s.offset i

-- A pool that has been set up.
structure Ready (n size : SizeT) (s : AllocatorState) : Prop where
  ptrs     : s.ptrsAligned = s.blocks
  total    : s.nElementsTotal = n
  avail    : s.nAvailable = n
  historic : s.historic_min_available = n
  size     : s.sizeSharedT = size

-- The blocks are in memory, one after the other.
structure Laid (s : AllocatorState) : Prop where
  raw_pos  : 0 < s.rawAligned.toNat
  offset   : ∀ i < s.nElementsTotal.toNat, (s.offset i).toNat = s.sizeSharedT.toNat * i
  total_le : s.rawAligned.toNat + s.sizeSharedT.toNat * s.nElementsTotal.toNat ≤ 2 ^ 64

theorem ready_of_allocate (h : (new n).Allocate objects pointers size alignment = s) (hi : s.initialized) :
    Ready n size s ∧
    (RawMemory.new n).Allocate objects size alignment = (s.memoryRaw, s.rawAligned) ∧ s.rawAligned ≠ 0 ∧
    ∃ p, (RawMemory.new n).Allocate pointers 8 8 = (s.memoryPtrsToRaw, p) ∧ p ≠ 0 := by
  cases h₁ : (RawMemory.new n).Allocate objects size alignment
  case mk b raw =>
  cases h₂ : (RawMemory.new n).Allocate pointers 8 8
  case mk b' table =>
  rw [Allocate, if_neg (by simp [new])] at h
  simp only [new, h₁, h₂] at h
  split at h
  case isTrue hp  => exact h ▸ ⟨⟨rfl, rfl, rfl, rfl, rfl⟩, rfl, hp.left, _, rfl, hp.right⟩
  case isFalse => simp [← h] at hi

theorem laid (h : (new n).Allocate objects pointers size alignment = s) (hi : s.initialized)
    (hw : size.toNat * n.toNat < 2 ^ 64) : Ready n size s ∧ Laid s := by
  have ⟨hr, hb, hp, _⟩ := ready_of_allocate h hi
  have ⟨_, hfits, htotal⟩ := rawMemory_of_allocate rfl hb hp
  refine ⟨hr, ?_, ?_, ?_⟩
  · exact Nat.pos_of_ne_zero fun hz => hp (UInt64.toNat_inj.mp hz)
  · intro i hi
    rw [hr.total] at hi
    rw [offset, hr.size]
    exact mul_ofNat_toNat ((Nat.mul_le_mul_left _ hi.le).trans_lt hw) (Nat.lt_trans hi n.toNat_lt)
  · simp only [RawMemory.new] at htotal
    rw [UInt64.toNat_mul, Nat.mul_comm, Nat.mod_eq_of_lt hw] at htotal
    rw [hr.size, hr.total]
    omega

-- The array of pointers has room for one to each block.
theorem entries_le (h : (new n).Allocate objects pointers size alignment = s) (hi : s.initialized)
    (hw : 8 * n.toNat < 2 ^ 64) : 8 * n.toNat ≤ s.memoryPtrsToRaw.room := by
  have ⟨_, _, _, p, hb, hp⟩ := ready_of_allocate h hi
  have hroom := (rawMemory_of_allocate rfl hb hp).right.right
  have h8 : (8 : SizeT).toNat = 8 := rfl
  rwa [RawMemory.new, UInt64.toNat_mul, h8, Nat.mul_comm, Nat.mod_eq_of_lt hw] at hroom

namespace Laid

theorem block_toNat (h : Laid s) (hs : 0 < s.sizeSharedT.toNat) (hi : i < s.nElementsTotal.toNat) :
    (s.rawAligned + s.offset i).toNat = s.rawAligned.toNat + s.sizeSharedT.toNat * i := by
  have := h.total_le
  have := Nat.mul_lt_mul_of_pos_left hi hs
  rw [UInt64.toNat_add, h.offset i hi, Nat.mod_eq_of_lt (by omega)]

theorem blocks_toNat (h : Laid s) (hs : 0 < s.sizeSharedT.toNat) : s.blocks.map UInt64.toNat =
    (List.range s.nElementsTotal.toNat).map (s.rawAligned.toNat + s.sizeSharedT.toNat * ·) := by
  rw [blocks, List.map_map]
  exact List.map_congr_left fun i hi => h.block_toNat hs (List.mem_range.mp hi)

theorem blocks_nodup (h : Laid s) (hs : 0 < s.sizeSharedT.toNat) : s.blocks.Nodup := by
  refine List.Nodup.of_map UInt64.toNat ?_
  rw [h.blocks_toNat hs]
  refine List.nodup_range.map fun i j hij => ?_
  exact Nat.eq_of_mul_eq_mul_left hs (Nat.add_left_cancel hij)

theorem ne_zero (h : Laid s) (hs : 0 < s.sizeSharedT.toNat) (hp : ptr ∈ s.blocks) : ptr ≠ 0 := by
  simp only [blocks, List.mem_map, List.mem_range] at hp
  obtain ⟨i, hi, rfl⟩ := hp
  intro hz
  have hz := congrArg UInt64.toNat hz
  have := h.raw_pos
  rw [h.block_toNat hs hi, UInt64.toNat_zero] at hz
  omega

-- The destructor callback gets the number of the block.
theorem getElementNumber (h : Laid s) (hs : 0 < s.sizeSharedT.toNat)
    (hi : i < s.nElementsTotal.toNat) :
    (s.GetElementNumber (s.rawAligned + s.offset i)).toNat = i := by
  rw [GetElementNumber, UInt64.add_comm, UInt64.add_sub_cancel, UInt64.toNat_div, h.offset i hi,
    Nat.mul_div_cancel_left i hs]

end Laid
-- A pool in use, with the blocks that are on loan, the blocks whose destructor callback is running,
-- and the numbers of available blocks so far.
structure Lending where
  pool       : AllocatorState
  loaned     : List Address
  destructed : List Address
  levels     : List SizeT

namespace Lending

inductive Action
  | loan
  | accept (p : Address)
  | push (p : Address)

def next (c : Lending) : Action → Option Lending
  | .loan     =>
    match c.pool.Loan with
    | .error _    => some c
    | .ok (p, s)  =>
      some { c with pool := s, loaned := p :: c.loaned, levels := s.nAvailable :: c.levels }
  | .accept p =>
    if p ∈ c.loaned then
      match c.pool.destructed p with
      | none   => some { c with loaned := c.loaned.erase p }
      | some _ => some { c with loaned := c.loaned.erase p, destructed := p :: c.destructed }
    else none
  | .push p   =>
    if p ∈ c.destructed then
      let s := c.pool.Accept p
      some { c with pool := s, destructed := c.destructed.erase p, levels := s.nAvailable :: c.levels }
    else none

def init (s : AllocatorState) : Lending where
  pool       := s
  loaned     := []
  destructed := []
  levels     := [s.nAvailable]

def system (s : AllocatorState) : System Lending Action :=
  .ofNext (· = init s) next

end Lending

theorem loan_cases :
    (s.nAvailable = 0 ∧ s.Loan = .error .bad_alloc) ∨
    (0 < s.nAvailable ∧ s.Loan = .ok (s.ptrsAligned[(s.nAvailable - 1).toNat]?.getD 0,
      { s with
        nAvailable             := s.nAvailable - 1
        historic_min_available := min s.historic_min_available (s.nAvailable - 1) })) := by
  by_cases hn : 0 < s.nAvailable
  case pos => exact .inr ⟨hn, by simp [Loan, hn]⟩
  case neg => exact .inl ⟨UInt64.le_zero_iff.mp (UInt64.not_lt.mp hn), by simp [Loan, hn]⟩

def IsLowest (levels : List SizeT) (n : SizeT) : Prop :=
  n ∈ levels ∧ ∀ l ∈ levels, n ≤ l

namespace IsLowest

variable {levels : List SizeT} {l : SizeT}

theorem cons_of_le (h : IsLowest levels n) (hl : n ≤ l) : IsLowest (l :: levels) n :=
  ⟨.tail _ h.left, List.forall_mem_cons.mpr ⟨hl, h.right⟩⟩

theorem cons (h : IsLowest levels n) : IsLowest (l :: levels) (min n l) := by
  rw [show min n l = if n ≤ l then n else l from rfl]
  split
  case isTrue hl  => exact h.cons_of_le hl
  case isFalse hl =>
    have hl := UInt64.le_of_lt (UInt64.not_le.mp hl)
    exact ⟨.head _, List.forall_mem_cons.mpr ⟨UInt64.le_refl l, fun l' hm =>
      UInt64.le_trans hl (h.right l' hm)⟩⟩

end IsLowest

-- A step of the pool only changes what it keeps count of.
structure Sound (s : AllocatorState) (c : Lending) : Prop where
  eq       : c.pool = { s with
    ptrsAligned            := c.pool.ptrsAligned
    nAvailable             := c.pool.nAvailable
    historic_min_available := c.pool.historic_min_available }
  list     : FreeList.Holds s.blocks c.pool.ptrsAligned c.pool.nAvailable.toNat
    (c.loaned ++ c.destructed)
  level    : c.pool.nAvailable ∈ c.levels
  historic : IsLowest c.levels c.pool.historic_min_available

namespace Sound

variable {c c' : Lending} {a : Lending.Action}

-- The block that is handed out next.
theorem getElem?_pred (h : Sound s c) (hn : 0 < c.pool.nAvailable) :
    c.pool.nAvailable.toNat = (c.pool.nAvailable - 1).toNat + 1 ∧
    ∃ p, c.pool.ptrsAligned[(c.pool.nAvailable - 1).toNat]? = some p := by
  have hn := SizeT.toNat_pos_iff.mpr hn
  have hp := SizeT.toNat_pred hn
  have := h.list.top_le
  exact ⟨by omega, _, List.getElem?_eq_getElem (by omega)⟩

theorem available_succ (h : Sound s c) (hp : ptr ∈ c.destructed) :
    (c.pool.nAvailable + 1).toNat = c.pool.nAvailable.toNat + 1 := by
  have hlt := h.list.top_lt (List.mem_append_right _ hp)
  have := s.nElementsTotal.toNat_lt
  rw [h.list.length_eq, blocks, List.length_map, List.length_range] at hlt
  exact SizeT.toNat_succ (by omega)

theorem mem_blocks (h : Sound s c) (hp : ptr ∈ c.loaned ++ c.destructed) : ptr ∈ s.blocks :=
  h.list.mem_of_mem_out hp

theorem getElementNumber_eq (h : Sound s c) :
    c.pool.GetElementNumber ptr = s.GetElementNumber ptr := by
  rw [h.eq]
  rfl

theorem destructed_eq (hl : Laid s) (hs : 0 < s.sizeSharedT.toNat) (h : Sound s c)
    (hp : ptr ∈ c.loaned) : c.pool.destructed ptr = some (c.pool.GetElementNumber ptr) :=
  if_neg <| hl.ne_zero hs <| h.mem_blocks <| List.mem_append_left _ hp

theorem perm_accept {loaned destructed : List Address} (h : ptr ∈ loaned) :
    (loaned.erase ptr ++ ptr :: destructed).Perm (loaned ++ destructed) :=
  List.perm_middle.trans <| (List.perm_cons_erase h).symm.append_right _

theorem perm_push {loaned destructed : List Address} (h : ptr ∈ destructed) :
    (loaned ++ destructed.erase ptr).Perm ((loaned ++ destructed).erase ptr) := by
  refine List.Perm.cons_inv (a := ptr) ?_
  refine List.Perm.trans ?_ (List.perm_cons_erase (List.mem_append_right _ h))
  exact List.perm_middle.symm.trans <| (List.perm_cons_erase h).symm.append_left _

theorem next (hl : Laid s) (hs : 0 < s.sizeSharedT.toNat) (h : Sound s c)
    (hn : c.next a = some c') : Sound s c' := by
  cases a <;> simp only [Lending.next] at hn
  case loan =>
    obtain ⟨_, hl⟩ | ⟨hpos, hl⟩ := loan_cases (s := c.pool)
    case inl =>
      rw [hl] at hn
      exact Option.some.inj hn ▸ h
    case inr =>
      have ⟨hs, p, hp⟩ := h.getElem?_pred hpos
      rw [hl] at hn
      obtain rfl := Option.some.inj hn
      refine ⟨h.eq ▸ rfl, ?_, .head _, h.historic.cons⟩
      simp only [hp, Option.getD_some]
      exact (hs ▸ h.list).loan hp
  case accept p =>
    rw [Option.ite_none_right_eq_some] at hn
    have ⟨hp, hn⟩ := hn
    rw [h.destructed_eq hl hs hp] at hn
    obtain rfl := Option.some.inj hn
    exact ⟨h.eq, h.list.congr (perm_accept hp), h.level, h.historic⟩
  case push p =>
    rw [Option.ite_none_right_eq_some, Option.some.injEq] at hn
    obtain ⟨hp, rfl⟩ := hn
    have hsucc := h.available_succ hp
    have hlow := UInt64.le_iff_toNat_le.mp (h.historic.right _ h.level)
    refine ⟨?_, ?_, .head _, h.historic.cons_of_le ?_⟩
    · rw [Accept, h.eq]
    · simp only [Accept, hsucc]
      exact (h.list.accept (List.mem_append_right _ hp)).congr (perm_push hp)
    · simp only [Accept, UInt64.le_iff_toNat_le, hsucc]
      omega

end Sound

theorem sound {c : Lending} (hs : 0 < size) (hr : Ready n size s) (hl : Laid s)
    (h : (Lending.system s).Reachable c) : Sound s c := by
  have hs := SizeT.toNat_pos_iff.mpr hs
  refine System.Invariant.holds (I := Sound s) ⟨?_, fun _ h hn => h.next hl (hr.size ▸ hs) hn⟩ h
  rintro _ rfl
  refine ⟨rfl, ?_, by simp [Lending.init], ?_⟩
  · have := FreeList.Holds.init s.blocks
    simpa [Lending.init, hr.ptrs, hr.avail, hr.total, blocks] using this
  · simp [Lending.init, IsLowest, hr.historic, hr.avail]

-- The pool as seen by its users: `n` blocks of `size` bytes each, from `raw` on, with an entry for each.
structure IsFreeList (raw size n : ℕ) (c : Lending) : Prop where
  entries    : 8 * n ≤ c.pool.memoryPtrsToRaw.room
  partition  : ((c.pool.ptrsAligned.take c.pool.nAvailable.toNat ++
    (c.loaned ++ c.destructed)).map UInt64.toNat).Perm ((List.range n).map (raw + size * ·))
  once       : (c.pool.ptrsAligned.take c.pool.nAvailable.toNat ++
    (c.loaned ++ c.destructed)).Nodup
  handed_out : ∀ p s, c.pool.Loan = .ok (p, s) →
    p ∈ c.pool.ptrsAligned.take c.pool.nAvailable.toNat ∧ p ∉ c.loaned ∧ p ∉ c.destructed
  throws_iff : c.pool.Loan = .error .bad_alloc ↔ c.loaned.length + c.destructed.length = n
  callback   : ∀ p ∈ c.loaned, ∃ k, c.pool.destructed p = some k ∧ p.toNat = raw + size * k.toNat
  historic   : IsLowest c.levels c.pool.statistics.historic_min_available
  statistics : c.pool.statistics.nOutstanding.toNat = c.loaned.length + c.destructed.length ∧
    c.pool.statistics.nOutstanding.toNat + c.pool.statistics.nAvailable.toNat = n

theorem freeList_of_allocate {c : Lending} (hs : 0 < size)
    (ha : (new n).Allocate objects pointers size alignment = s) (hi : s.initialized)
    (hw : Unwrapped n size) (h : (Lending.system s).Reachable c) :
    IsFreeList s.rawAligned.toNat size.toNat n.toNat c := by
  have ⟨hr, hl⟩ := laid ha hi hw.blocks
  have hso := sound hs hr hl h
  have hs := SizeT.toNat_pos_iff.mpr hs
  have hs' := hr.size ▸ hs
  have hsum := hso.list.top_add_length
  have hnod := hso.list.nodup (hl.blocks_nodup hs')
  rw [blocks, List.length_map, List.length_range, hr.total, List.length_append] at hsum
  constructor
  case entries =>
    have := entries_le ha hi hw.entries
    rwa [hso.eq]
  case partition =>
    have := hso.list.perm.map UInt64.toNat
    rwa [hl.blocks_toNat hs', hr.size, hr.total] at this
  case once => exact hnod
  case handed_out =>
    intro p s' hp
    obtain ⟨_, hz⟩ | ⟨hpos, hz⟩ := loan_cases (s := c.pool)
    case inl => simp [hz] at hp
    case inr =>
      have ⟨hs, q, hq⟩ := hso.getElem?_pred hpos
      rw [hz, hq, Option.getD_some] at hp
      obtain ⟨rfl, rfl⟩ := Prod.mk.inj (Except.ok.inj hp)
      have hm := (hs ▸ hso.list).not_mem_of_getElem? (hl.blocks_nodup hs') hq
      rw [List.mem_append, not_or] at hm
      rw [hs, List.take_add_one, hq]
      exact ⟨by simp, hm⟩
  case throws_iff =>
    obtain ⟨hpos, hz⟩ | ⟨hpos, hz⟩ := loan_cases (s := c.pool)
    · simp only [hz, true_iff]
      simp only [hpos, UInt64.toNat_zero] at hsum
      omega
    · have := SizeT.toNat_pos_iff.mpr hpos
      simp only [hz, reduceCtorEq, false_iff]
      omega
  case callback =>
    intro p hp
    have hb := hso.mem_blocks (List.mem_append_left _ hp)
    simp only [blocks, List.mem_map, List.mem_range] at hb
    obtain ⟨i, hi, hb⟩ := hb
    refine ⟨_, hso.destructed_eq hl hs' hp, ?_⟩
    rw [hso.getElementNumber_eq, ← hb, hl.getElementNumber hs' hi, hl.block_toNat hs' hi, hr.size]
  case historic => exact hso.historic
  case statistics =>
    have hn : c.pool.nElementsTotal = n := hr.total ▸ hso.eq ▸ rfl
    simp only [AllocatorState.statistics]
    rw [hn, UInt64.toNat_sub_of_le _ _ (UInt64.le_iff_toNat_le.mpr (by omega))]
    omega

-- An allocator with 1024 bytes at the address 4096, and one with as many at 8192.
def low : Allocator :=
  .freeAt 4096 1024 (by decide) (by decide) (by decide)

def high : Allocator :=
  .freeAt 8192 1024 (by decide) (by decide) (by decide)

theorem freeList_of_allocate_run : ∃ c : Lending,
    (c.loaned = [4128] ∧ c.destructed = [4112] ∧ c.pool.ptrsAligned = [4096, 4128, 4128]) ∧
    IsFreeList 4096 16 3 c := by
  have ⟨c, hr, hq⟩ : ∃ c, ((Lending.system ((new 3).Allocate low high 16 8)).restrict fun _ _ => True).Reachable c ∧
      c.loaned = [4128] ∧ c.destructed = [4112] ∧ c.pool.ptrsAligned = [4096, 4128, 4128] :=
    System.exec_reachable rfl <| show Option.any _ (System.exec _ _ _ [
      .loan, .accept 4128, .loan, .accept 4112, .push 4128, .loan]) by decide +kernel
  exact ⟨c, hq, freeList_of_allocate (by decide) rfl rfl ⟨by decide, by decide⟩ hr.of_restrict⟩

-- The request for 8 blocks of 2⁶² bytes is one for 16 bytes, so the blocks 0 and 4 have the same address. It
-- is handed out although it is on loan.
theorem not_freeList : ∃ c : Lending, ((new 8).Allocate low high (2 ^ 62) 8).initialized ∧
    (Lending.system ((new 8).Allocate low high (2 ^ 62) 8)).Reachable c ∧
    (∃ p s, c.pool.Loan = .ok (p, s) ∧ p ∈ c.loaned) ∧ ∀ raw size n, ¬IsFreeList raw size n c := by
  have ⟨c, h, hl⟩ : ∃ c : Lending,
      ((Lending.system ((new 8).Allocate low high (2 ^ 62) 8)).restrict fun _ _ => True).Reachable c ∧
      c.pool.Loan.toOption.any (·.1 ∈ c.loaned) :=
    System.exec_reachable rfl <| show Option.any _ (System.exec _ _ _ [
      .loan, .loan, .loan, .loan]) by decide +kernel
  obtain ⟨⟨p, s⟩, hp, hm⟩ := (Option.any_eq_true ..).mp hl
  have hp := Except.toOption_eq_some.mp hp
  have hm := of_decide_eq_true hm
  exact ⟨c, by decide +kernel, h.of_restrict, ⟨p, s, hp, hm⟩,
    fun _ _ _ hf => (hf.handed_out p s hp).right.left hm⟩

end AllocatorState
end MempoolHeap
