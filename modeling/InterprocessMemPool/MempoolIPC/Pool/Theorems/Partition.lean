import InterprocessMemPool.Concurrency.FreeList
import InterprocessMemPool.Concurrency.System
import InterprocessMemPool.MempoolIPC.Pool.Basic

namespace IPC.AllocatorState

variable {segment : ℕ} {s s' : AllocatorState} {objects pointers : SegmentManager segment}
variable {m m' : Mapping segment} {p : Address} {o n count size align : SizeT}

-- A pool in use, together with the offsets of the blocks that are on loan.
structure Lending where
  pool   : AllocatorState
  loaned : List SizeT

namespace Lending

inductive Action (segment : ℕ)
  | loan (m : Mapping segment)
  | accept (m : Mapping segment) (p : Address)

-- Where in the pool an address of the given process is.
def offsetOf (s : AllocatorState) (m : Mapping segment) (p : Address) : SizeT :=
  p - m.address s.objects_alignedPtr

def next (c : Lending) : Action segment → Option Lending
  | .loan m     =>
    match c.pool.Loan m with
    | (none, s)   => some { c with pool := s }
    | (some p, s) => some { pool := s, loaned := offsetOf s m p :: c.loaned }
  | .accept m p =>
    let o := offsetOf c.pool m p
    if o ∈ c.loaned then some { pool := c.pool.Accept m p, loaned := c.loaned.erase o } else none

def system (segment : ℕ) (s : AllocatorState) : System Lending (Action segment) :=
  .ofNext (· = { pool := s, loaned := [] }) next

end Lending

open Lending

def blocks (s : AllocatorState) : List SizeT :=
  (List.range s.nElementsTotal.toNat).map s.offset

-- The blocks that are free.
def free (s : AllocatorState) : List SizeT :=
  s.pointers_alignedPtr.take s.nAvailable.toNat

-- A pool that has been set up in a segment of the given size.
structure Laid (segment : ℕ) (s : AllocatorState) : Prop where
  block_pos  : 0 < s.sizeSharedT.toNat * s.countPerElement.toNat
  total_lt   : s.sizeSharedT.toNat * s.countPerElement.toNat * s.nElementsTotal.toNat < 2 ^ 64
  inside     : s.objects_alignedPtr.toNat +
    s.sizeSharedT.toNat * s.countPerElement.toNat * s.nElementsTotal.toNat ≤ segment

namespace Laid

theorem offset_toNat (h : Laid segment s) {i : ℕ} (hi : i < s.nElementsTotal.toNat) :
    (s.offset i).toNat = s.sizeSharedT.toNat * s.countPerElement.toNat * i := by
  have hp := h.block_pos
  have ht := h.total_lt
  have hi' := Nat.mul_lt_mul_of_pos_left hi hp
  have hn := s.nElementsTotal.toNat_lt
  have hb := Nat.le_mul_of_pos_right (s.sizeSharedT.toNat * s.countPerElement.toNat)
    (Nat.zero_lt_of_lt hi)
  rw [offset, UInt64.toNat_mul, UInt64.toNat_mul, UInt64.toNat_ofNat_of_lt' (show i < 2 ^ 64 by omega),
    Nat.mod_eq_of_lt (a := _ * s.countPerElement.toNat) (by omega), Nat.mod_eq_of_lt (by omega)]

theorem blocks_toNat (h : Laid segment s) : s.blocks.map UInt64.toNat =
    (List.range s.nElementsTotal.toNat).map
      (s.sizeSharedT.toNat * s.countPerElement.toNat * ·) := by
  rw [blocks, List.map_map]
  refine List.map_congr_left fun i hi => ?_
  exact h.offset_toNat (List.mem_range.mp hi)

theorem blocks_nodup (h : Laid segment s) : s.blocks.Nodup := by
  refine List.Nodup.of_map UInt64.toNat ?_
  rw [h.blocks_toNat]
  refine List.nodup_range.map fun i j hij => ?_
  exact Nat.eq_of_mul_eq_mul_left h.block_pos hij

theorem mem_blocks (h : Laid segment s) (ho : o ∈ s.blocks) :
    ∃ i < s.nElementsTotal.toNat, o.toNat = s.sizeSharedT.toNat * s.countPerElement.toNat * i := by
  simp only [blocks, List.mem_map, List.mem_range] at ho
  have ⟨i, hi, ho⟩ := ho
  exact ⟨i, hi, ho ▸ h.offset_toNat hi⟩

-- Every block is inside of the part of the segment that belongs to the pool.
theorem block_le (h : Laid segment s) (ho : o ∈ s.blocks) :
    o.toNat + s.sizeSharedT.toNat * s.countPerElement.toNat ≤
      s.sizeSharedT.toNat * s.countPerElement.toNat * s.nElementsTotal.toNat := by
  have ⟨i, hi, ho⟩ := h.mem_blocks ho
  rw [ho, ← Nat.mul_succ]
  exact Nat.mul_le_mul_left _ hi

theorem disjoint (h : Laid segment s) {o₁ o₂ : SizeT} (h₁ : o₁ ∈ s.blocks) (h₂ : o₂ ∈ s.blocks)
    (hne : o₁ ≠ o₂) :
    o₁.toNat + s.sizeSharedT.toNat * s.countPerElement.toNat ≤ o₂.toNat ∨
    o₂.toNat + s.sizeSharedT.toNat * s.countPerElement.toNat ≤ o₁.toNat := by
  have ⟨i, _, hi⟩ := h.mem_blocks h₁
  have ⟨j, _, hj⟩ := h.mem_blocks h₂
  rw [hi, hj, ← Nat.mul_succ, ← Nat.mul_succ]
  have hij : i ≠ j := by
    rintro rfl
    exact hne <| UInt64.toNat_inj.mp (hi.trans hj.symm)
  cases Nat.lt_or_gt_of_ne hij
  case inl hij => exact .inl <| Nat.mul_le_mul_left _ hij
  case inr hij => exact .inr <| Nat.mul_le_mul_left _ hij

theorem position_lt (h : Laid segment s) (ho : o ∈ s.blocks) :
    (s.objects_alignedPtr + o).toNat < segment := by
  have := h.block_le ho
  have := h.block_pos
  have := h.inside
  have := Nat.mod_le (s.objects_alignedPtr.toNat + o.toNat) (2 ^ 64)
  rw [UInt64.toNat_add]
  omega

end Laid

theorem rawMemory_of_allocate {b b' : RawMemoryIPC}
    (h : b.Allocate objects size align = .ok b') :
    b'.rawSize = size * b.nElementsTotal ∧
      (b'.raw.getD 0).toNat + b'.rawSize.toNat ≤ segment := by
  simp only [RawMemoryIPC.Allocate] at h
  split at h
  case h_1 =>
    split at h
    case isTrue => simp at h
    case isFalse hz =>
      obtain rfl := Except.ok.inj h
      simp only [UInt64.not_lt, UInt64.le_zero_iff] at hz
      simp [hz]
  case h_2 e _ =>
    obtain rfl := Except.ok.inj h
    exact ⟨rfl, e.inside⟩

theorem eq_of_allocate (hi : s.initialized = false)
    (h : s.Allocate objects pointers size align = .ok s') :
    ∃ b b', s.objectsBuffer.Allocate objects size align = .ok b ∧
      s' = { s with
        objectsBuffer       := b
        pointersBuffer      := b'
        objects_alignedPtr  := b.raw.getD 0
        pointers_alignedPtr := s'.blocks
        sizeSharedT         := size
        alignSharedT        := align
        initialized         := true } := by
  rw [Allocate, hi, if_neg Bool.false_ne_true] at h
  cases h₁ : s.objectsBuffer.Allocate objects size align
  case error => simp [h₁, bind, Except.bind] at h
  case ok b =>
    cases h₂ : s.pointersBuffer.Allocate pointers 8 8
    case error => simp [h₁, h₂, bind, Except.bind] at h
    case ok b' =>
      simp only [h₁, h₂, bind, Except.bind] at h
      split at h
      case isTrue  => simp at h
      case isFalse =>
        obtain rfl := Except.ok.inj h
        exact ⟨b, b', rfl, rfl⟩

theorem laid (hc : 0 < count) (hs : 0 < size)
    (hn : size.toNat * (n.toNat * count.toNat) < 2 ^ 64)
    (h : (new n count).Allocate objects pointers size align = .ok s) :
    Laid segment s ∧ s.nElementsTotal = n ∧ s.countPerElement = count ∧ s.sizeSharedT = size ∧
      s.nAvailable = n ∧ s.pointers_alignedPtr = s.blocks := by
  have hc := SizeT.toNat_pos_iff.mpr hc
  have hs := SizeT.toNat_pos_iff.mpr hs
  have ⟨b, b', hb, he⟩ := eq_of_allocate rfl h
  have ⟨hr, hi⟩ := rawMemory_of_allocate hb
  have hb : b.rawSize.toNat = size.toNat * count.toNat * n.toNat := by
    have hle := Nat.le_mul_of_pos_left (n.toNat * count.toNat) hs
    rw [hr]
    simp only [new, RawMemoryIPC.new]
    rw [UInt64.toNat_mul, UInt64.toNat_mul, Nat.mod_eq_of_lt (a := _ * count.toNat) (by omega),
      Nat.mod_eq_of_lt hn, Nat.mul_assoc, Nat.mul_comm n.toNat]
  rw [he]
  refine ⟨⟨Nat.mul_pos hs hc, ?_, ?_⟩, rfl, rfl, rfl, rfl, ?_⟩
  · exact hb ▸ b.rawSize.toNat_lt
  · exact hb ▸ hi
  · exact congrArg blocks he

theorem loan_cases (hc : 0 < s.countPerElement) :
    (s.nAvailable = 0 ∧ s.Loan m = (none, s)) ∨
    (0 < s.nAvailable ∧ s.Loan m =
      (some (m.address s.objects_alignedPtr +
        s.pointers_alignedPtr[(s.nAvailable - 1).toNat]?.getD 0),
      { s with nAvailable := s.nAvailable - 1 })) := by
  by_cases hn : 0 < s.nAvailable
  case pos => exact .inr ⟨hn, by simp [Loan, hn, hc]⟩
  case neg => exact .inl ⟨UInt64.le_zero_iff.mp (UInt64.not_lt.mp hn), by simp [Loan, hn]⟩

theorem offsetOf_address : offsetOf s m (m.address s.objects_alignedPtr + o) = o := by
  rw [offsetOf, UInt64.add_comm, UInt64.add_sub_cancel]

theorem eq_address (h : offsetOf s m p = o) : p = m.address (s.objects_alignedPtr + o) := by
  rw [← h, offsetOf, Mapping.address, Mapping.address, ← UInt64.add_assoc, UInt64.add_comm,
    UInt64.sub_add_cancel]

theorem accept_eq (hp : p ≠ 0) : s.Accept m p = { s with
    pointers_alignedPtr := s.pointers_alignedPtr.set s.nAvailable.toNat (offsetOf s m p)
    nAvailable          := s.nAvailable + 1 } :=
  if_neg hp

-- A step of the pool only changes what it keeps count of, that is, the free blocks.
structure Sound (s : AllocatorState) (c : Lending) : Prop where
  eq   : c.pool = { s with
    pointers_alignedPtr := c.pool.pointers_alignedPtr, nAvailable := c.pool.nAvailable }
  list : FreeList.Holds s.blocks c.pool.pointers_alignedPtr c.pool.nAvailable.toNat c.loaned

namespace Sound

variable {c c' : Lending} {a : Action segment}

theorem objects_eq (h : Sound s c) : c.pool.objects_alignedPtr = s.objects_alignedPtr :=
  h.eq ▸ rfl

theorem count_eq (h : Sound s c) : c.pool.countPerElement = s.countPerElement :=
  h.eq ▸ rfl

theorem address_ne_zero (hl : Laid segment s) (h : Sound s c) (ho : offsetOf c.pool m p ∈ c.loaned) :
    p ≠ 0 := by
  have hp : p = m.address (s.objects_alignedPtr + offsetOf c.pool m p) :=
    h.objects_eq ▸ eq_address rfl
  have hne : m.address (s.objects_alignedPtr + offsetOf c.pool m p) ≠ 0 :=
    Mapping.address_ne_zero <| hl.position_lt <| h.list.mem_of_mem_out ho
  exact fun hz => hne <| hp.symm.trans hz

theorem available_lt (h : Sound s c) (ho : o ∈ c.loaned) :
    c.pool.nAvailable.toNat < s.nElementsTotal.toNat := by
  have := h.list.top_lt ho
  rwa [h.list.length_eq, blocks, List.length_map, List.length_range] at this

-- The block that is handed out next.
theorem getElem?_pred (h : Sound s c) (hn : 0 < c.pool.nAvailable) :
    c.pool.nAvailable.toNat = (c.pool.nAvailable - 1).toNat + 1 ∧
    ∃ o, c.pool.pointers_alignedPtr[(c.pool.nAvailable - 1).toNat]? = some o := by
  have hn := SizeT.toNat_pos_iff.mpr hn
  have hp := SizeT.toNat_pred hn
  have := h.list.top_le
  exact ⟨by omega, _, List.getElem?_eq_getElem (by omega)⟩

theorem congr {out : List SizeT} (h : Sound s c) (hp : out.Perm c.loaned) : Sound s ⟨c.pool, out⟩ :=
  ⟨h.eq, h.list.congr hp⟩

theorem loan {t : AllocatorState} (h : Sound s c) (hl : c.pool.Loan m = (some p, t)) :
    Sound s ⟨t, offsetOf s m p :: c.loaned⟩ := by
  have hn : 0 < c.pool.nAvailable ∧ 0 < c.pool.countPerElement := by
    by_contra hn
    simp [Loan, hn] at hl
  have ⟨hs, o, ho⟩ := h.getElem?_pred hn.left
  simp only [Loan, if_pos hn, ho, Option.getD_some, Prod.mk.injEq, Option.some.injEq] at hl
  obtain ⟨rfl, rfl⟩ := hl
  refine ⟨h.eq ▸ rfl, ?_⟩
  rw [h.objects_eq, offsetOf_address]
  exact (hs ▸ h.list).loan ho

theorem accept (h : Sound s c) (hp : p ≠ 0) (ho : offsetOf s m p ∈ c.loaned) :
    Sound s ⟨c.pool.Accept m p, c.loaned.erase (offsetOf s m p)⟩ := by
  have hlt := h.available_lt ho
  have := s.nElementsTotal.toNat_lt
  have heq : offsetOf c.pool m p = offsetOf s m p := by rw [offsetOf, h.objects_eq, offsetOf]
  rw [accept_eq hp, heq]
  refine ⟨h.eq ▸ rfl, ?_⟩
  simp only [SizeT.toNat_succ (show c.pool.nAvailable.toNat + 1 < 2 ^ 64 by omega)]
  exact h.list.accept ho

theorem next (hl : Laid segment s) (h : Sound s c) (hn : c.next a = some c') : Sound s c' := by
  cases a <;> simp only [Lending.next] at hn
  case loan m =>
    split at hn <;> obtain rfl := Option.some.inj hn
    case h_1 t ht =>
      have : t = c.pool := by
        simp only [Loan] at ht
        split at ht
        · cases ht
        · exact (Prod.mk.inj ht).right.symm
      exact this ▸ h
    case h_2 p t ht =>
      have hs := h.loan ht
      rwa [show offsetOf t m p = offsetOf s m p by rw [offsetOf, hs.objects_eq, offsetOf]]
  case accept m p =>
    rw [Option.ite_none_right_eq_some, Option.some.injEq] at hn
    obtain ⟨ho, rfl⟩ := hn
    have hne := h.address_ne_zero hl ho
    rw [show offsetOf c.pool m p = offsetOf s m p by rw [offsetOf, h.objects_eq, offsetOf]] at ho ⊢
    exact h.accept hne ho

end Sound

theorem sound {c : Lending} (hl : Laid segment s) (hn : s.nAvailable = s.nElementsTotal)
    (hp : s.pointers_alignedPtr = s.blocks) (h : (Lending.system segment s).Reachable c) : Sound s c := by
  refine System.Invariant.holds (I := Sound s) ⟨?_, fun _ hs hn => hs.next hl hn⟩ h
  rintro _ rfl
  refine ⟨rfl, ?_⟩
  have := FreeList.Holds.init s.blocks
  simpa [hn, hp, blocks] using this

-- The pool as seen by its users. `n` is the number of its blocks, which are `block` bytes each.
structure IsFreeList (segment n block : ℕ) (c : Lending) : Prop where
  offsets    : ((c.pool.pointers_alignedPtr.take c.pool.nAvailable.toNat ++ c.loaned).map
    UInt64.toNat).Perm ((List.range n).map (block * ·))
  once       : (c.pool.pointers_alignedPtr.take c.pool.nAvailable.toNat ++ c.loaned).Nodup
  handed_out : ∀ (m : Mapping segment) p s, c.pool.Loan m = (some p, s) →
    ∃ o, c.pool.pointers_alignedPtr[s.nAvailable.toNat]? = some o ∧ o ∉ c.loaned ∧
      p = m.address (c.pool.objects_alignedPtr + o)
  restored   : ∀ o ∈ c.loaned, ∀ m : Mapping segment,
    let s := c.pool.Accept m (m.address (c.pool.objects_alignedPtr + o))
    s.pointers_alignedPtr[c.pool.nAvailable.toNat]? = some o ∧
      s.nAvailable.toNat = c.pool.nAvailable.toNat + 1
  disjoint   : c.loaned.Pairwise fun o₁ o₂ =>
    o₁.toNat + block ≤ o₂.toNat ∨ o₂.toNat + block ≤ o₁.toNat
  null_iff   : ∀ m : Mapping segment, (c.pool.Loan m).1 = none ↔ c.loaned.length = n
  statistics : c.pool.statistics.nOutstanding.toNat = c.loaned.length ∧
    c.pool.statistics.nOutstanding.toNat + c.pool.statistics.nAvailable.toNat = n

theorem isFreeList {c : Lending} (hc : 0 < count) (hs : 0 < size)
    (hn : size.toNat * (n.toNat * count.toNat) < 2 ^ 64)
    (ha : (new n count).Allocate objects pointers size align = .ok s)
    (h : (Lending.system segment s).Reachable c) :
    IsFreeList segment n.toNat (size.toNat * count.toNat) c := by
  have ⟨hl, he, hcount, hsize, hav, hp⟩ := laid hc hs hn ha
  have hso := sound hl (hav.trans he.symm) hp h
  have hsum := hso.list.top_add_length
  have hlen := hso.list.length_eq
  have hnod := hso.list.nodup hl.blocks_nodup
  rw [blocks, List.length_map, List.length_range, he] at hsum hlen
  constructor
  case offsets =>
    have := hso.list.perm.map UInt64.toNat
    rwa [hl.blocks_toNat, hsize, hcount, he] at this
  case once => exact hnod
  case handed_out =>
    intro m p s' hp
    obtain ⟨_, hz⟩ | ⟨hpos, hz⟩ := loan_cases (m := m) (hso.count_eq ▸ hcount ▸ hc)
    case inl => simp [hz] at hp
    case inr =>
      have ⟨hs, o, ho⟩ := hso.getElem?_pred hpos
      rw [hz, ho, Option.getD_some] at hp
      obtain ⟨hq, rfl⟩ := Prod.mk.inj hp
      refine ⟨o, ho, (hs ▸ hso.list).not_mem_of_getElem? hl.blocks_nodup ho, ?_⟩
      exact eq_address <| Option.some.inj hq ▸ offsetOf_address
  case restored =>
    intro o ho m
    have hlt := hso.available_lt ho
    have := s.nElementsTotal.toNat_lt
    have heq : offsetOf c.pool m (m.address (c.pool.objects_alignedPtr + o)) = o := by
      rw [Mapping.address, ← UInt64.add_assoc]
      exact offsetOf_address
    rw [accept_eq (hso.address_ne_zero hl (heq.symm ▸ ho)), heq]
    refine ⟨?_, SizeT.toNat_succ (by omega)⟩
    simp [hlen, he ▸ hlt]
  case disjoint =>
    refine (List.nodup_append.mp hnod).right.left.imp_of_mem fun ho₁ ho₂ hne => ?_
    rw [← hsize, ← hcount]
    exact hl.disjoint (hso.list.mem_of_mem_out ho₁) (hso.list.mem_of_mem_out ho₂) hne
  case null_iff =>
    intro m
    obtain ⟨hpos, hz⟩ | ⟨hpos, hz⟩ := loan_cases (m := m) (hso.count_eq ▸ hcount ▸ hc)
    · simp only [hz, true_iff]
      simp only [hpos, UInt64.toNat_zero] at hsum
      omega
    · have := SizeT.toNat_pos_iff.mpr hpos
      simp only [hz, reduceCtorEq, false_iff]
      omega
  case statistics =>
    have hn : c.pool.nElementsTotal = n := he ▸ hso.eq ▸ rfl
    simp only [AllocatorState.statistics]
    rw [hn, UInt64.toNat_sub_of_le _ _ (UInt64.le_iff_toNat_le.mpr (by omega))]
    omega

theorem isFreeList_run : ∃ c : Lending,
    (c.loaned = [16] ∧ c.pool.pointers_alignedPtr = [0, 32, 32]) ∧ IsFreeList 4096 3 16 c := by
  let m₁ : Mapping 4096 := ⟨65536, by decide, by decide⟩
  let m₂ : Mapping 4096 := ⟨1048576, by decide, by decide⟩
  let objects : SegmentManager 4096 := .freeAt 2048 1024 (by decide)
  let pointers : SegmentManager 4096 := .freeAt 1024 1024 (by decide)
  have ⟨s, hs⟩ : ∃ s, (new 3 2).Allocate objects pointers 8 16 = .ok s := ⟨_, rfl⟩
  have ⟨c, hr, hq⟩ : ∃ c, ((Lending.system 4096 s).restrict fun _ _ => True).Reachable c ∧
      c.loaned = [16] ∧ c.pool.pointers_alignedPtr = [0, 32, 32] := by
    obtain rfl := Except.ok.inj hs
    exact System.exec_reachable rfl <| show Option.any _ (System.exec _ _ _ [
      .loan m₁, .loan m₂, .accept m₂ (m₂.address 2080)]) by decide +kernel
  exact ⟨c, hq, isFreeList (by decide) (by decide) (by decide) hs hr.of_restrict⟩

end IPC.AllocatorState
