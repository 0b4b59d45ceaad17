import InterprocessMemPool.Concurrency.Mutex
import InterprocessMemPool.MempoolHeap.ArrayPool.Basic
import InterprocessMemPool.MempoolHeap.Pool.Theorems.Partition

namespace MempoolHeap

variable {s s' : AllocatorState} {i ptr : ℕ} {p x : Address} {n count : SizeT}
variable {blocks pointers arrays : Allocator}

namespace AllocatorState

-- A pointer into a block has the number of the block.
theorem Laid.getElementNumber_inside (h : Laid s) (hi : i < s.nElementsTotal.toNat)
    (hx : x.toNat < s.sizeSharedT.toNat) :
    (s.GetElementNumber (s.rawAligned + s.offset i + x)).toNat = i := by
  have hadd : s.rawAligned + s.offset i + x - s.rawAligned = s.offset i + x := by
    rw [UInt64.add_assoc, UInt64.add_comm, UInt64.add_sub_cancel]
  have hlt : s.sizeSharedT.toNat * i + x.toNat < s.sizeSharedT.toNat * s.nElementsTotal.toNat :=
    calc s.sizeSharedT.toNat * i + x.toNat
      _ < s.sizeSharedT.toNat * (i + 1) := by rw [Nat.mul_succ]; omega
      _ ≤ _ := Nat.mul_le_mul_left _ hi
  have := h.total_le
  rw [GetElementNumber, hadd, UInt64.toNat_div, UInt64.toNat_add, h.offset i hi,
    Nat.mod_eq_of_lt (by omega), Nat.add_div_of_dvd_right (Nat.dvd_mul_right ..),
    Nat.mul_div_cancel_left _ (by omega), Nat.div_eq_of_lt hx, Nat.add_zero]

theorem mem_blocks_iff : p ∈ s.blocks ↔ ∃ i < s.nElementsTotal.toNat, s.rawAligned + s.offset i = p := by
  simp [blocks]

end AllocatorState

namespace SharedPointerArrayAllocator

open AllocatorState

variable {shared : SharedT} {type : ElementType} {a : SharedPointerArrayAllocator} {c : Config}
variable {l l' : Call} {h h' : Heap} {b : Bool} {made slice : Slice} {o : Outcome} {j : ℕ}

-- The block of the pool that a call has.
def Call.block : Call → Option Address
  | .constructing p _ _ | .holding p _ | .destroying p _ _ _ _ | .accepting p _ | .faulted p => some p
  | .entered | .returned _                                                                  => none

-- The slice of a call that is still at work with it.
def Call.live : Call → Option Slice
  | .constructing _ slice _ | .holding _ slice | .destroying _ _ slice _ _ => some slice
  | _                                                                      => none

-- The call has constructed the element, and has not destroyed it.
def Call.objects (ptr : ℕ) : Call → ℕ
  | .constructing _ slice next       => if slice.first ≤ ptr ∧ ptr < next then 1 else 0
  | .holding _ made                  => if made.first ≤ ptr ∧ ptr < made.last then 1 else 0
  | .destroying _ made _ next _      => if next ≤ ptr ∧ ptr < made.last then 1 else 0
  | _                                => 0

-- A call works with the slice that has the number of its block.
def Call.Sliced (a : SharedPointerArrayAllocator) (s : AllocatorState) : Call → Prop
  | .constructing p slice ptr       =>
    slice = a.slice (s.GetElementNumber p) ∧ slice.first ≤ ptr ∧ ptr ≤ slice.last
  | .holding p made                 => made = a.slice (s.GetElementNumber p)
  | .destroying p made slice ptr o =>
    slice = a.slice (s.GetElementNumber p) ∧ slice.first ≤ ptr ∧ ptr ≤ slice.last ∧
      made.first = slice.first ∧ made.last ≤ slice.last ∧ (o ≠ .threw → made = slice)
  | .faulted _                      => False
  | _                               => True

theorem Call.Sliced.slice_eq (h : l.Sliced a s) (hl : l.live = some slice) :
    ∃ p, l.block = some p ∧ slice = a.slice (s.GetElementNumber p) := by
  cases l <;> simp only [Call.live, Option.some.injEq, reduceCtorEq] at hl
  case constructing p _ _   => exact ⟨p, rfl, hl ▸ h.left⟩
  case holding p _          => exact ⟨p, rfl, hl ▸ h⟩
  case destroying p _ _ _ _ => exact ⟨p, rfl, hl ▸ h.left⟩

-- The slices are in memory, one after the other.
theorem slice_spec (hl : Laid s) (hs : 0 < s.sizeSharedT.toNat)
    (hr : s.nElementsTotal.toNat * a.count.toNat < 2 ^ 64) (hi : i < s.nElementsTotal.toNat) :
    a.slice (s.GetElementNumber (s.rawAligned + s.offset i)) =
      ⟨i * a.count.toNat, (i + 1) * a.count.toNat⟩ := by
  have hlt : i * a.count.toNat < 2 ^ 64 :=
    (Nat.mul_le_mul_right _ hi.le).trans_lt hr
  have hk := hl.getElementNumber hs hi
  simp only [SharedPointerArrayAllocator.slice, UInt64.toNat_mul, hk, Nat.mod_eq_of_lt hlt,
    Nat.succ_mul]

theorem allocate_of_new (hn : new shared type n count blocks pointers arrays = a) (hs : a.state = some s) :
    (AllocatorState.new n).Allocate blocks pointers shared.size shared.align = s ∧ s.initialized := by
  subst hn
  simp only [new, Option.ite_none_right_eq_some, Option.some.injEq] at hs
  obtain ⟨hi, rfl⟩ := hs
  exact ⟨rfl, hi⟩

theorem rawObjects_of_new (hn : new shared type n count blocks pointers arrays = a) :
    (RawMemory.new (n * count)).Allocate arrays type.size type.align = (a.rawObjects, a.rawAligned) := by
  subst hn
  rfl

theorem room_of_new (hn : new shared type n count blocks pointers arrays = a) :
    a.count = count ∧ a.room type < 2 ^ 64 := by
  refine ⟨hn ▸ rfl, ?_⟩
  simp only [room]
  split
  case isTrue => decide
  case isFalse hz =>
    have hm := (rawMemory_of_allocate rfl (rawObjects_of_new hn) hz).left
    exact (Nat.div_le_self _ _).trans_lt (hm.trans (by decide))

-- There is room for all arrays, unless there is no memory for them or their size wraps around.
theorem room_of_fits (hn : new shared type n count blocks pointers arrays = a)
    (hz : a.rawAligned ≠ 0) (hw : n.toNat * count.toNat * type.size.toNat < 2 ^ 64) :
    n.toNat * count.toNat ≤ a.room type := by
  have hm := (rawMemory_of_allocate rfl (rawObjects_of_new hn) hz).right.right
  have hc : n.toNat * count.toNat < 2 ^ 64 :=
    (Nat.le_mul_of_pos_right _ type.pos).trans_lt hw
  simp only [RawMemory.new, UInt64.toNat_mul, Nat.mod_eq_of_lt hc, Nat.mod_eq_of_lt hw] at hm
  rw [room, if_neg hz]
  exact (Nat.le_div_iff_mul_le type.pos).mpr hm

-- What an atomic step does, as long as the allocator only hands out its own blocks, and there is memory
-- for all elements.
inductive Effect (a : SharedPointerArrayAllocator) (s : AllocatorState) (h : Heap) :
    Bool → Call → Heap → Call → Prop
  | refuse {b : Bool} : Effect a s h b .entered h (.returned .null)
  | loan {b : Bool} {p : Address} {slice : Slice} {pool pool' : AllocatorState}
    (hp : h.allocator.state = some pool) (hl : pool.Loan = .ok (p, pool'))
    (hi : slice = a.slice (s.GetElementNumber p)) :
    Effect a s h b .entered { h with allocator.state := some pool' }
      (.constructing p slice slice.first)
  | construct {p : Address} {slice : Slice} {ptr : ℕ} (hlt : ptr < slice.last) :
    Effect a s h false (.constructing p slice ptr)
      { h with events := h.events ++ [.constructed ptr] } (.constructing p slice (ptr + 1))
  | throw {p : Address} {slice made : Slice} {ptr : ℕ} (hlt : ptr < slice.last)
    (hi : made = a.slice (s.GetElementNumber p)) :
    Effect a s h true (.constructing p slice ptr) h
      (.destroying p ⟨slice.first, ptr⟩ made made.first .threw)
  | finish {b : Bool} {p : Address} {slice : Slice} {ptr : ℕ} (hle : slice.last ≤ ptr) :
    Effect a s h b (.constructing p slice ptr) h (.holding p slice)
  | release {b : Bool} {p : Address} {made slice : Slice}
    (hi : slice = a.slice (s.GetElementNumber p)) :
    Effect a s h b (.holding p made) h (.destroying p made slice slice.first .released)
  | destroy {b : Bool} {p : Address} {made slice : Slice} {ptr : ℕ} {o : Outcome}
    (hlt : ptr < slice.last) : Effect a s h b (.destroying p made slice ptr o)
      { h with events := h.events ++ [.destroyed ptr] } (.destroying p made slice (ptr + 1) o)
  | accept {b : Bool} {p : Address} {made slice : Slice} {ptr : ℕ} {o : Outcome}
    (hle : slice.last ≤ ptr) :
    Effect a s h b (.destroying p made slice ptr o) h (.accepting p o)
  | push {b : Bool} {p : Address} {o : Outcome} {pool : AllocatorState}
    (hp : h.allocator.state = some pool) :
    Effect a s h b (.accepting p o) { h with allocator.state := some (pool.Accept p) } (.returned o)

-- The allocator only changes what its pool keeps count of, and the blocks that it has lent are those of
-- the calls.
structure Sound (a : SharedPointerArrayAllocator) (s : AllocatorState) (c : Config) : Prop where
  pool   : ∃ pool, c.shared.allocator = { a with state := some pool } ∧
    pool = { s with
      ptrsAligned            := pool.ptrsAligned
      nAvailable             := pool.nAvailable
      historic_min_available := pool.historic_min_available } ∧
    FreeList.Holds s.blocks pool.ptrsAligned pool.nAvailable.toNat (c.held Call.block)
  sliced : ∀ l ∈ c.calls, l.Sliced a s

-- The blocks and the elements are all in memory.
structure Placed (shared : SharedT) (type : ElementType) (a : SharedPointerArrayAllocator)
    (s : AllocatorState) : Prop where
  laid    : Laid s
  object  : shared.object.toNat < s.sizeSharedT.toNat
  room    : s.nElementsTotal.toNat * a.count.toNat ≤ a.room type
  room_lt : a.room type < 2 ^ 64

namespace Placed

theorem size_pos (h : Placed shared type a s) : 0 < s.sizeSharedT.toNat :=
  Nat.zero_lt_of_lt h.object

-- Where the pointer that `GetElementNumber` gets points to within the block does not matter.
theorem getElementNumber_eq (h : Placed shared type a s) (hp : p ∈ s.blocks) :
    s.GetElementNumber (p + shared.object) = s.GetElementNumber p := by
  obtain ⟨i, hi, rfl⟩ := mem_blocks_iff.mp hp
  exact UInt64.toNat_inj.mp <|
    (h.laid.getElementNumber_inside hi h.object).trans (h.laid.getElementNumber h.size_pos hi).symm

theorem slice_eq (h : Placed shared type a s) (hi : i < s.nElementsTotal.toNat) :
    a.slice (s.GetElementNumber (s.rawAligned + s.offset i)) =
      ⟨i * a.count.toNat, (i + 1) * a.count.toNat⟩ :=
  slice_spec h.laid h.size_pos (h.room.trans_lt h.room_lt) hi

theorem slice_le_total (h : Placed shared type a s) (hp : p ∈ s.blocks) :
    (a.slice (s.GetElementNumber p)).last ≤ s.nElementsTotal.toNat * a.count.toNat := by
  obtain ⟨i, hi, rfl⟩ := mem_blocks_iff.mp hp
  rw [h.slice_eq hi]
  exact Nat.mul_le_mul_right _ hi

theorem slice_le (h : Placed shared type a s) (hp : p ∈ s.blocks) :
    (a.slice (s.GetElementNumber p)).last ≤ a.room type :=
  (h.slice_le_total hp).trans h.room

theorem first_le_last : (a.slice x).first ≤ (a.slice x).last :=
  Nat.le_add_right ..

end Placed

-- The block that is handed out next is one of the pool that is free.
theorem loan_spec {pool pool' : AllocatorState} {out : List Address}
    (hf : FreeList.Holds s.blocks pool.ptrsAligned pool.nAvailable.toNat out)
    (h : pool.Loan = .ok (p, pool')) :
    p ∈ s.blocks ∧ pool' = { pool with
      nAvailable             := pool'.nAvailable
      historic_min_available := pool'.historic_min_available } ∧
    FreeList.Holds s.blocks pool'.ptrsAligned pool'.nAvailable.toNat (p :: out) := by
  obtain ⟨_, hz⟩ | ⟨hpos, hz⟩ := loan_cases (s := pool)
  case inl => simp [hz] at h
  case inr =>
    have hn := SizeT.toNat_pos_iff.mpr hpos
    have hs := SizeT.toNat_pred hn
    have htop := hf.top_le
    obtain ⟨q, hq⟩ : ∃ q, pool.ptrsAligned[(pool.nAvailable - 1).toNat]? = some q :=
      ⟨_, List.getElem?_eq_getElem (by omega)⟩
    rw [show pool.nAvailable.toNat = (pool.nAvailable - 1).toNat + 1 by omega] at hf
    rw [hz, hq, Option.getD_some] at h
    obtain ⟨rfl, rfl⟩ := Prod.mk.inj (Except.ok.inj h)
    exact ⟨hf.mem_of_getElem? hq, rfl, hf.loan hq⟩

theorem accept_spec {pool : AllocatorState} {out : List Address}
    (hf : FreeList.Holds s.blocks pool.ptrsAligned pool.nAvailable.toNat out) (hp : p ∈ out) :
    FreeList.Holds s.blocks (pool.Accept p).ptrsAligned (pool.Accept p).nAvailable.toNat
      (out.erase p) := by
  have hlt := hf.top_lt hp
  have := s.nElementsTotal.toNat_lt
  rw [hf.length_eq, AllocatorState.blocks, List.length_map, List.length_range] at hlt
  have hsucc : (pool.nAvailable + 1).toNat = pool.nAvailable.toNat + 1 := SizeT.toNat_succ (by omega)
  simp only [AllocatorState.Accept, hsucc]
  exact hf.accept hp

namespace Sound

variable (hs : Sound a s c)

include hs

theorem destructed_eq (hpl : Placed shared type a s) (hi : c.calls[i]? = some l)
    (hp : l.block = some p) : c.shared.allocator.destructed p made o =
    .destroying p made (a.slice (s.GetElementNumber p)) (a.slice (s.GetElementNumber p)).first o := by
  obtain ⟨pool, ha, he, hf⟩ := hs.pool
  have hm := hf.mem_of_mem_out (Program.Config.mem_held hi hp)
  have hne := hpl.laid.ne_zero hpl.size_pos hm
  have hidx : pool.GetElementNumber p = s.GetElementNumber p := by
    rw [he]
    rfl
  simp [destructed, ha, AllocatorState.destructed, hne, hidx, SharedPointerArrayAllocator.slice]

theorem effect (hpl : Placed shared type a s) (hi : c.calls[i]? = some l)
    (h : l.step shared type b c.shared = some (h', l')) :
    Effect a s c.shared b l h' l' := by
  obtain ⟨pool, ha, he, hf⟩ := hs.pool
  cases l <;> simp only [Call.step, reduceCtorEq] at h
  case entered =>
    simp only [ha] at h
    split at h
    case h_1 =>
      obtain ⟨rfl, rfl⟩ := Prod.mk.inj (Option.some.inj h)
      exact .refuse
    case h_2 q pool' hq =>
      obtain ⟨hm, he', _⟩ := loan_spec hf hq
      have hidx (x : Address) : pool'.GetElementNumber x = s.GetElementNumber x := by
        rw [he', he]
        rfl
      obtain ⟨rfl, rfl⟩ := Prod.mk.inj (Option.some.inj h)
      rw [hidx, hpl.getElementNumber_eq hm]
      have hle := hpl.slice_le hm
      have := Effect.loan (b := b) (a := a) (s := s) (by rw [ha]) hq rfl
      rw [ha] at this
      split
      case isTrue       => exact this
      case isFalse hne  => exact absurd hle hne
  case constructing p slice ptr =>
    split at h
    case isFalse hle =>
      obtain ⟨rfl, rfl⟩ := Prod.mk.inj (Option.some.inj h)
      exact .finish (not_lt.mp hle)
    case isTrue hlt =>
      split at h <;> obtain ⟨rfl, rfl⟩ := Prod.mk.inj (Option.some.inj h)
      case isTrue hb =>
        rw [hs.destructed_eq hpl hi rfl, hb]
        exact .throw hlt rfl
      case isFalse hb =>
        rw [Bool.not_eq_true] at hb
        exact hb ▸ .construct hlt
  case holding p made =>
    obtain ⟨rfl, rfl⟩ := Prod.mk.inj (Option.some.inj h)
    rw [hs.destructed_eq hpl hi rfl]
    exact .release rfl
  case destroying =>
    split at h <;> obtain ⟨rfl, rfl⟩ := Prod.mk.inj (Option.some.inj h)
    case isTrue hlt  => exact .destroy hlt
    case isFalse hle => exact .accept (not_lt.mp hle)
  case accepting p o =>
    obtain ⟨rfl, rfl⟩ := Prod.mk.inj (Option.some.inj h)
    have := Effect.push (a := a) (b := b) (s := s) (h := c.shared) (p := p) (o := o) (by rw [ha])
    rw [ha] at this ⊢
    exact this

theorem enter (hl : l = .entered) : Sound a s (c.enter l) := by
  subst hl
  obtain ⟨pool, ha, he, hf⟩ := hs.pool
  refine ⟨⟨pool, ha, he, ?_⟩, ?_⟩
  · rw [Program.Config.held_enter]
    simpa [Call.block] using hf
  · simp only [Program.Config.enter, List.mem_append, List.mem_singleton]
    rintro _ (h | rfl)
    · exact hs.sliced _ h
    · trivial

theorem sliced_after {l₁ : Call} (hl : l'.Sliced a s) (hm : l₁ ∈ (c.after i l h' l').calls) :
    l₁.Sliced a s := by
  obtain ⟨j, hj⟩ := List.mem_iff_getElem?.mp hm
  obtain ⟨_, rfl⟩ | ⟨_, hj⟩ := Program.Config.after_calls_get? hj
  · exact hl
  · exact hs.sliced _ (List.mem_of_getElem? hj)

-- A step that leaves the pool as it is.
theorem keep {es : List Event} (hi : c.calls[i]? = some l) (hb : l'.block = l.block) (hl : l'.Sliced a s) :
    Sound a s (c.after i l { c.shared with events := es } l') := by
  obtain ⟨pool, ha, he, hf⟩ := hs.pool
  exact ⟨⟨pool, ha, he, hf.congr (Program.Config.held_after_of_eq hi hb)⟩,
    fun _ => hs.sliced_after hl⟩

theorem mem_blocks (hi : c.calls[i]? = some l) (hp : l.block = some p) : p ∈ s.blocks := by
  obtain ⟨pool, ha, he, hf⟩ := hs.pool
  exact hf.mem_of_mem_out (Program.Config.mem_held hi hp)

theorem after (hi : c.calls[i]? = some l) (e : Effect a s c.shared b l h' l') :
    Sound a s (c.after i l h' l') := by
  have hl := hs.sliced _ (List.mem_of_getElem? hi)
  cases e
  case refuse => exact hs.keep hi rfl trivial
  case loan p slice pool pool' hp hlo hsl =>
    obtain ⟨pool₁, ha, he, hf⟩ := hs.pool
    obtain rfl : pool₁ = pool := by simpa [ha] using hp
    obtain ⟨_, he', hf'⟩ := loan_spec hf hlo
    refine ⟨⟨pool', by simp [ha], ?_, ?_⟩, fun _ => hs.sliced_after ?_⟩
    · rw [he', he]
    · exact hf'.congr (Program.Config.held_after_gain hi rfl rfl)
    · exact ⟨hsl, le_refl _, hsl ▸ Placed.first_le_last⟩
  case construct hlt => exact hs.keep hi rfl ⟨hl.left, hl.right.left.trans (Nat.le_succ _), hlt⟩
  case throw hlt hm =>
    subst hm
    obtain ⟨rfl, hl⟩ := hl
    exact hs.keep hi rfl ⟨rfl, le_refl _, Placed.first_le_last, rfl, hlt.le, fun h => absurd rfl h⟩
  case finish => exact hs.keep hi rfl hl.left
  case release hsl =>
    obtain rfl := hl
    exact hs.keep hi rfl ⟨hsl, le_refl _, hsl ▸ Placed.first_le_last, by rw [hsl], by rw [hsl],
      fun _ => hsl.symm⟩
  case destroy hlt =>
    exact hs.keep hi rfl ⟨hl.left, hl.right.left.trans (Nat.le_succ _), hlt, hl.right.right.right⟩
  case accept => exact hs.keep hi rfl trivial
  case push p o pool hp =>
    obtain ⟨pool₁, ha, he, hf⟩ := hs.pool
    obtain rfl : pool₁ = pool := by simpa [ha] using hp
    have hf' := accept_spec hf (Program.Config.mem_held hi rfl)
    refine ⟨⟨pool₁.Accept p, by simp [ha], ?_, ?_⟩, fun _ => hs.sliced_after trivial⟩
    · rw [AllocatorState.Accept, he]
    · exact hf'.congr (Program.Config.held_after_lose hi rfl rfl)

theorem count_le_one (hpl : Placed shared type a s) : (c.held Call.block).count p ≤ 1 := by
  obtain ⟨pool, ha, he, hf⟩ := hs.pool
  have hn := hf.nodup (hpl.laid.blocks_nodup hpl.size_pos)
  exact List.nodup_iff_count_le_one.mp (List.nodup_append.mp hn).right.left p

end Sound

-- The block that an element belongs to.
def blockAt (a : SharedPointerArrayAllocator) (s : AllocatorState) (ptr : ℕ) : Address :=
  s.rawAligned + s.offset (ptr / a.count.toNat)

theorem Placed.eq_blockAt (h : Placed shared type a s) (hp : p ∈ s.blocks)
    (hf : (a.slice (s.GetElementNumber p)).first ≤ ptr)
    (hl : ptr < (a.slice (s.GetElementNumber p)).last) : p = blockAt a s ptr := by
  obtain ⟨i, hi, rfl⟩ := mem_blocks_iff.mp hp
  rw [h.slice_eq hi] at hf hl
  rw [blockAt, Nat.div_eq_of_lt_le hf hl]

section

variable (hpl : Placed shared type a s) (hs : Sound a s c) (hi : c.calls[i]? = some l)

include hpl hs hi

theorem block_of_live (slice : Slice) (ptr : ℕ) (hl : l.live = some slice) (hf : slice.first ≤ ptr)
    (hlt : ptr < slice.last) :
    l.block = some (blockAt a s ptr) := by
  obtain ⟨p, hp, rfl⟩ := (hs.sliced _ (List.mem_of_getElem? hi)).slice_eq hl
  exact hp.trans <| congrArg some <| hpl.eq_blockAt (hs.mem_blocks hi hp) hf hlt

theorem objects_le : l.objects ptr ≤ if l.block = some (blockAt a s ptr) then 1 else 0 := by
  have hsl := hs.sliced _ (List.mem_of_getElem? hi)
  have hb (slice) := block_of_live hpl hs hi slice ptr
  cases l <;> simp only [Call.objects, Nat.zero_le]
  case constructing p slice next =>
    split
    case isFalse   => exact Nat.zero_le _
    case isTrue hp => rw [if_pos (hb _ rfl hp.left (hp.right.trans_le hsl.right.right))]
  case holding p made =>
    split
    case isFalse   => exact Nat.zero_le _
    case isTrue hp => rw [if_pos (hb _ rfl hp.left hp.right)]
  case destroying p made slice next o =>
    split
    case isFalse   => exact Nat.zero_le _
    case isTrue hp =>
      have hlt := hp.right.trans_le hsl.right.right.right.right.left
      rw [if_pos (hb _ rfl (hsl.right.left.trans hp.left) hlt)]

end

theorem live_disjoint {slice' : Slice} (hpl : Placed shared type a s) (hs : Sound a s c) (hne : i ≠ j)
    (hi : c.calls[i]? = some l) (hj : c.calls[j]? = some l') (hl : l.live = some slice)
    (hl' : l'.live = some slice') :
    Disjoint (Set.Ico slice.first slice.last) (Set.Ico slice'.first slice'.last) := by
  refine Set.disjoint_left.mpr fun ptr h h' => ?_
  have hb := block_of_live hpl hs hi _ _ hl h.left h.right
  have hb' := block_of_live hpl hs hj _ _ hl' h'.left h'.right
  have hle := Program.Config.add_le_total
    (w := fun l => if l.block = some (blockAt a s ptr) then 1 else 0) hi hj hne
  rw [← Program.Config.count_held, if_pos hb, if_pos hb'] at hle
  have := hs.count_le_one hpl (p := blockAt a s ptr)
  omega

theorem sound (hn : new shared type n count blocks pointers arrays = a)
    (hw : shared.size.toNat * n.toNat < 2 ^ 64) (hr : n.toNat * count.toNat ≤ a.room type)
    (hs : a.state = some s) (h : (system shared type a).Reachable c) :
    Placed shared type a s ∧ Sound a s c := by
  obtain ⟨ha, hi⟩ := allocate_of_new hn hs
  obtain ⟨hready, hlaid⟩ := laid ha hi hw
  obtain ⟨hc, hlt⟩ := room_of_new hn
  have hobj : shared.object.toNat < s.sizeSharedT.toNat := by
    have := shared.inside
    rw [hready.size]
    omega
  have hpl : Placed shared type a s := ⟨hlaid, hobj, by rwa [hready.total, hc], hlt⟩
  refine ⟨hpl, ?_⟩
  refine Program.invariant (I := Sound a s) ?_ ?_ ?_ |>.holds h
  · rintro _ rfl
    have := FreeList.Holds.init s.blocks
    refine ⟨⟨s, by simp [← hs], rfl, ?_⟩, by simp⟩
    simpa [Program.Config.held, hready.ptrs, hready.avail, hready.total, AllocatorState.blocks] using this
  · intro c l _ h hl
    exact h.enter (by simpa [program] using hl)
  · intro c i b l h' l' _ h hi hst
    exact h.after hi (h.effect hpl hi hst)

-- Without a pool there is nothing to hand out.
theorem idle (hs : a.state = none) (h : (system shared type a).Reachable c) :
    c.shared = ⟨a, []⟩ ∧ ∀ l ∈ c.calls, l = .entered ∨ l = .returned .null := by
  refine Program.invariant
    (I := fun c => c.shared = ⟨a, []⟩ ∧ ∀ l ∈ c.calls, l = .entered ∨ l = .returned .null)
    ?_ ?_ ?_ |>.holds h
  · rintro _ rfl
    simp
  · intro c l _ h hl
    have hl : l = .entered := by simpa [program] using hl
    refine ⟨h.left, ?_⟩
    simp only [Program.Config.enter, List.mem_append, List.mem_singleton]
    rintro _ (hm | rfl)
    · exact h.right _ hm
    · exact .inl hl
  · intro c i b l h' l' _ h hi hst
    obtain rfl | rfl := h.right l (List.mem_of_getElem? hi)
    case inr => cases hst
    case inl =>
      simp only [program, Call.step, h.left, hs, Option.some.injEq, Prod.mk.injEq] at hst
      obtain ⟨rfl, rfl⟩ := hst
      refine ⟨rfl, fun l₁ hm => ?_⟩
      obtain ⟨j, hj⟩ := List.mem_iff_getElem?.mp hm
      obtain ⟨_, rfl⟩ | ⟨_, hj⟩ := Program.Config.after_calls_get? hj
      · exact .inr rfl
      · exact h.right _ (List.mem_of_getElem? hj)

end SharedPointerArrayAllocator
end MempoolHeap
