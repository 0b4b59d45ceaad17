import InterprocessMemPool.MempoolHeap.ArrayPool.Theorems.Slices

namespace MempoolHeap.SharedPointerArrayAllocator

open AllocatorState

variable {s : AllocatorState} {i ptr : ℕ} {p : Address} {n count : SizeT}
variable {blocks pointers arrays : Allocator} {shared : SharedT} {type : ElementType}
variable {a : SharedPointerArrayAllocator} {c : Config} {l l' : Call} {h' : Heap} {b : Bool}
variable {made slice : Slice} {o : Outcome}

-- What holds of the slices in every run, whether a constructor throws or not.
structure Sliced (shared : SharedT) (c : Config) : Prop where
  defined  : ∀ p, .faulted p ∉ c.calls
  index    : ∀ s ∈ c.shared.allocator.state, ∀ p ∈ c.held Call.block,
    s.GetElementNumber (p + shared.object) = s.GetElementNumber p
  same     : ∀ p made slice ptr o, .destroying p made slice ptr o ∈ c.calls →
    slice.first = made.first ∧ made.last ≤ slice.last ∧ (o ≠ .threw → slice = made)
  disjoint : ∀ {i j : ℕ} {l l' : Call} {slice slice' : Slice}, i ≠ j → c.calls[i]? = some l →
    c.calls[j]? = some l' → l.live = some slice → l'.live = some slice' →
    Disjoint (Set.Ico slice.first slice.last) (Set.Ico slice'.first slice'.last)

-- Every element has been destroyed as often as it has been constructed, except for those that a call
-- has constructed and not destroyed yet, of which each belongs to one call.
structure Balanced (c : Config) : Prop where
  count_eq : ∀ ptr, c.shared.events.count (.constructed ptr) =
    c.shared.events.count (.destroyed ptr) + c.total (Call.objects ptr)
  once     : ∀ ptr, c.total (Call.objects ptr) ≤ 1

theorem Sound.slices (hpl : Placed shared type a s) (hs : Sound a s c) : Sliced shared c := by
  obtain ⟨pool, ha, he, hf⟩ := hs.pool
  constructor
  case defined => exact fun p hp => hs.sliced _ hp
  case index =>
    intro pool' hp p hm
    obtain rfl : pool = pool' := by simpa [ha] using hp
    have := hpl.getElementNumber_eq (hf.mem_of_mem_out hm)
    rw [he]
    exact this
  case same =>
    intro p made slice ptr o hm
    obtain ⟨_, _, _, h₁, h₂, h₃⟩ := hs.sliced _ hm
    exact ⟨h₁.symm, h₂, fun ho => (h₃ ho).symm⟩
  case disjoint => exact live_disjoint hpl hs

theorem Sound.once (hpl : Placed shared type a s) (hs : Sound a s c) (ptr : ℕ) :
    c.total (Call.objects ptr) ≤ 1 := by
  refine le_trans ?_ (hs.count_le_one hpl (p := blockAt a s ptr))
  rw [Program.Config.count_held]
  refine List.sum_le_sum fun l hl => ?_
  obtain ⟨i, hi⟩ := List.mem_iff_getElem?.mp hl
  exact objects_le hpl hs hi

-- The number of free blocks.
def free (a : SharedPointerArrayAllocator) : ℕ :=
  a.state.elim 0 (·.nAvailable.toNat)

theorem Sound.free_add (hs : Sound a s c) :
    c.shared.allocator.free + (c.held Call.block).length = s.nElementsTotal.toNat := by
  obtain ⟨pool, ha, he, hf⟩ := hs.pool
  have := hf.top_add_length
  rw [AllocatorState.blocks, List.length_map, List.length_range] at this
  simpa [free, ha] using this

-- The action is the construction of an element that throws.
def Throws (c : Config) : Program.Action Call Bool → Prop
  | .enter _      => False
  | .run i throws => throws ∧ c.calls[i]?.any fun
    | .constructing _ slice ptr => ptr < slice.last
    | _                         => false

instance (a : Program.Action Call Bool) : Decidable (Throws c a) :=
  match a with
  | .enter _      => inferInstanceAs (Decidable False)
  | .run _ throws => inferInstanceAs (Decidable (throws ∧ _))

-- No constructor has thrown so far, and no element is out of balance.
structure Steady (c : Config) : Prop where
  unthrown : ∀ p made slice ptr, .destroying p made slice ptr .threw ∉ c.calls
  count_eq : ∀ ptr, c.shared.events.count (.constructed ptr) =
    c.shared.events.count (.destroyed ptr) + c.total (Call.objects ptr)

theorem Steady.ne_threw {next : ℕ} (h : Steady c)
    (hi : c.calls[i]? = some (.destroying p made slice next o)) : o ≠ .threw := by
  rintro rfl
  exact h.unthrown _ _ _ _ (List.mem_of_getElem? hi)

theorem steady_of_effect (hs : Sound a s c) (h : Steady c) (hi : c.calls[i]? = some l)
    (e : Effect a s c.shared b l h' l') (hc : ¬Throws c (.run i b)) :
    Steady (c.after i l h' l') := by
  have hl := hs.sliced _ (List.mem_of_getElem? hi)
  have tally (ptr : ℕ) := Program.Config.total_after (Call.objects ptr) h' l' hi
  constructor
  case unthrown =>
    intro p made slice ptr hm
    obtain ⟨j, hj⟩ := List.mem_iff_getElem?.mp hm
    obtain ⟨_, rfl⟩ | ⟨_, hj⟩ := Program.Config.after_calls_get? hj
    case inr => exact h.unthrown _ _ _ _ (List.mem_of_getElem? hj)
    case inl =>
      cases e
      case throw hlt _ => exact hc ⟨rfl, by simpa [hi] using hlt⟩
      case destroy     => exact h.ne_threw hi rfl
  case count_eq =>
    intro ptr
    have heq := h.count_eq ptr
    have ht := tally ptr
    cases e <;> simp only [Call.objects, Program.Config.after_shared, List.count_append, List.count_cons,
      List.count_nil, beq_iff_eq, Event.constructed.injEq, Event.destroyed.injEq, reduceCtorEq, if_false,
      Nat.add_zero] at ht ⊢
    case throw hlt _ => exact absurd ⟨rfl, by simpa [hi] using hlt⟩ hc
    case refuse | push => omega
    case loan        => grind
    case construct   => grind [Call.Sliced]
    case finish      => grind [Call.Sliced]
    case release     => grind [Call.Sliced]
    case destroy     =>
      have := hl.right.right.right.right.right (h.ne_threw hi)
      grind [Call.Sliced]
    case accept      =>
      have := hl.right.right.right.right.right (h.ne_threw hi)
      grind [Call.Sliced]

theorem steady (hpl : Placed shared type a s)
    (hs : ∀ {c}, (system shared type a).Reachable c → Sound a s c)
    (h : ((system shared type a).restrict (¬Throws · ·)).Reachable c) : Steady c := by
  refine Program.invariant_restrict (I := Steady) ?_ ?_ ?_ |>.holds h
  · rintro _ rfl
    constructor <;> simp [Program.Config.total]
  · intro c l hr h _ hl
    obtain rfl : l = .entered := by simpa [program] using hl
    constructor
    case unthrown =>
      intro p made slice ptr hm
      simp only [Program.Config.enter, List.mem_append, List.mem_singleton, reduceCtorEq, or_false] at hm
      exact h.unthrown _ _ _ _ hm
    case count_eq => simpa [Call.objects] using h.count_eq
  · intro c i b l h' l' hr h hc hi hst
    have hs := hs hr.of_restrict
    exact steady_of_effect hs h hi (hs.effect hpl hi hst) hc

-- The slices are sound in every run, and so is the number of free blocks. The elements are in balance as
-- long as no constructor throws.
theorem allocate_raw_balanced (hn : new shared type n count blocks pointers arrays = a)
    (hw : a.state.isSome → shared.size.toNat * n.toNat < 2 ^ 64) (hr : n.toNat * count.toNat ≤ a.room type) :
    (∀ c, (system shared type a).Reachable c → Sliced shared c ∧
      ∀ c', (system shared type a).Reachable c' → c'.calls = c.calls ++ [.returned .threw] →
        c'.shared.allocator.free = c.shared.allocator.free) ∧
    ∀ c, ((system shared type a).restrict (¬Throws · ·)).Reachable c → Balanced c := by
  cases hs : a.state
  case none =>
    have hi {c : Config} (h : (system shared type a).Reachable c) := idle hs h
    constructor
    case left =>
      intro c h
      have ⟨hsh, hl⟩ := hi h
      have hb (l : Call) (hm : l ∈ c.calls) : l.block = none ∧ l.live = none := by
        obtain rfl | rfl := hl l hm <;> exact ⟨rfl, rfl⟩
      refine ⟨⟨fun p hp => ?_, by simp [hsh, hs], fun p made slice ptr o hm => ?_, ?_⟩, fun c' h' _ => ?_⟩
      · exact absurd (hb _ hp).left (by simp [Call.block])
      · exact absurd (hb _ hm).left (by simp [Call.block])
      · intro i j l l' slice slice' _ hi _ hl
        simp [(hb _ (List.mem_of_getElem? hi)).right] at hl
      · rw [hsh, (hi h').left]
    case right =>
      intro c h
      have ⟨hsh, hl⟩ := hi h.of_restrict
      have hz (ptr : ℕ) : c.total (Call.objects ptr) = 0 := by
        refine Program.Config.total_eq_zero_iff.mpr fun l hm => ?_
        obtain rfl | rfl := hl l hm <;> rfl
      exact ⟨fun ptr => by simp [hsh, hz], fun ptr => by simp [hz]⟩
  case some s =>
    have hso {c} := sound (c := c) hn (hw (by simp [hs])) hr hs
    constructor
    case left =>
      intro c h
      refine ⟨(hso h).right.slices (hso h).left, fun c' h' he => ?_⟩
      have h₁ := (hso h).right.free_add
      have h₂ := (hso h').right.free_add
      have : c'.held Call.block = c.held Call.block := by
        simp [Program.Config.held, he, Call.block]
      rw [this] at h₂
      omega
    case right =>
      intro c h
      have hpl := (hso h.of_restrict).left
      have hst := steady hpl (fun h => (hso h).right) h
      exact ⟨hst.count_eq, (hso h.of_restrict).right.once hpl⟩

-- An allocator with 2048 bytes at the address 16384.
def top : Allocator :=
  .freeAt 16384 2048 (by decide) (by decide) (by decide)

def sharedT : SharedT where
  size   := 32
  align  := 8
  object := 16
  inside := by decide

def elementType : ElementType where
  size  := 8
  align := 8
  pos   := by decide

-- Two arrays of two elements each. One is handed back while the other one is constructed.
theorem allocate_raw_balanced_run : ∃ c : Config, Sliced sharedT c ∧ Balanced c ∧
    c.calls = [.destroying 4128 ⟨2, 4⟩ ⟨2, 4⟩ 3 .released, .constructing 4096 ⟨0, 2⟩ 2] ∧
    c.shared.events =
      [.constructed 2, .constructed 3, .constructed 0, .destroyed 2, .constructed 1] := by
  obtain ⟨c, h, hc⟩ : ∃ c,
      ((system sharedT elementType (new sharedT elementType 2 2 low high top)).restrict (¬Throws · ·)).Reachable c ∧
        c.calls = [.destroying 4128 ⟨2, 4⟩ ⟨2, 4⟩ 3 .released, .constructing 4096 ⟨0, 2⟩ 2] ∧
        c.shared.events =
          [.constructed 2, .constructed 3, .constructed 0, .destroyed 2, .constructed 1] :=
    Program.exec_reachable rfl <| show Option.any _ (System.exec _ _ _ [
      .enter .entered, .run 0 false, .run 0 false, .run 0 false, .run 0 false, .enter .entered,
      .run 1 false, .run 1 false, .run 0 false, .run 0 false, .run 1 false]) by decide +kernel
  have hb := allocate_raw_balanced (show new sharedT elementType 2 2 low high top = _ from rfl)
    (fun _ => by decide) (by decide +kernel)
  exact ⟨c, (hb.left c h.of_restrict).left, hb.right c h, hc⟩

-- The constructor of the second element throws.
theorem not_balanced : ∃ c : Config,
    (system sharedT elementType (new sharedT elementType 2 2 low high top)).Reachable c ∧ ¬Balanced c := by
  obtain ⟨c, h, he⟩ : ∃ c,
      ((system sharedT elementType (new sharedT elementType 2 2 low high top)).restrict fun _ _ => True).Reachable c ∧
      c.calls = [.returned .threw] ∧ c.shared.events = [.constructed 2, .destroyed 2, .destroyed 3] :=
    Program.exec_reachable rfl <| show Option.any _ (System.exec _ _ _ [
      .enter .entered, .run 0 false, .run 0 false, .run 0 true, .run 0 false, .run 0 false,
      .run 0 false, .run 0 false]) by decide +kernel
  refine ⟨c, h.of_restrict, fun hb => ?_⟩
  have := hb.count_eq 3
  simp [he] at this
  omega

end MempoolHeap.SharedPointerArrayAllocator
