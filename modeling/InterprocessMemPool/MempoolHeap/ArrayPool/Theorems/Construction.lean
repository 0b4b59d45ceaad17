import InterprocessMemPool.MempoolHeap.ArrayPool.Construction
import InterprocessMemPool.MempoolIPC.MemPool.Theorems.Construction

namespace MempoolHeap.SharedPointerArrayAllocator

variable {Args T : Type*} {shared : SharedT} {type : ElementType} {new : Constructor Args T}
variable {a : SharedPointerArrayAllocator} {args : Args}

-- There is a block that is free, and its array is in the memory for the elements.
def HasArray (shared : SharedT) (type : ElementType) (a : SharedPointerArrayAllocator) : Prop :=
  ∃ p slice a', a.obtain_array shared = some (p, slice, a') ∧ slice.last ≤ a'.room type

theorem alive_of_hasArray (h : HasArray shared type a) :
    (allocate_raw shared type new a args).alive = (construct new 0 args a.count.toNat).elements := by
  obtain ⟨p, slice, a', ho, hr⟩ := h
  simp only [allocate_raw, ho, if_pos hr, (obtain_array_spec ho).left]

theorem alive_of_not_hasArray (h : ¬HasArray shared type a) :
    (allocate_raw shared type new a args).alive = [] := by
  rcases ho : a.obtain_array shared with _ | ⟨p, slice, a'⟩
  case none => simp only [allocate_raw, ho]
  case some =>
    have hr : ¬slice.last ≤ a'.room type := fun hr => h ⟨p, slice, a', ho, hr⟩
    simp only [allocate_raw, ho, if_neg hr]

end MempoolHeap.SharedPointerArrayAllocator

namespace IPC.MemPoolIPC

variable {segment : ℕ} {Args T : Type*} {m : Mapping segment} {new : Constructor Args T} {is_arithmetic : Bool}
variable {sizeof_args : ℕ} {p : MemPoolIPC} {args : Args}

-- There is a block that is free, and its elements are constructed.
def HasBlock (m : Mapping segment) (is_arithmetic : Bool) (sizeof_args : ℕ) (p : MemPoolIPC) : Prop :=
  (p.myObjectAllocator.Loan m).1.isSome ∧ constructs is_arithmetic sizeof_args

theorem alive_of_hasBlock (h : HasBlock m is_arithmetic sizeof_args p) :
    (make_pooled m new is_arithmetic sizeof_args p args).alive =
      (construct new 0 args p.countPerElement.toNat).elements := by
  rcases hl : p.myObjectAllocator.Loan m with ⟨_ | ptrObject, s⟩
  case none => simp [HasBlock, hl] at h
  case some =>
    simp only [make_pooled, hl, if_pos h.right]
    split
    case isTrue  => rfl
    case isFalse => split <;> rfl

theorem alive_of_not_hasBlock (h : ¬HasBlock m is_arithmetic sizeof_args p) :
    (make_pooled m new is_arithmetic sizeof_args p args).alive = [] := by
  rcases hl : p.myObjectAllocator.Loan m with ⟨_ | ptrObject, s⟩
  case none => simp only [make_pooled, hl]
  case some =>
    have hc : ¬constructs is_arithmetic sizeof_args := by simpa [HasBlock, hl] using h
    simp only [make_pooled, hl, if_neg hc, Bool.false_eq_true, if_false]
    split <;> rfl

end IPC.MemPoolIPC

namespace forwarding

open MempoolHeap IPC

variable {segment : ℕ} {Args T : Type*}

-- Each element has been given the arguments of the call, and is the one that they make.
def Alike (new : Args → T × Args) (args : Args) (elements : List (Forwarded Args T)) : Prop :=
  ∀ x ∈ elements, x = ⟨(new args).1, args⟩

-- The arguments are forwarded to one constructor after the other. They are the same for all elements just if
-- the constructor does not move from them, or there is no second element.
theorem alike_iff (new : Args → T × Args) (args : Args) :
    (∀ (m : Mapping segment) is_arithmetic sizeof_args (p : MemPoolIPC),
      Alike new args (p.make_pooled m (forwarding new) is_arithmetic sizeof_args args).alive ↔
        (p.HasBlock m is_arithmetic sizeof_args → p.countPerElement.toNat ≤ 1 ∨ (new args).2 = args)) ∧
    (∀ shared type (a : SharedPointerArrayAllocator),
      Alike new args (a.allocate_raw shared type (forwarding new) args).alive ↔
        (a.HasArray shared type → a.count.toNat ≤ 1 ∨ (new args).2 = args)) := by
  constructor
  · intro m is_arithmetic sizeof_args p
    by_cases h : p.HasBlock m is_arithmetic sizeof_args
    case pos => rw [MemPoolIPC.alive_of_hasBlock h, Alike, all_given_iff, imp_iff_right h]
    case neg => simp [MemPoolIPC.alive_of_not_hasBlock h, Alike, h]
  · intro shared type a
    by_cases h : a.HasArray shared type
    case pos => rw [SharedPointerArrayAllocator.alive_of_hasArray h, Alike, all_given_iff, imp_iff_right h]
    case neg => simp [SharedPointerArrayAllocator.alive_of_not_hasArray h, Alike, h]

-- A constructor that moves its argument to the element.
def moving (arg : List ℕ) : List ℕ × List ℕ :=
  (arg, [])

-- The second element is made from what the first one has left.
theorem not_alike : ∃ p, MemPoolIPC.new MemPoolIPC.smallMemory MemPoolIPC.smallLayout 1 2 = .ok p ∧
    (p.make_pooled MemPoolIPC.low.m (forwarding moving) false 1 [7]).alive = [⟨[7], [7]⟩, ⟨[], []⟩] ∧
    ¬Alike moving [7] (p.make_pooled MemPoolIPC.low.m (forwarding moving) false 1 [7]).alive := by
  have ⟨p, hp⟩ : ∃ p, MemPoolIPC.new MemPoolIPC.smallMemory MemPoolIPC.smallLayout 1 2 = .ok p := ⟨_, rfl⟩
  refine ⟨p, hp, ?_⟩
  obtain rfl := Except.ok.inj hp
  refine ⟨rfl, fun h => ?_⟩
  exact absurd (h ⟨[], []⟩ (List.mem_of_getElem? (i := 1) rfl)) (by decide)

end forwarding
