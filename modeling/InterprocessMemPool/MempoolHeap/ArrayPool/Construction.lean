import InterprocessMemPool.Construction
import InterprocessMemPool.MempoolHeap.ArrayPool.Basic

namespace MempoolHeap.SharedPointerArrayAllocator

variable {Args T : Type*}

-- What the loop of `allocate_raw` leaves: the allocator, the elements in the array that are alive, and where the
-- call is then.
structure Made (T : Type*) where
  allocator : SharedPointerArrayAllocator
  alive     : List T
  call      : Call

-- The array that a call gets, and its block of the pool, if there is one that is free.
def obtain_array (shared : SharedT) (a : SharedPointerArrayAllocator) :
    Option (Address × Slice × SharedPointerArrayAllocator) :=
  match a.state.map AllocatorState.Loan with
  | some (.ok (p, s)) =>
    let a := { a with state := some s }
    some (p, a.slice (s.GetElementNumber (p + shared.object)), a)
  | _                 => none

def allocate_raw (shared : SharedT) (type : ElementType) (new : Constructor Args T)
    (a : SharedPointerArrayAllocator) (args : Args) : Made T :=
  match a.obtain_array shared with
  | none               => ⟨a, [], .returned .null⟩
  | some (p, slice, a) =>
    if slice.last ≤ a.room type then
      let made := construct new 0 args a.count.toNat
      { allocator := a
        alive     := made.elements
        call      :=
          if made.threw then a.destructed p ⟨slice.first, slice.first + made.elements.length⟩ .threw
          else .holding p slice }
    else ⟨a, [], .faulted p⟩

variable {shared : SharedT} {type : ElementType} {new : Constructor Args T} {a : SharedPointerArrayAllocator}
variable {args : Args} {h : Heap} {p : Address} {slice : Slice} {i n ptr : ℕ}

-- One step of a call.
def Call.Moves (shared : SharedT) (type : ElementType) (x y : Heap × Call) : Prop :=
  ∃ throws, Call.step shared type throws x.1 x.2 = some y

def Heap.constructed (h : Heap) (ptr n : ℕ) : Heap :=
  { h with events := h.events ++ (List.range' ptr n).map .constructed }

theorem Heap.constructed_succ : (h.constructed ptr 1).constructed (ptr + 1) n = h.constructed ptr (n + 1) := by
  simp [constructed, List.range'_succ]

theorem construct_steps (hl : ptr + n = slice.last) :
    Relation.ReflTransGen (Call.Moves shared type) (h, .constructing p slice ptr)
      (h.constructed ptr (construct new i args n).elements.length,
        if (construct new i args n).threw then
          h.allocator.destructed p ⟨slice.first, ptr + (construct new i args n).elements.length⟩ .threw
        else .holding p slice) := by
  induction n generalizing i args ptr h
  case zero =>
    refine .single ⟨false, ?_⟩
    simp [Call.step, construct, Heap.constructed, ← hl]
  case succ n ih =>
    have hlt : ptr < slice.last := by omega
    obtain hn | ⟨⟨t, args'⟩, hn⟩ := Option.eq_none_or_eq_some (new i args)
    case inl =>
      refine .single ⟨true, ?_⟩
      simp [Call.step, hlt, construct.succ_of_none hn, Heap.constructed]
    case inr =>
      have hmove : Call.Moves shared type (h, .constructing p slice ptr)
          (h.constructed ptr 1, .constructing p slice (ptr + 1)) :=
        ⟨false, by simp [Call.step, hlt, Heap.constructed]⟩
      have hrest : Relation.ReflTransGen (Call.Moves shared type)
          (h.constructed ptr 1, .constructing p slice (ptr + 1))
          ((h.constructed ptr 1).constructed (ptr + 1) (construct new (i + 1) args' n).elements.length,
            if (construct new (i + 1) args' n).threw then
              h.allocator.destructed p
                ⟨slice.first, ptr + 1 + (construct new (i + 1) args' n).elements.length⟩ .threw
            else .holding p slice) := ih (by omega)
      rw [Heap.constructed_succ, Nat.add_right_comm, Nat.add_assoc] at hrest
      rw [construct.succ_of_some hn]
      exact .head hmove hrest

theorem obtain_array_spec {a' : SharedPointerArrayAllocator} (h : a.obtain_array shared = some (p, slice, a')) :
    a'.count = a.count ∧ slice.first + a'.count.toNat = slice.last := by
  simp only [obtain_array] at h
  split at h
  case h_1 =>
    obtain ⟨rfl, rfl, rfl⟩ := h
    exact ⟨rfl, rfl⟩
  case h_2 => cases h

theorem step_entered (shared : SharedT) (type : ElementType) (h : Heap) :
    Call.step shared type false h .entered = match h.allocator.obtain_array shared with
    | none               => some (h, .returned .null)
    | some (p, slice, a) => some ({ h with allocator := a },
        if slice.last ≤ a.room type then .constructing p slice slice.first else .faulted p) := by
  simp only [Call.step, obtain_array]
  cases hs : h.allocator.state
  case none   => rfl
  case some s => cases hl : s.Loan <;> simp [hl]

-- The steps of a call that nobody interrupts, up to the end of the loop.
theorem allocate_raw_steps : ∃ first,
    Relation.ReflTransGen (Call.Moves shared type) (⟨a, []⟩, .entered)
      ((⟨(allocate_raw shared type new a args).allocator, []⟩ : Heap).constructed first
        (allocate_raw shared type new a args).alive.length, (allocate_raw shared type new a args).call) := by
  have hs := step_entered shared type ⟨a, []⟩
  rcases ho : a.obtain_array shared with _ | ⟨p, slice, a'⟩
  all_goals simp only [ho] at hs
  case none => exact ⟨0, .single ⟨false, by simpa [allocate_raw, ho, Heap.constructed] using hs⟩⟩
  case some =>
    by_cases hr : slice.last ≤ a'.room type
    case neg =>
      refine ⟨0, .single ⟨false, ?_⟩⟩
      simpa [allocate_raw, ho, hr, Heap.constructed] using hs
    case pos =>
      rw [if_pos hr] at hs
      refine ⟨slice.first, .head ⟨false, hs⟩ ?_⟩
      simpa only [allocate_raw, ho, if_pos hr] using construct_steps (h := ⟨a', []⟩) (obtain_array_spec ho).right

end MempoolHeap.SharedPointerArrayAllocator
