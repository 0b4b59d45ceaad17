import InterprocessMemPool.Concurrency.System

namespace Fifo

inductive Op (α : Type*)
  | enq (a : α)
  | deq (a : α)

variable {α : Type*} {q q' : List α} {ops : List (Op α)} {cap : ℕ}

def enqueued (ops : List (Op α)) : List α :=
  ops.filterMap fun
    | .enq a => some a
    | .deq _ => none

def dequeued (ops : List (Op α)) : List α :=
  ops.filterMap fun
    | .enq _ => none
    | .deq a => some a

-- What a sequence of operations amounts to: the queue that it leaves behind, the elements that were
-- removed from it, and the number of times that an element was asked for in vain.
structure Log (α : Type*) where
  queue : List α := []
  hits : List α := []
  misses : ℕ := 0

def Log.apply (g : Log α) : Op α → Log α
  | .enq a => { g with queue := g.queue ++ [a] }
  | .deq a =>
    match g.queue with
    | []     => { g with misses := g.misses + 1 }
    | _ :: q => { g with queue := q, hits := g.hits ++ [a] }

def log (ops : List (Op α)) : Log α :=
  ops.foldl Log.apply {}

@[simp]
theorem log_nil : log ([] : List (Op α)) = {} :=
  rfl

@[simp]
theorem log_concat {op : Op α} : log (ops ++ [op]) = (log ops).apply op := by
  simp [log]

@[simp]
theorem Log.apply_enq_queue {g : Log α} {a : α} : (g.apply (.enq a)).queue = g.queue ++ [a] :=
  rfl

@[simp]
theorem Log.apply_enq_misses {g : Log α} {a : α} : (g.apply (.enq a)).misses = g.misses :=
  rfl

@[simp]
theorem Log.apply_deq_queue {g : Log α} {a : α} : (g.apply (.deq a)).queue = g.queue.tail := by
  simp only [apply]
  split <;> simp_all

theorem Log.apply_deq_misses {g : Log α} {a : α} :
    (g.apply (.deq a)).misses + g.queue.length = g.misses + g.queue.tail.length + 1 := by
  simp only [apply]
  split <;> simp_all
  omega

@[simp]
theorem enqueued_concat_enq {a : α} : enqueued (ops ++ [.enq a]) = enqueued ops ++ [a] := by
  simp [enqueued]

@[simp]
theorem enqueued_concat_deq {a : α} : enqueued (ops ++ [.deq a]) = enqueued ops := by
  simp [enqueued]

@[simp]
theorem dequeued_concat_enq {a : α} : dequeued (ops ++ [.enq a]) = dequeued ops := by
  simp [dequeued]

@[simp]
theorem dequeued_concat_deq {a : α} : dequeued (ops ++ [.deq a]) = dequeued ops ++ [a] := by
  simp [dequeued]

theorem length_dequeued_add_queue (ops : List (Op α)) :
    (dequeued ops).length + (log ops).queue.length = (enqueued ops).length + (log ops).misses := by
  induction ops using List.reverseRecOn
  case nil => rfl
  case append_singleton ops op ih =>
    cases op
    case enq a => simp; omega
    case deq a =>
      have := (log ops).apply_deq_misses (a := a)
      simp only [log_concat, dequeued_concat_deq, enqueued_concat_deq, Log.apply_deq_queue,
        List.length_append, List.length_singleton]
      omega

theorem hits_prefix (ops ops' : List (Op α)) : (log ops).hits <+: (log (ops ++ ops')).hits := by
  induction ops' using List.reverseRecOn
  case nil => simp
  case append_singleton op ih =>
    rw [← List.append_assoc, log_concat]
    refine ih.trans ?_
    cases op
    case enq => exact List.prefix_rfl
    case deq =>
      simp only [Log.apply]
      split
      · exact List.prefix_rfl
      · exact List.prefix_append ..

theorem enqueued_append {ops' : List (Op α)} :
    enqueued (ops ++ ops') = enqueued ops ++ enqueued ops' :=
  List.filterMap_append

-- A FIFO queue that never holds more than `cap` elements.
def bounded (α : Type*) (cap : ℕ) : System (List α) (Op α) where
  Init q := q = []
  Step
    | q, .enq a, q' => q.length < cap ∧ q' = q ++ [a]
    | q, .deq a, q' => q = a :: q'

theorem bounded_run_eq (r : (bounded α cap).Run q ops q') :
    q ++ enqueued ops = dequeued ops ++ q' := by
  induction r
  case refl => simp [enqueued, dequeued]
  case step op _ _ _ h _ ih =>
    cases op
    case enq a => simp_all [bounded, enqueued, dequeued]
    case deq a => simp_all [bounded, enqueued, dequeued]

theorem bounded_run_length_le (r : (bounded α cap).Run q ops q') (h : q.length ≤ cap) :
    q'.length ≤ cap := by
  induction r
  case refl => exact h
  case step op _ _ _ hs _ ih =>
    cases op <;> simp only [bounded] at hs
    case enq a => exact ih <| by simp [hs.right]; omega
    case deq a => exact ih <| by simp [hs] at h; omega

theorem bounded_run_dequeued_prefix (r : (bounded α cap).Run [] ops q) :
    dequeued ops <+: enqueued ops :=
  ⟨q, by simpa using (bounded_run_eq r).symm⟩

end Fifo

namespace Ring

variable {α : Type*} {null a : α} {slots q : List α} {pop : ℕ}

theorem index_injOn {n i j : ℕ} (hi : i < n) (hj : j < n) (h : (pop + i) % n = (pop + j) % n) :
    i = j :=
  Nat.ModEq.add_left_cancel' pop h |>.eq_of_lt_of_lt hi hj

theorem index_ne_push {n m : ℕ} (h : m < n) : ∀ j < m, (pop + j) % n ≠ (pop + m) % n :=
  fun _ hj he => Nat.ne_of_lt hj <| index_injOn (hj.trans h) h he

-- The slots of a ring hold the queue `q`, from the slot `pop` on and around the end, and are empty
-- everywhere else.
structure Holds (null : α) (slots : List α) (pop : ℕ) (q : List α) : Prop where
  length_le : q.length ≤ slots.length
  window    : ∀ j < q.length, slots[(pop + j) % slots.length]? = q[j]?
  null      : ∀ k < slots.length, (∀ j < q.length, (pop + j) % slots.length ≠ k) →
    slots[k]? = some null

namespace Holds

theorem replicate (n : ℕ) : Holds null (List.replicate n null) pop [] where
  length_le := Nat.zero_le _
  window    := by simp
  null      := by simp +contextual

theorem enq (h : Holds null slots pop q) (hl : q.length < slots.length) :
    Holds null (slots.set ((pop + q.length) % slots.length) a) pop (q ++ [a]) where
  length_le := by simp; omega
  window j hj := by
    simp only [List.length_append, List.length_singleton, List.length_set] at hj ⊢
    by_cases he : j = q.length
    case pos => simp [he, Nat.mod_lt _ (Nat.zero_lt_of_lt hl)]
    case neg =>
      have hj' : j < q.length := by omega
      rw [List.getElem?_set_ne (index_ne_push hl j hj').symm, h.window j hj',
        List.getElem?_append_left hj']
  null k hk hn := by
    simp only [List.length_append, List.length_singleton, List.length_set] at hk hn ⊢
    rw [List.getElem?_set_ne (hn q.length (by omega))]
    exact h.null k hk fun j hj => hn j (by omega)

-- The slot at `pop` has the head of the queue, and `null` if there is none.
theorem pop_slot (h : Holds null slots pop q) (hp : pop < slots.length) :
    slots[pop]? = some (q.headD null) := by
  cases q
  case nil => exact h.null pop hp (by simp)
  case cons => simpa [Nat.mod_eq_of_lt hp] using h.window 0 (by simp)

theorem deq (h : Holds null slots pop q) (hp : pop < slots.length) :
    Holds null (slots.set pop null) ((pop + 1) % slots.length) q.tail where
  length_le := by have := h.length_le; simp; omega
  window j hj := by
    simp only [List.length_tail, List.length_set] at hj ⊢
    have hl := h.length_le
    have hi : ((pop + 1) % slots.length + j) % slots.length = (pop + (j + 1)) % slots.length := by
      rw [Nat.mod_add_mod]; congr 1; omega
    have hne : (pop + (j + 1)) % slots.length ≠ pop := by
      intro he
      have he : (pop + (j + 1)) % slots.length = (pop + 0) % slots.length := by
        simpa [Nat.mod_eq_of_lt hp] using he
      exact absurd (index_injOn (by omega) (by omega) he) (by omega)
    rw [hi, List.getElem?_set_ne hne.symm, h.window (j + 1) (by omega), List.getElem?_tail]
  null k hk hn := by
    simp only [List.length_set, List.length_tail] at hk hn ⊢
    by_cases he : k = pop
    case pos => simp [he, hp]
    case neg =>
      rw [List.getElem?_set_ne (Ne.symm he)]
      refine h.null k hk fun j hj hjk => ?_
      cases j
      case zero => exact he <| by simpa [Nat.mod_eq_of_lt hp] using hjk.symm
      case succ j =>
        refine hn j (by omega) ?_
        rw [Nat.mod_add_mod, ← hjk]
        congr 1
        omega

end Holds
end Ring
