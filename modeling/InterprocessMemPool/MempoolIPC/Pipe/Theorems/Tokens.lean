import InterprocessMemPool.MempoolIPC.Pipe.Theorems.Transition

namespace PipeIPC

variable {α : Type*} {p p' : PipeIPC α} {c : Config α} {l l' : Call α} {capacity : SizeT}

-- The stores and takes that have happened so far, in the order in which they held the lock.
def ops (c : Config α) : List (Fifo.Op (Option α)) :=
  c.history.filterMap (·.post.2.op)

-- The pointers that were stored and not yet taken, in the order in which they were stored.
def queue (c : Config α) : List (Option α) :=
  (Fifo.log (ops c)).queue

@[simp]
theorem ops_enter : ops (c.enter l) = ops c :=
  rfl

@[simp]
theorem queue_enter : queue (c.enter l) = queue c :=
  rfl

theorem ops_after {i : ℕ} : ops (c.after i l p' l') = ops c ++ l'.op.toList := by
  cases h : l'.op <;> simp [ops, h]

-- The tokens of `nempty` that a call holds back, either because it has acquired them or because it
-- has yet to return them.
def Phase.empty : Phase → ℕ
  | .acquired | .storing | .faultedStoring | .postingEmpty => 1
  | _ => 0

def Phase.stored : Phase → ℕ
  | .postingStored | .taking | .faultedTaking => 1
  | _ => 0

def Phase.stores (φ : Phase) : ℕ :=
  if φ = .storing then 1 else 0

def Phase.notifies (φ : Phase) : ℕ :=
  if φ = .notifying then 1 else 0

theorem Phase.stores_le_empty (φ : Phase) : φ.stores ≤ φ.empty := by
  cases φ <;> decide

-- The number of queued pointers after an operation, given the number before it.
def lengthAfter (n : ℕ) : Option (Fifo.Op (Option α)) → ℕ
  | none          => n
  | some (.enq _) => n + 1
  | some (.deq _) => n - 1

namespace Transition

variable {φ φ' : Phase} {o : Option (Fifo.Op (Option α))}

theorem capacity_eq (t : Transition p φ p' φ' o) : p'.capacity = p.capacity := by
  cases t <;> rfl

theorem shutdown_of_shutdown (t : Transition p φ p' φ' o) (h : p.shutdown) : p'.shutdown := by
  cases t <;> simp_all

theorem shutdown_eq_false (t : Transition p φ p' φ' o) (h : p'.shutdown = false) :
    p.shutdown = false :=
  Bool.eq_false_iff.mpr fun hd => by simp [t.shutdown_of_shutdown hd] at h

-- The only way for a call to fault is to get hold of the lock of a pipe that has no slots.
theorem capacity_eq_zero (t : Transition p φ p' φ' o) (h : φ'.Faulted) :
    p.capacity = 0 ∧ (φ = .storing ∨ φ = .taking) := by
  cases t <;> simp_all [Phase.Faulted]

theorem notifies_le (t : Transition p φ p' φ' o) : φ'.notifies ≤ φ.notifies ∨ p'.shutdown := by
  cases t <;> simp [Phase.notifies]

-- Tokens are neither made nor lost by a transition that has nothing to do with a `Shutdown`.
theorem balance {n : ℕ} (t : Transition p φ p' φ' o) (hd : p'.shutdown = false)
    (hn : φ.notifies = 0) (hs : φ.stored ≤ n) :
    p'.nempty + φ'.empty + lengthAfter n o = p.nempty + φ.empty + n ∧
    p'.nstored + φ'.stored + n = p.nstored + φ.stored + lengthAfter n o := by
  cases t <;> simp_all [Phase.notifies, Phase.empty, Phase.stored, lengthAfter]
  all_goals omega

theorem stores_le (t : Transition p φ p' φ' o) (hd : p'.shutdown) (n : ℕ) :
    φ'.stores + lengthAfter n o ≤ φ.stores + n := by
  cases t <;> simp_all [Phase.stores, lengthAfter]

theorem item_le (t : Transition p φ p' φ' o) (n : ℕ) :
    lengthAfter n o = 0 ∨
    lengthAfter n o + p.nstored + φ.stored ≤ n + p'.nstored + φ'.stored := by
  cases t <;> simp [Phase.stored, lengthAfter]
  all_goals omega

end Transition

-- The number of tokens that is due to the calls in flight.
def inFlight (c : Config α) (w : Phase → ℕ) : ℕ :=
  c.total fun l => w l.phase

@[simp]
theorem inFlight_enter {w : Phase → ℕ} : inFlight (c.enter l) w = inFlight c w + w l.phase :=
  Program.Config.total_enter

theorem inFlight_after {i : ℕ} (w : Phase → ℕ) (p' : PipeIPC α) (l' : Call α)
    (h : c.calls[i]? = some l) :
    inFlight (c.after i l p' l') w + w l.phase = inFlight c w + w l'.phase :=
  Program.Config.total_after (fun l : Call α => w l.phase) p' l' h

theorem inFlight_le {w : Phase → ℕ} {i : ℕ} (h : c.calls[i]? = some l) : w l.phase ≤ inFlight c w :=
  Program.Config.le_total (w := fun l => w l.phase) h

theorem inFlight_mono {w₁ w₂ : Phase → ℕ} (h : ∀ φ, w₁ φ ≤ w₂ φ) : inFlight c w₁ ≤ inFlight c w₂ :=
  List.sum_le_sum fun _ _ => h _

theorem queue_after_length (c : Config α) (i : ℕ) (l : Call α) (p' : PipeIPC α) (l' : Call α) :
    (queue (c.after i l p' l')).length = lengthAfter (queue c).length l'.op := by
  simp only [queue, ops_after]
  cases h : l'.op
  case none => simp [lengthAfter]
  case some o => cases o <;> simp [lengthAfter]

-- As long as no `Shutdown` has begun, the tokens of both semaphores are accounted for exactly. What
-- is left of this after a `Shutdown` is that the calls that have passed both checks in `Send` still
-- have a slot to themselves, and that no stored pointer has lost its token.
structure Tokens (capacity : SizeT) (c : Config α) : Prop where
  capacity_eq : c.shared.capacity = capacity
  notified    : 0 < inFlight c Phase.notifies → c.shared.shutdown
  empty       : c.shared.shutdown = false →
    c.shared.nempty + inFlight c Phase.empty + (queue c).length = capacity.toNat % 2 ^ 32
  stored      : c.shared.shutdown = false →
    c.shared.nstored + inFlight c Phase.stored = (queue c).length
  room        : inFlight c Phase.stores + (queue c).length ≤ capacity.toNat
  item        : (queue c).length ≤ c.shared.nstored + inFlight c Phase.stored

namespace Tokens

theorem room_of_empty
    (h : c.shared.nempty + inFlight c Phase.empty + (queue c).length = capacity.toNat % 2 ^ 32) :
    inFlight c Phase.stores + (queue c).length ≤ capacity.toNat := by
  have h₁ := inFlight_mono (c := c) Phase.stores_le_empty
  have h₂ := Nat.mod_le capacity.toNat (2 ^ 32)
  omega

theorem init : Tokens capacity (⟨new capacity, [], []⟩ : Config α) where
  capacity_eq := rfl
  notified    := by simp [inFlight, Program.Config.total]
  empty _     := by simp [new, inFlight, Program.Config.total, queue, ops]
  stored _    := by simp [new, inFlight, Program.Config.total, queue, ops]
  room        := by simp [inFlight, Program.Config.total, queue, ops]
  item        := by simp [queue, ops]

theorem enter (h : Tokens capacity c) (hs : l.starts) : Tokens capacity (c.enter l) := by
  have := Call.phase_of_starts hs
  constructor <;> simp only [inFlight_enter, queue_enter, Program.Config.enter_shared, this]
  case capacity_eq => exact h.capacity_eq
  case notified    => exact h.notified
  case empty       => exact h.empty
  case stored      => exact h.stored
  case room        => exact h.room
  case item        => exact h.item

theorem after {i : ℕ} (h : Tokens capacity c) (hl : c.calls[i]? = some l)
    (t : Transition c.shared l.phase p' l'.phase l'.op) : Tokens capacity (c.after i l p' l') := by
  have tally (w : Phase → ℕ) := inFlight_after w p' l' hl
  have hq := queue_after_length c i l p' l'
  have hz (hd : p'.shutdown = false) : l.phase.notifies = 0 := by
    have h₁ : l.phase.notifies ≤ inFlight c Phase.notifies := inFlight_le hl
    have h₂ := mt h.notified (by simp [t.shutdown_eq_false hd])
    omega
  have hs (hd : p'.shutdown = false) : l.phase.stored ≤ (queue c).length := by
    have h₁ : l.phase.stored ≤ inFlight c Phase.stored := inFlight_le hl
    have h₂ := h.stored (t.shutdown_eq_false hd)
    omega
  -- While no `Shutdown` has begun, all tokens are where they were before, or have moved along with
  -- the pointer that they stand for.
  have hb (hd : p'.shutdown = false) := t.balance hd (hz hd) (hs hd)
  constructor
  case capacity_eq => exact t.capacity_eq.trans h.capacity_eq
  case notified =>
    intro hp
    cases t.notifies_le
    case inl hle =>
      have := tally Phase.notifies
      exact t.shutdown_of_shutdown <| h.notified <| by omega
    case inr hd => exact hd
  case empty =>
    intro hd
    have := h.empty (t.shutdown_eq_false hd)
    have := tally Phase.empty
    have := hb hd
    simp only [Program.Config.after_shared]
    omega
  case stored =>
    intro hd
    have := h.stored (t.shutdown_eq_false hd)
    have := tally Phase.stored
    have := hb hd
    simp only [Program.Config.after_shared]
    omega
  case room =>
    cases hd : p'.shutdown
    case false =>
      have := h.empty (t.shutdown_eq_false hd)
      have := tally Phase.empty
      have := hb hd
      refine room_of_empty ?_
      simp only [Program.Config.after_shared]
      omega
    case true =>
      have := h.room
      have := tally Phase.stores
      have := t.stores_le hd (queue c).length
      omega
  case item =>
    have := h.item
    have := tally Phase.stored
    have := t.item_le (queue c).length
    simp only [Program.Config.after_shared]
    omega

end Tokens

theorem tokens (h : (system α capacity).Reachable c) : Tokens capacity c := by
  refine Program.invariant (I := Tokens capacity) ?_ ?_ ?_ |>.holds h
  · rintro _ rfl
    exact Tokens.init
  · intro _ _ _ h hs
    exact h.enter hs
  · intro _ _ _ _ _ _ _ h hl hs
    exact h.after hl (step_transition hs)

end PipeIPC
