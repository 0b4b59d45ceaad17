import Mathlib

namespace Semaphore

inductive Wait
  | tryWait
  | timedWait
  | wait
  deriving DecidableEq

-- The outcome of waiting for a semaphore with the given count, `none` as long as the caller is
-- blocked. A timed wait only fails once its deadline has expired.
def Wait.step (expired : Bool) : Wait → ℕ → Option (ℕ × Bool)
  | _, n + 1        => some (n, true)
  | .tryWait, 0     => some (0, false)
  | .timedWait, 0   => if expired then some (0, false) else none
  | .wait, 0        => none

theorem Wait.step_cases {w : Wait} {x : Bool} {n n' : ℕ} {ok : Bool}
    (h : w.step x n = some (n', ok)) : (ok = true ∧ n = n' + 1) ∨ (ok = false ∧ n = 0 ∧ n' = 0) := by
  cases n
  case succ n => simp_all [step]
  case zero => cases w <;> simp_all [step]

theorem Wait.step_eq_none_iff {w : Wait} {x : Bool} {n : ℕ} :
    w.step x n = none ↔ n = 0 ∧ (w = .wait ∨ w = .timedWait ∧ x = false) := by
  cases n
  case succ n => simp [step]
  case zero => cases w <;> simp [step]

end Semaphore
