import Mathlib

-- A timer with an expiry, which may be that it never expires. A wait for it is pending at first. Once it is
-- complete it is known whether the timer has expired, and the handler of the wait is still to run.
structure Timer (τ : Type*) where
  expiry      : WithTop τ
  pending     : ℕ := 0
  completions : List Bool := []
  deriving DecidableEq

namespace Timer

variable {τ : Type*} {t : Timer τ}

def wait (t : Timer τ) : Timer τ :=
  { t with pending := t.pending + 1 }

-- All waits that are pending are cancelled.
def expireAt (expiry : WithTop τ) (t : Timer τ) : Timer τ where
  expiry
  pending     := 0
  completions := t.completions ++ List.replicate t.pending false

def expire (t : Timer τ) : Timer τ :=
  { t with pending := 0, completions := t.completions ++ List.replicate t.pending true }

def handle (k : ℕ) (t : Timer τ) : Timer τ :=
  { t with completions := t.completions.eraseIdx k }

-- The waits that are pending, or complete because the timer has expired.
def armed (t : Timer τ) : ℕ :=
  t.pending + t.completions.count true

@[simp]
theorem armed_wait : t.wait.armed = t.armed + 1 := by
  simp only [armed, wait]
  omega

@[simp]
theorem armed_expire : t.expire.armed = t.armed := by
  simp [armed, expire, add_comm]

theorem armed_expireAt (expiry : WithTop τ) : (t.expireAt expiry).armed + t.pending = t.armed := by
  simp [armed, expireAt, List.count_replicate, add_comm]

theorem armed_handle {k : ℕ} {expired : Bool} (h : t.completions[k]? = some expired) :
    (t.handle k).armed + (if expired then 1 else 0) = t.armed := by
  have ⟨hlt, he⟩ := List.getElem?_eq_some_iff.mp h
  have hp := (List.getElem_cons_eraseIdx_perm hlt).count_eq true
  rw [List.count_cons, he] at hp
  simp only [armed, handle, beq_true] at hp ⊢
  omega

end Timer
