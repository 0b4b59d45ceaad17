import InterprocessMemPool.Concurrency.System
import InterprocessMemPool.Machine

namespace BeastNetworking

-- Every member function of a tracker holds its lock throughout, so each of them is a single step. What
-- `update_and_get_allowable` returns makes no difference to a tracker, and is `allowable` below.
structure RateTracker where
  true_rates : List SizeT := []
  deriving DecidableEq

namespace RateTracker

def update_and_get_allowable (new_rate : SizeT) (id : ℕ) (t : RateTracker) : RateTracker :=
  if id < t.true_rates.length then { t with true_rates := t.true_rates.set id new_rate } else t

def unregister (id : ℕ) (t : RateTracker) : RateTracker :=
  if id < t.true_rates.length then
    { t with true_rates := (t.true_rates.set id (t.true_rates.getLast?.getD 0)).dropLast }
  else t

end RateTracker

-- `rate` records the last rate that the enforcer has reported.
structure RateEnforcer where
  id   : ℕ
  rate : SizeT := 0
  deriving DecidableEq

-- A tracker with its live enforcers, in the order in which they were made.
structure RateLimiting where
  tracker   : RateTracker := {}
  enforcers : List RateEnforcer := []
  deriving DecidableEq

namespace RateLimiting

def make_enforcer (s : RateLimiting) : RateLimiting where
  tracker   := { s.tracker with true_rates := s.tracker.true_rates ++ [0] }
  enforcers := s.enforcers ++ [{ id := s.tracker.true_rates.length }]

-- Enforcers are referred to by their position.
inductive Action
  | make_enforcer
  | update (i : ℕ) (new_rate : SizeT)
  | destroy (i : ℕ)
  deriving DecidableEq

def next (s : RateLimiting) : Action → Option RateLimiting
  | .make_enforcer     => some s.make_enforcer
  | .update i new_rate => s.enforcers[i]?.map fun e => {
      tracker   := s.tracker.update_and_get_allowable new_rate e.id
      enforcers := s.enforcers.set i { e with rate := new_rate } }
  | .destroy i         => s.enforcers[i]?.map fun e => {
      tracker   := s.tracker.unregister e.id
      enforcers := s.enforcers.eraseIdx i }

def system :=
  System.ofNext (· = ({} : RateLimiting)) next

end RateLimiting
end BeastNetworking
