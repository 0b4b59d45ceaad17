import InterprocessMemPool.Machine

namespace BeastNetworking

-- What the rates use of the type `double`. Nothing is required of its operations, so they may round, overflow
-- and result in what is not a number.
class Double (ρ : Type) extends OfScientific ρ, Zero ρ, One ρ, Add ρ, Sub ρ, Mul ρ, Div ρ, LE ρ, LT ρ where
  ofSizeT     : SizeT → ρ
  seconds     : ℤ → ρ
  epsilon     : ρ
  decidableLE : DecidableLE ρ
  decidableLT : DecidableLT ρ

attribute [reducible, instance] Double.decidableLE Double.decidableLT

namespace Double

-- Doubles without rounding.
scoped instance exact : Double ℚ where
  ofSizeT n   := n.toNat
  seconds t   := t / 10 ^ 9
  epsilon     := 1 / 2 ^ 52
  decidableLE := inferInstance
  decidableLT := inferInstance

end Double

-- The clock is read to find out the time that has elapsed on a timer, and again to reset the timer. Times
-- are in nanoseconds.
structure Reading where
  now   : ℕ
  reset : ℕ
  deriving DecidableEq

-- The `RateEnforcer` of a session, apart from the number that its tracker knows it by.
structure Enforcer (ρ : Type) where
  alpha                      : ρ
  limitable                  : Bool
  rate_recalculation_trigger : ρ
  rate_tracker               : Bool
  unlimited_timer            : ℕ
  unlimited_rate             : ρ
  allowed_rate               : SizeT
  actual_timer               : ℕ
  actual_rate                : ρ
  deriving DecidableEq

namespace Enforcer

variable {ρ : Type} [Double ρ]

-- The enforcer that a tracker makes. Its two timers are started one after the other.
def make (limitable : Bool) (alpha rate_recalculation_trigger : ρ) (unlimited_timer actual_timer : ℕ) :
    Enforcer ρ where
  alpha
  limitable
  rate_recalculation_trigger
  rate_tracker    := true
  unlimited_timer
  unlimited_rate  := 0
  allowed_rate    := 0
  actual_timer
  actual_rate     := 0

-- The exponential moving average that starts from `rate`.
def average (rate : ρ) (nBytes : SizeT) (timer now : ℕ) (e : Enforcer ρ) : ρ :=
  let instantaneous_rate := Double.ofSizeT nBytes / (Double.seconds (now - timer : ℤ) + Double.epsilon)
  rate * (1 - e.alpha) + e.alpha * instantaneous_rate

-- `update_and_get_allowable` has the answer of the tracker to the new rate.
def update_hypothetical_rate (update_and_get_allowable : ρ → SizeT) (nBytes : SizeT) (t : Reading)
    (e : Enforcer ρ) : Enforcer ρ :=
  let unlimited_rate := e.average e.unlimited_rate nBytes e.unlimited_timer t.now
  { e with
    unlimited_timer := t.reset
    unlimited_rate
    allowed_rate    := if e.rate_tracker then update_and_get_allowable unlimited_rate else e.allowed_rate }

def thresh (e : Enforcer ρ) : ρ :=
  Double.ofSizeT e.allowed_rate

-- The rate of what has been sent starts again from 0 when the allowed rate has dropped far below it.
def recalculated (e : Enforcer ρ) : ρ :=
  if e.thresh * e.rate_recalculation_trigger < e.actual_rate then 0 else e.actual_rate

def temp_actual_rate (nBytes : SizeT) (now : ℕ) (e : Enforcer ρ) : ρ :=
  e.average e.recalculated nBytes e.actual_timer now

-- That the message can be sent at this time without exceeding the limit, or that there is no limit.
def permits (nBytes : SizeT) (now : ℕ) (e : Enforcer ρ) : Bool :=
  e.temp_actual_rate nBytes now ≤ e.thresh || !e.limitable

def should_send (nBytes : SizeT) (t : Reading) (e : Enforcer ρ) : Bool × Enforcer ρ :=
  if !e.rate_tracker then (true, e) else
  let may_send := e.permits nBytes t.now
  if may_send then
    (may_send, { e with
      actual_timer := t.reset
      actual_rate  := e.temp_actual_rate nBytes t.now })
  else (may_send, { e with actual_rate := e.recalculated })

end Enforcer
end BeastNetworking
