import InterprocessMemPool.Networking.RateLimiter.Basic

namespace BeastNetworking

namespace RateTracker

-- `std::numeric_limits<double>::max()`.
def maxDouble : ℚ :=
  (2 ^ 53 - 1) * 2 ^ 971

-- How the limit of a tracker has been configured last.
inductive Limit
  | default
  | constructed (max_byterate_in : ℚ)
  | set (max_byterate_in : ℚ)
  deriving DecidableEq

-- The constructor takes any number, and `set_max_byterate` takes a negative one for no limit.
def Limit.max_byterate : Limit → ℚ
  | .default                     => maxDouble
  | .constructed max_byterate_in => max_byterate_in
  | .set max_byterate_in         => if max_byterate_in < 0 then maxDouble else max_byterate_in

def total (t : RateTracker) : ℚ :=
  (t.true_rates.map fun rate => (rate.toNat : ℚ)).sum

-- The conversion of a `double` to an integer.
def truncate (x : ℚ) : ℤ :=
  if 0 ≤ x then ⌊x⌋ else ⌈x⌉

-- What `update_and_get_allowable` returns. There is no quotient by 0, and it is left open whether the result
-- is a `size_t`. A `double` is the number that it stands for.
def allowable (max_byterate : ℚ) (new_rate : SizeT) (id : ℕ) (t : RateTracker) : Option ℤ :=
  let total := (t.update_and_get_allowable new_rate id).total
  if total = 0 then none else some <| truncate (new_rate.toNat / total * min total max_byterate)

end RateTracker
end BeastNetworking
