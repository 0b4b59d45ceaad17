import InterprocessMemPool.Concurrency.System
import InterprocessMemPool.Concurrency.Timer
import InterprocessMemPool.Networking.SendQueue.Basic

open BeastNetworking (Error)

namespace UtilsASIO

-- How far `run` has got. Handlers can run between its two steps.
inductive UDPReceiver.Phase
  | idle
  | waiting
  | running
  deriving DecidableEq

-- Times are in nanoseconds, and `now` is that of the steady clock. `receives` is the number of receives
-- that are outstanding. The last three components record the calls of the callbacks. The timer of a
-- receiver that has not been run yet has expired.
structure UDPReceiver where
  phase    : UDPReceiver.Phase := .idle
  now      : ℕ := 0
  timeout  : Timer ℕ := { expiry := 0 }
  timedout : Bool := false
  closed   : Bool := false
  receives : ℕ := 0
  reads    : List SizeT := []
  errors   : List Error := []
  timeouts : ℕ := 0
  deriving DecidableEq

namespace UDPReceiver

def on_error (ec : Error) (s : UDPReceiver) : UDPReceiver :=
  if s.timedout then s else { s with errors := s.errors ++ [ec] }

-- The conversion to `size_t` cuts off the fraction.
def timeout_period_ms (timeout_period_seconds : ℚ) : ℕ :=
  (timeout_period_seconds * 1000).floor.toNat

def start_recieve (timeout_period_seconds : ℚ) (s : UDPReceiver) : UDPReceiver :=
  let expiry : WithTop ℕ := if timeout_period_seconds ≤ 0 then ⊤ else
    (s.now + timeout_period_ms timeout_period_seconds * 10 ^ 6 : ℕ)
  { s with
    timedout := false
    timeout  := s.timeout.expireAt expiry
    receives := s.receives + 1 }

def on_recieve (timeout_period_seconds : ℚ) (ec : Option Error) (bytes_transferred : SizeT)
    (s : UDPReceiver) : UDPReceiver :=
  match ec with
  | some ec => s.on_error ec
  | none    => { s with reads := s.reads ++ [bytes_transferred] }.start_recieve timeout_period_seconds

-- A receive that is outstanding when the socket is closed is going to fail.
def time_out (s : UDPReceiver) : UDPReceiver :=
  { s with
    timedout := true
    timeouts := s.timeouts + 1
    closed   := true
    timeout  := s.timeout.expireAt ⊤ }

def check_timeout (ec : Option Error) (s : UDPReceiver) : UDPReceiver :=
  match ec with
  | some .operation_aborted => s
  | some ec                 => s.on_error ec
  | none                    =>
    let s := if s.timeout.expiry ≤ s.now then s.time_out else s
    { s with timeout := s.timeout.wait }

-- The first two are the steps of `run`. The handlers of completed waits run in any order.
inductive Action
  | run
  | start
  | elapse (nanoseconds : ℕ)
  | expire
  | check_timeout (k : ℕ)
  | on_recieve (ec : Option Error) (bytes_transferred : SizeT)
  deriving DecidableEq

def next (timeout_period_seconds : ℚ) (s : UDPReceiver) : Action → Option UDPReceiver
  | .run                 => if s.phase = .idle then
      some { s with phase := .waiting, timedout := false, timeout := s.timeout.wait } else none
  | .start               => if s.phase = .waiting then
      some { s.start_recieve timeout_period_seconds with phase := .running } else none
  | .elapse nanoseconds  => some { s with now := s.now + nanoseconds }
  | .expire              => if s.timeout.expiry ≤ s.now then
      some { s with timeout := s.timeout.expire } else none
  | .check_timeout k     => s.timeout.completions[k]?.map fun expired =>
      { s with timeout := s.timeout.handle k }.check_timeout
        (if expired then none else some .operation_aborted)
  | .on_recieve ec bytes => if 0 < s.receives then
      some <| { s with receives := s.receives - 1 }.on_recieve timeout_period_seconds ec bytes else none

def system (timeout_period_seconds : ℚ) :=
  System.ofNext (· = ({} : UDPReceiver)) (next timeout_period_seconds)

end UDPReceiver
end UtilsASIO
