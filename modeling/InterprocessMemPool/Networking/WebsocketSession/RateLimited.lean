import InterprocessMemPool.Networking.RateLimiter.Enforcer
import InterprocessMemPool.Networking.WebsocketSession.Basic

namespace BeastNetworking

-- A session with its enforcer.
structure RateLimited (ρ : Type) where
  session  : WebsocketSession := {}
  enforcer : Enforcer ρ
  deriving DecidableEq

namespace RateLimited

variable {ρ : Type} [Double ρ]

def update_hypothetical_rate (update_and_get_allowable : ρ → SizeT) (m : SpanAndHandler) (t : Reading)
    (s : RateLimited ρ) : RateLimited ρ :=
  { s with enforcer := s.enforcer.update_hypothetical_rate update_and_get_allowable m.msgSize t }

-- The enforcer is asked about the message `m`.
def should_send (m : SpanAndHandler) (t : Reading) (s : RateLimited ρ) : Bool × RateLimited ρ :=
  let (should_send, enforcer) := s.enforcer.should_send m.msgSize t
  (should_send, { s with enforcer })

-- The enforcer is not asked if there are messages before `m`, and then there is no use for a verdict.
def on_send (m : SpanAndHandler) (max_queue_size : SizeT) (update_and_get_allowable : ρ → SizeT)
    (hypothetical actual : Reading) (s : RateLimited ρ) : RateLimited ρ :=
  let s := s.update_hypothetical_rate update_and_get_allowable m hypothetical
  if 1 < (s.session.sending.enqueue m max_queue_size).queue.length then
    { s with session := s.session.on_send false m max_queue_size }
  else
    let (should_send, s) := s.should_send m actual
    { s with session := s.session.on_send should_send m max_queue_size }

-- The enforcer is asked about the message behind the front, if there is one.
def on_write (k : ℕ) (ec : Option Error) (bytes_transferred : SizeT) (actual : Reading)
    (s : RateLimited ρ) : Except Fault (RateLimited ρ) :=
  let (should_send, s) := match s.session.sending.queue.tail with
    | []        => (false, s)
    | next :: _ => s.should_send next actual
  (s.session.on_write should_send k ec bytes_transferred).map fun session => { s with session }

inductive Action (ρ : Type)
  | on_send (m : SpanAndHandler) (max_queue_size : SizeT) (update_and_get_allowable : ρ → SizeT)
      (hypothetical actual : Reading)
  | on_write (k : ℕ) (ec : Option Error) (bytes_transferred : SizeT) (actual : Reading)
  | destroy

def next (s : RateLimited ρ) (a : Action ρ) : Option (RateLimited ρ) :=
  if s.session.destroyed then none else
  match a with
  | .on_send m max_queue_size update_and_get_allowable hypothetical actual =>
    some (s.on_send m max_queue_size update_and_get_allowable hypothetical actual)
  | .on_write k ec bytes actual =>
    if s.session.sending.operations[k]?.any (·.completes ec bytes) then
      (s.on_write k ec bytes actual).toOption
    else none
  | .destroy => some { s with session := s.session.destroy }

-- The session of a shared state with a tracker, when it has just been constructed.
def Init (s : RateLimited ρ) : Prop :=
  ∃ limitable alpha rate_recalculation_trigger unlimited_timer actual_timer, s =
    { enforcer := .make limitable alpha rate_recalculation_trigger unlimited_timer actual_timer }

def system : System (RateLimited ρ) (Action ρ) :=
  System.ofNext Init next

end RateLimited
end BeastNetworking
