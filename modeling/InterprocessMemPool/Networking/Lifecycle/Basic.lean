import InterprocessMemPool.Networking.SharedState.Basic
import InterprocessMemPool.Networking.SendQueue.Basic

namespace BeastNetworking

inductive Callback
  | callbackAccept
  | callbackClose
  | callbackUpgrade
  | callbackDowngrade
  deriving DecidableEq

namespace Kind

def isWebsocket : Kind → Bool
  | .ws | .wss     => true
  | .http | .https => false

-- What `join`, and `upgrade` for a websocket session, calls.
def opening (k : Kind) : Callback :=
  if k.isWebsocket then .callbackUpgrade else .callbackAccept

-- What `leave`, and `downgrade` for a websocket session, calls.
def closing (k : Kind) : Callback :=
  if k.isWebsocket then .callbackDowngrade else .callbackClose

end Kind

-- What a session does to the shared state. `join` and `leave` are the changes of the set, which are made
-- under the mutex. The callbacks are called after it has been unlocked.
inductive Event
  | join
  | leave
  | callback (c : Callback)
  deriving DecidableEq

-- How far a session is in its life. In `registering` and `leaving` the callback has not been called yet.
inductive Phase
  | unborn
  | connecting
  | failed
  | registering
  | running
  | destroying
  | leaving
  | destroyed
  deriving DecidableEq

namespace Phase

-- No handler and no destructor of the session is under way.
def idle : Phase → Bool
  | .connecting | .failed | .running => true
  | _                                => false

end Phase

-- `weak_this` tells whether the base `enable_shared_from_this` is alive. `upgraded` and `queue`, the number
-- of messages in `queue_`, are members of websocket sessions.
structure Object where
  phase     : Phase := .unborn
  weak_this : Bool := false
  upgraded  : Bool := false
  queue     : ℕ := 0
  deriving DecidableEq

namespace Object

-- The constructor, and `run` for an HTTP session.
def construct (k : Kind) : Object × Option Event :=
  match k with
  | .http              => ({ phase := .registering, weak_this := true }, some .join)
  | .https | .ws | .wss => ({ phase := .connecting, weak_this := true }, none)

-- This is also `on_accept`, for the websocket sessions of a server.
def on_handshake (k : Kind) (ec : Option Error) (o : Object) : Object × Option Event :=
  if ec.isSome then ({ o with phase := if o.phase = .connecting then .failed else o.phase }, none) else
  if k.isWebsocket then
    if o.upgraded then (o, none) else
    ({ o with phase := .registering, upgraded := true }, some .join)
  else ({ o with phase := .registering }, some .join)

-- The members of the derived class and the bases are destroyed after the body of its destructor, the last
-- base first.
def destroy (k : Kind) (o : Object) : Object :=
  { o with phase := .destroying, weak_this := !k.isWebsocket }

-- The next step of the destructor with a body. That of a websocket session first calls the handlers of the
-- messages that are left.
def destruct (k : Kind) (o : Object) : Object × Option Event :=
  if k.isWebsocket then
    if 0 < o.queue then ({ o with queue := o.queue - 1 }, none) else
    if o.upgraded then ({ o with phase := .leaving, upgraded := false }, some .leave)
    else ({ o with phase := .destroyed }, none)
  else ({ o with phase := .leaving }, some .leave)

inductive Action
  | construct
  | on_handshake (ec : Option Error)
  | callback
  | on_send
  | on_write
  | destroy
  | destruct
  deriving DecidableEq

-- A TLS handshake completes once. The other error paths of a session do not change anything here: there is
-- no further operation, so that it is destroyed. A plain HTTP session runs from the start.
def next (k : Kind) (o : Object) : Action → Option (Object × Option Event)
  | .construct       => if o.phase = .unborn then some (construct k) else none
  | .on_handshake ec =>
    if k = .https ∧ o.phase = .connecting ∨ k.isWebsocket ∧ o.phase.idle then some (o.on_handshake k ec)
    else none
  | .callback        =>
    match o.phase with
    | .registering => some ({ o with phase := .running }, some (.callback k.opening))
    | .leaving     =>
      some ({ o with phase := .destroyed, weak_this := false }, some (.callback k.closing))
    | _            => none
  | .on_send         =>
    if k.isWebsocket ∧ o.phase.idle then some ({ o with queue := o.queue + 1 }, none) else none
  | .on_write        =>
    if k.isWebsocket ∧ o.phase.idle ∧ 0 < o.queue then some ({ o with queue := o.queue - 1 }, none)
    else none
  | .destroy         => if o.phase.idle then some (o.destroy k, none) else none
  | .destruct        => if o.phase = .destroying then some (o.destruct k) else none

end Object

-- `faulted` tells whether `weak_from_this` has been called on a base that was no longer alive.
structure Registry where
  objects  : Session → Object
  sessions : Kind → List Session
  history  : List (Session × Event)
  faulted  : Bool

namespace Registry

def new : Registry where
  objects  := fun _ => {}
  sessions := fun _ => []
  history  := []
  faulted  := false

-- The sets of pointers.
def occur (s : Registry) (kind : Session → Kind) (w : Session) (e : Event) : Registry :=
  { s with
    history  := s.history ++ [(w, e)]
    sessions := fun k =>
      if k ≠ kind w then s.sessions k else
      match e with
      | .join       => (s.sessions k).insert w
      | .leave      => (s.sessions k).erase w
      | .callback _ => s.sessions k }

-- A step of a session, as the session after it and what it has done.
def act (s : Registry) (kind : Session → Kind) (w : Session) (p : Object × Option Event) : Registry :=
  let s := { s with objects := Function.update s.objects w p.1 }
  p.2.elim s (s.occur kind w)

-- The loops of `sendAsync` and `queue_sizes_summed`, for the sets that the call goes through.
def reference (selects : Kind → Bool) (s : Registry) : Registry :=
  { s with faulted := s.faulted || Kind.all.any fun k =>
      selects k && (s.sessions k).any fun w => !(s.objects w).weak_this }

-- A session is known by its pointer. It is destroyed before the memory is used again.
inductive Action
  | session (w : Session) (a : Object.Action)
  | reference (selects : Kind → Bool)

def next (kind : Session → Kind) (s : Registry) : Action → Option Registry
  | .session w a       => ((s.objects w).next (kind w) a).map (s.act kind w)
  | .reference selects => some (s.reference selects)

def system (kind : Session → Kind) :=
  System.ofNext (· = new) (next kind)

end Registry
end BeastNetworking
