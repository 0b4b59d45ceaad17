import InterprocessMemPool.Concurrency.Calls
import InterprocessMemPool.Machine

namespace BeastNetworking

-- The four types of sessions, in the order in which `sendAsync` gets to them.
inductive Kind
  | ws
  | wss
  | http
  | https
  deriving DecidableEq

namespace Kind

def all : List Kind :=
  [ws, wss, http, https]

def next : Kind → Option Kind
  | .ws    => some .wss
  | .wss   => some .http
  | .http  => some .https
  | .https => none

end Kind

-- Sessions are told apart by a number. Their type and endpoint do not change.
abbrev Session := ℕ

structure Sessions (ε : Type*) where
  kind     : Session → Kind
  endpoint : Session → ε

-- The arguments that `sendAsync` passes on to each session. The completion handler can be empty.
structure Message where
  msgPtr            : Address
  msgSize           : SizeT
  completionHandler : Option ℕ
  force_send        : Bool
  max_queue_size    : SizeT
  deriving DecidableEq

-- A `std::vector`. `allocation` counts how often its buffer has been replaced, which invalidates all
-- iterators.
structure Vector (α : Type*) where
  items      : List α := []
  capacity   : ℕ := 0
  allocation : ℕ := 0

namespace Vector

variable {α : Type*}

def clear (v : Vector α) : Vector α :=
  { v with items := [] }

def reserve (v : Vector α) (n : ℕ) : Vector α :=
  if v.capacity < n then { v with capacity := n, allocation := v.allocation + 1 } else v

-- The buffer is large enough, as it has been reserved.
def emplace_back (v : Vector α) (as : List α) : Vector α :=
  { v with items := v.items ++ as }

end Vector

-- `expired` has the sessions whose last strong pointer has been released, `posts` what has been posted
-- to the strands of the sessions, and `not_connected` the completion handlers that have been called
-- with this error.
structure SharedState where
  sessions           : Kind → List Session
  sessionPointerPool : Kind → Vector Session
  expired            : List Session
  posts              : List (Session × Message)
  not_connected      : List ℕ

namespace SharedState

def new : SharedState where
  sessions           := fun _ => []
  sessionPointerPool := fun _ => {}
  expired            := []
  posts              := []
  not_connected      := []

-- The sessions that a call of `sendAsync` is for.
inductive Target (ε : Type*)
  | broadcast (to_ws to_tcp : Bool)
  | endpoint (endpoint : ε)
  deriving DecidableEq

namespace Target

variable {ε : Type*} [DecidableEq ε]

def selects : Target ε → Kind → Bool
  | .broadcast to_ws _, .ws | .broadcast to_ws _, .wss       => to_ws
  | .broadcast _ to_tcp, .http | .broadcast _ to_tcp, .https => to_tcp
  | .endpoint _, _                                           => true

def isFor (env : Sessions ε) (w : Session) : Target ε → Bool
  | .broadcast _ _ => true
  | .endpoint e    => env.endpoint w = e

end Target

-- `walking` is a loop over a vector, with the position of its iterator, the position behind the last
-- element, and the buffer that these are in. `faulted` is a call that has used an invalid iterator.
inductive SendAsync.Pc
  | entered
  | looping (k : Kind)
  | walking (k : Kind) (allocation position last : ℕ)
  | finishing
  | returned
  | faulted
  deriving DecidableEq

structure SendAsync (ε : Type*) where
  target      : Target ε
  message     : Message
  sent_to_any : Bool := false
  pc          : SendAsync.Pc := .entered
  deriving DecidableEq

-- The order in which the sessions of a set are iterated over.
abbrev Order := Kind → List Session

variable {ε : Type*} [DecidableEq ε]

def snapshot (target : Target ε) (order : Order) (s : SharedState) : SharedState :=
  { s with
    sessionPointerPool := fun k =>
      let pool := (s.sessionPointerPool k).clear
      if target.selects k then (pool.reserve (s.sessions k).length).emplace_back (order k) else pool }

-- Sending to a session posts to its strand. To take a strong pointer, send and release the pointer is a
-- single step.
def SendAsync.step (env : Sessions ε) (order : Order) (s : SharedState) (c : SendAsync ε) :
    Option (SharedState × SendAsync ε) :=
  match c.pc with
  | .entered                             =>
    if Kind.all.all fun k => (order k).isPerm (s.sessions k) then
      some (s.snapshot c.target order, { c with pc := .looping .ws })
    else none
  | .looping k                           =>
    let pool := s.sessionPointerPool k
    some (s, { c with pc := .walking k pool.allocation 0 pool.items.length })
  | .walking k allocation position last  =>
    if position = last then
      some (s, { c with pc := k.next.elim .finishing .looping })
    else if allocation ≠ (s.sessionPointerPool k).allocation then
      some (s, { c with pc := .faulted })
    else match (s.sessionPointerPool k).items[position]? with
    | none    => some (s, { c with pc := .faulted })
    | some wp =>
      let pc := .walking k allocation (position + 1) last
      if wp ∉ s.expired ∧ c.target.isFor env wp then
        some ({ s with posts := s.posts ++ [(wp, c.message)] }, { c with pc, sent_to_any := true })
      else some (s, { c with pc })
  | .finishing                           =>
    if c.sent_to_any then some (s, { c with pc := .returned }) else
    some ({ s with not_connected := s.not_connected ++ c.message.completionHandler.toList },
      { c with pc := .returned })
  | .returned                            => none
  | .faulted                             => none

-- `join` is also the `upgrade` of a websocket session, and `leave` its `downgrade`. A session joins
-- while there are strong pointers to it, and leaves in its destructor.
inductive Call (ε : Type*)
  | sendAsync (c : SendAsync ε)
  | join (w : Session)
  | expire (w : Session)
  | leave (w : Session)
  | done
  deriving DecidableEq

namespace Call

def starts : Call ε → Bool
  | .sendAsync c => c.pc = .entered ∧ c.sent_to_any = false
  | .join _      => true
  | .expire _    => true
  | .leave _     => true
  | .done        => false

def step (env : Sessions ε) (order : Order) (s : SharedState) :
    Call ε → Option (SharedState × Call ε)
  | .sendAsync c => (c.step env order s).map fun (s, c) => (s, .sendAsync c)
  | .join w      =>
    if w ∈ s.expired then none else
    some ({ s with sessions := fun k =>
      if k = env.kind w then (s.sessions k).insert w else s.sessions k }, .done)
  | .expire w    => some ({ s with expired := w :: s.expired }, .done)
  | .leave w     =>
    if w ∈ s.expired then
      some ({ s with sessions := fun k =>
        if k = env.kind w then (s.sessions k).erase w else s.sessions k }, .done)
    else none
  | .done        => none

end Call

def program (env : Sessions ε) : Program SharedState (Call ε) Order where
  starts := Call.starts
  step   := Call.step env

abbrev Config (ε : Type*) := Program.Config SharedState (Call ε)

def system (env : Sessions ε) :=
  (program env).system (· = new)

end SharedState
end BeastNetworking
