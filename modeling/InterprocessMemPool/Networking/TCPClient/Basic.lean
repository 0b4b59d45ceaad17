import InterprocessMemPool.Concurrency.System
import InterprocessMemPool.Networking.SendQueue.Basic

namespace BeastNetworking

-- `write_msgs_` with the calls of `async_write` that are outstanding. The last three components record the
-- messages that have been scheduled, those that have been handed to the socket, and those behind the front
-- that have been cleared.
structure WriteQueue where
  write_msgs : List Text := []
  writes     : List Text := []
  scheduled  : List Text := []
  handed     : List Text := []
  cleared    : List Text := []
  deriving DecidableEq

namespace WriteQueue

def do_write (q : WriteQueue) : Except Fault WriteQueue :=
  match q.write_msgs with
  | []       => .error .undefinedBehavior
  | msg :: _ => .ok { q with writes := q.writes ++ [msg], handed := q.handed ++ [msg] }

def schedule_write (msg : Text) (q : WriteQueue) : Except Fault WriteQueue :=
  let write_in_progress := !q.write_msgs.isEmpty
  let q := { q with write_msgs := q.write_msgs ++ [msg], scheduled := q.scheduled ++ [msg] }
  if write_in_progress then .ok q else q.do_write

-- What `on_write` does to the queue, as the handler of the write at position `k`.
def on_write (k : ℕ) (ec : Option Error) (q : WriteQueue) : Except Fault WriteQueue :=
  let q := { q with writes := q.writes.eraseIdx k }
  match ec with
  | some _ => .ok { q with write_msgs := [], cleared := q.cleared ++ q.write_msgs.tail }
  | none   =>
    match q.write_msgs with
    | []              => .error .undefinedBehavior
    | _ :: write_msgs =>
      let q := { q with write_msgs }
      if write_msgs.isEmpty then .ok q else q.do_write

end WriteQueue

namespace TCPClientBase

-- An operation on the way to a connection whose handler has not run yet.
inductive Attempt
  | resolve
  | connect
  | handshake
  deriving DecidableEq

-- The handlers that `write` and `close` post to the strand of the socket.
inductive Posted
  | schedule_write (msg : Text)
  | handle_close
  deriving DecidableEq

def Posted.msg? : Posted → Option Text
  | .schedule_write msg => some msg
  | .handle_close       => none

-- The callbacks that are called, if they are set.
inductive Call (ε : Type)
  | callbackRead (endpoint : ε) (msgSize : SizeT)
  | callbackAccept (endpoint : ε)
  | callbackClose (endpoint : ε)
  | callbackError (endpoint : ε) (ec : Error)
  deriving DecidableEq

end TCPClientBase

-- `attempts`, `reads` and `posted` are the operations that are outstanding and the handlers that have been
-- posted. `faulted` tells whether the behavior has become undefined. The last two components record the
-- messages that `write` was called with, and the calls of callbacks.
structure TCPClientBase (ε : Type) where
  endpoint  : ε
  connected : Bool := false
  queue     : WriteQueue := {}
  attempts  : List TCPClientBase.Attempt := []
  reads     : ℕ := 0
  posted    : List TCPClientBase.Posted := []
  destroyed : Bool := false
  faulted   : Bool := false
  written   : List Text := []
  calls     : List (TCPClientBase.Call ε) := []
  deriving DecidableEq

namespace TCPClientBase

variable {ε : Type}

def call (callback : Call ε) (c : TCPClientBase ε) : TCPClientBase ε :=
  { c with calls := c.calls ++ [callback] }

def accept (msg : Text) (c : TCPClientBase ε) : TCPClientBase ε :=
  { c with written := c.written ++ [msg] }

def write (msg : Text) (c : TCPClientBase ε) : TCPClientBase ε :=
  { c with posted := c.posted ++ [.schedule_write msg] }

def close (c : TCPClientBase ε) : TCPClientBase ε :=
  { c with posted := c.posted ++ [.handle_close] }

def run (c : TCPClientBase ε) : TCPClientBase ε :=
  { c with attempts := c.attempts ++ [.resolve] }

def handle_error (ec : Error) (c : TCPClientBase ε) : TCPClientBase ε :=
  c.call (.callbackError c.endpoint ec)

-- Operations on the socket are cancelled when it is closed, unless they have completed by then. Their handlers
-- are yet to run in any case.
def handle_close (c : TCPClientBase ε) : TCPClientBase ε :=
  if c.connected then { c.call (.callbackClose c.endpoint) with connected := false } else c

def do_read (c : TCPClientBase ε) : TCPClientBase ε :=
  { c with reads := c.reads + 1 }

def on_finish_connect_or_handshake (ec : Option Error) (c : TCPClientBase ε) : TCPClientBase ε :=
  match ec with
  | none    => { c with connected := true }.call (.callbackAccept c.endpoint) |>.do_read
  | some ec => c.handle_error ec |>.handle_close

def on_resolve (result : Except Error ε) (c : TCPClientBase ε) : TCPClientBase ε :=
  match result with
  | .error ec    => c.handle_error ec
  | .ok endpoint => { c with endpoint, attempts := c.attempts ++ [.connect] }

-- The member function of the derived class, which is `SSLTCPClient` or `PlainTCPClient`.
def on_connect (ssl : Bool) (ec : Option Error) (c : TCPClientBase ε) : TCPClientBase ε :=
  if ssl then
    match ec with
    | none    => { c with attempts := c.attempts ++ [.handshake] }
    | some ec => c.handle_error ec |>.handle_close
  else c.on_finish_connect_or_handshake ec

-- A function that uses the queue. There is no front of an empty queue.
def use (f : WriteQueue → Except Fault WriteQueue) (c : TCPClientBase ε) : TCPClientBase ε :=
  match f c.queue with
  | .ok queue => { c with queue }
  | .error _  => { c with faulted := true }

def on_write (k : ℕ) (ec : Option Error) (c : TCPClientBase ε) : TCPClientBase ε :=
  let c := c.use (WriteQueue.on_write k ec)
  ec.elim c fun ec => c.handle_error ec |>.handle_close

def on_read (ec : Option Error) (length : SizeT) (c : TCPClientBase ε) : TCPClientBase ε :=
  match ec with
  | none    => c.call (.callbackRead c.endpoint length) |>.do_read
  | some ec => c.handle_error ec |>.handle_close

def Posted.run (p : Posted) (c : TCPClientBase ε) : TCPClientBase ε :=
  match p with
  | .schedule_write msg => c.use (WriteQueue.schedule_write msg)
  | .handle_close       => c.handle_close

-- The socket is a member of the derived class, and has been destroyed before the destructor of the base class
-- closes it. Handlers that are still to run have been discarded.
def destroy (c : TCPClientBase ε) : TCPClientBase ε :=
  { c with
    queue     := { c.queue with write_msgs := [], writes := [] }
    attempts  := []
    reads     := 0
    posted    := []
    destroyed := true
    faulted   := c.faulted || c.connected }

-- Posted handlers run in the order in which they were posted, and the others at any time. The client can be
-- destroyed at any time.
inductive Action (ε : Type)
  | write (msg : Text)
  | close
  | run
  | posted
  | on_resolve (k : ℕ) (result : Except Error ε)
  | on_connect (k : ℕ) (ec : Option Error)
  | on_handshake (k : ℕ) (ec : Option Error)
  | on_write (k : ℕ) (ec : Option Error)
  | on_read (ec : Option Error) (length : SizeT)
  | destroy

-- The attempt at position `k` completes.
def complete (k : ℕ) (attempt : Attempt) (f : TCPClientBase ε → TCPClientBase ε) (c : TCPClientBase ε) :
    Option (TCPClientBase ε) :=
  if c.attempts[k]? = some attempt then some <| f { c with attempts := c.attempts.eraseIdx k } else none

def next (ssl : Bool) (c : TCPClientBase ε) (a : Action ε) : Option (TCPClientBase ε) :=
  if c.destroyed then none else
  match a with
  | .write msg           => some <| (c.accept msg).write msg
  | .close               => some c.close
  | .run                 => some c.run
  | .posted              =>
    match c.posted with
    | []          => none
    | p :: posted => some (p.run { c with posted })
  | .on_resolve k result => c.complete k .resolve (.on_resolve result)
  | .on_connect k ec     => c.complete k .connect (.on_connect ssl ec)
  | .on_handshake k ec   => c.complete k .handshake (.on_finish_connect_or_handshake ec)
  | .on_write k ec       => if k < c.queue.writes.length then some (c.on_write k ec) else none
  | .on_read ec length   =>
    if 0 < c.reads then some <| { c with reads := c.reads - 1 }.on_read ec length else none
  | .destroy             => some c.destroy

def system (ε : Type) (ssl : Bool) : System (TCPClientBase ε) (Action ε) :=
  System.ofNext (fun c => ∃ endpoint, c = { endpoint }) (next ssl)

end TCPClientBase
end BeastNetworking
