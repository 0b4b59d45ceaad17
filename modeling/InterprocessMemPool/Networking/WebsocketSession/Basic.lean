import InterprocessMemPool.Concurrency.System
import InterprocessMemPool.Networking.SendQueue.Basic

namespace BeastNetworking

-- `sending` has `queue_`, `queue_size_` and what goes on on the stream of the session.
structure WebsocketSession where
  sending   : SendQueue := {}
  destroyed : Bool := false
  deriving DecidableEq

namespace WebsocketSession

def accept (m : SpanAndHandler) (s : WebsocketSession) : WebsocketSession :=
  { s with sending := s.sending.accept m }

-- `should_send` is the verdict of the rate enforcer on the message.
def may_send (should_send : Bool) (m : SpanAndHandler) : Bool :=
  should_send || m.force_send

def on_send (should_send : Bool) (m : SpanAndHandler) (max_queue_size : SizeT)
    (s : WebsocketSession) : WebsocketSession :=
  { s with sending := s.sending.on_send (may_send should_send) m max_queue_size }

-- `on_write` as the handler of the operation at position `k`.
def on_write (should_send : Bool) (k : ℕ) (ec : Option Error) (bytes_transferred : SizeT)
    (s : WebsocketSession) : Except Fault WebsocketSession :=
  (s.sending.complete (may_send should_send) k ec bytes_transferred).map fun sending =>
    { s with sending }

-- The destructor. An operation that is still outstanding has been discarded, and its handler will never
-- be called.
def destroy (s : WebsocketSession) : WebsocketSession where
  sending   :=
    { s.sending.queue.foldl
        (fun q m => q.report (some .operation_aborted) 0 [m] |>.dequeue q.queue.tail) s.sending with
      operations := [] }
  destroyed := true

-- The handlers of a session run one after another, as they are on a strand. In between the session can
-- be destroyed at any time.
inductive Action
  | on_send (m : SpanAndHandler) (max_queue_size : SizeT) (should_send : Bool)
  | on_write (k : ℕ) (ec : Option Error) (bytes_transferred : SizeT) (should_send : Bool)
  | destroy
  deriving DecidableEq

def next (s : WebsocketSession) (a : Action) : Option WebsocketSession :=
  if s.destroyed then none else
  match a with
  | .on_send m max_queue_size should_send => some <| (s.accept m).on_send should_send m max_queue_size
  | .on_write k ec bytes should_send      =>
    if s.sending.operations[k]?.any (·.completes ec bytes) then
      (s.on_write should_send k ec bytes).toOption
    else none
  | .destroy                              => some s.destroy

def system :=
  System.ofNext (· = ({} : WebsocketSession)) next

end WebsocketSession
end BeastNetworking
