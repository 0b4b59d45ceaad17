import InterprocessMemPool.Concurrency.Shedding
import InterprocessMemPool.Machine

namespace BeastNetworking

-- `boost::beast::error_code`, as far as the sessions tell errors apart. That there is no error is `none`.
inductive Error
  | operation_aborted
  | closed
  | other (value : ℕ)
  deriving DecidableEq

-- The `SpanAndHandlerT` of the source. An empty completion handler is `none`.
structure SpanAndHandler where
  msgPtr            : Address
  msgSize           : SizeT
  completionHandler : Option ℕ
  force_send        : Bool
  deriving DecidableEq

-- The condition `msgPtr != nullptr && msgSize > 0`.
def SpanAndHandler.hasContent (m : SpanAndHandler) : Bool :=
  m.msgPtr ≠ 0 && 0 < m.msgSize

-- The arguments of a call of the completion handler of a message, if it has one.
structure Report where
  message           : SpanAndHandler
  ec                : Option Error
  bytes_transferred : SizeT
  deriving DecidableEq

-- An operation that has been started and whose completion handler, `on_write`, has not run yet: either
-- the message is being written, or the handler has just been posted.
inductive Operation
  | write (m : SpanAndHandler)
  | post
  deriving DecidableEq

-- A posted handler has been bound to its arguments.
def Operation.completes (ec : Option Error) (bytes_transferred : SizeT) : Operation → Bool
  | .write _ => true
  | .post    => ec = some .operation_aborted ∧ bytes_transferred = 0

-- What both types of sessions send messages with, `queue_` and `send_queue_`. The last four components
-- only record what has happened: the messages that `on_send` was called with, those that were handed to
-- the stream, the calls of completion handlers, and the errors that were passed on to `on_error`. The
-- first of them is up to who calls `on_send`.
structure SendQueue where
  queue      : List SpanAndHandler := []
  queue_size : ℕ := 0
  operations : List Operation := []
  accepted   : List SpanAndHandler := []
  written    : List SpanAndHandler := []
  reports    : List Report := []
  errors     : List Error := []
  deriving DecidableEq

namespace SendQueue

def accept (m : SpanAndHandler) (q : SendQueue) : SendQueue :=
  { q with accepted := q.accepted ++ [m] }

def report (ec : Option Error) (bytes_transferred : SizeT) (ms : List SpanAndHandler)
    (q : SendQueue) : SendQueue :=
  { q with reports := q.reports ++ ms.map (⟨·, ec, bytes_transferred⟩) }

-- `on_error` does not report these two.
def on_error (ec : Option Error) (q : SendQueue) : SendQueue :=
  match ec with
  | none | some .operation_aborted | some .closed => q
  | some e                                        => { q with errors := q.errors ++ [e] }

-- The loop that blows messages away. The first two in the queue are out of its reach.
def shed (max_queue_size : SizeT) (q : SendQueue) : List SpanAndHandler × List SpanAndHandler :=
  Shedding.shed SpanAndHandler.force_send (max max_queue_size 2).toNat q.queue.length (q.queue.drop 2)

def start (may_send : Bool) (m : SpanAndHandler) (q : SendQueue) : SendQueue :=
  if may_send then
    { q with operations := q.operations ++ [.write m], written := q.written ++ [m] }
  else { q with operations := q.operations ++ [.post] }

def enqueue (m : SpanAndHandler) (max_queue_size : SizeT) (q : SendQueue) : SendQueue :=
  let (kept, dropped) := q.shed max_queue_size
  let queue := q.queue.take 2 ++ kept ++ [m]
  { q.report (some .operation_aborted) 0 dropped with
    queue
    queue_size := queue.length }

-- The sessions differ in what they send. `may_send` has the value of this variable for a message that
-- is not kept from being sent by its content.
def on_send (may_send : SpanAndHandler → Bool) (m : SpanAndHandler) (max_queue_size : SizeT)
    (q : SendQueue) : SendQueue :=
  let q := q.enqueue m max_queue_size
  if 1 < q.queue.length then q else q.start (may_send m && m.hasContent) m

def dequeue (queue : List SpanAndHandler) (q : SendQueue) : SendQueue :=
  { q with queue, queue_size := queue.length }

-- The handler of an operation. There is no front of an empty queue.
def on_write (may_send : SpanAndHandler → Bool) (ec : Option Error) (bytes_transferred : SizeT)
    (q : SendQueue) : Except Fault SendQueue :=
  match q.queue with
  | []         => .error .undefinedBehavior
  | m :: queue =>
    let q := q.report ec bytes_transferred [m] |>.dequeue queue |>.on_error ec
    match queue with
    | []        => .ok q
    | next :: _ => .ok <| q.start (may_send next && next.hasContent) next

-- The operation at position `k` completes.
def complete (may_send : SpanAndHandler → Bool) (k : ℕ) (ec : Option Error) (bytes_transferred : SizeT)
    (q : SendQueue) : Except Fault SendQueue :=
  on_write may_send ec bytes_transferred { q with operations := q.operations.eraseIdx k }

end SendQueue
end BeastNetworking
