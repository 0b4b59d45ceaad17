import InterprocessMemPool.Concurrency.System
import InterprocessMemPool.Networking.HandleRequest.Basic
import InterprocessMemPool.Networking.SendQueue.Basic

namespace BeastNetworking

namespace HttpSession

-- A read that has been started, of a request or of a part of `nonhttp_buffer_`.
inductive Read
  | request
  | header (header_size : SizeT)
  | body (header_size body_size : SizeT)
  deriving DecidableEq

-- What a message is written to. What an SSL session writes to its stream is encrypted, and what it writes
-- to the socket below is not.
inductive Layer
  | stream
  | socket
  deriving DecidableEq

-- The first bytes of a message, as many as have been transferred.
structure Transfer where
  layer             : Layer
  message           : SpanAndHandler
  bytes_transferred : SizeT
  deriving DecidableEq

-- What the session reads of its `shared_state`. Of the callback it matters whether there is one.
structure Shared where
  doc_root                               : Text := []
  server_is_tcp_instead_of_http          : Bool := false
  nonhttp_header_size                    : SizeT := 0
  callbackGetBodyLengthFromNonHTTPHeader : Bool := false

-- What has been read, if it is not a part of `nonhttp_buffer_`.
inductive ReadResult
  | end_of_stream
  | error
  | upgrade
  | request (req : Request)

end HttpSession

open HttpSession

-- `queue` has the items of `queue_`, and `sending` has `send_queue_` and what goes on with its messages. Of
-- `nonhttp_buffer_` there is only its size. `reads` and `writes` are the operations on the connection
-- that are outstanding, apart from those of `sending`. `http_reads` and `transfers` record what
-- `on_http_read` was called with (only the size), and what has become of the messages that were sent.
structure HttpSession where
  ssl                 : Bool
  queue               : List Response := []
  sending             : SendQueue := {}
  nonhttp_buffer      : SizeT := 0
  nonhttp_buffer_size : SizeT := 0
  reads               : List Read := []
  writes              : List Response := []
  eof                 : Bool := false
  released            : Bool := false
  http_reads          : List SizeT := []
  transfers           : List Transfer := []
  deriving DecidableEq

namespace HttpSession

variable (shared : Shared)

-- The size of the vector is cached.
def resize (n : SizeT) (s : HttpSession) : HttpSession :=
  if s.nonhttp_buffer_size < n then { s with nonhttp_buffer := n, nonhttp_buffer_size := n } else s

def start_read (r : Read) (s : HttpSession) : HttpSession :=
  { s with reads := s.reads ++ [r] }

def do_read (s : HttpSession) : HttpSession :=
  if shared.server_is_tcp_instead_of_http then
    s.resize shared.nonhttp_header_size |>.start_read (.header shared.nonhttp_header_size)
  else s.start_read .request

def on_error (ec : Option Error) (s : HttpSession) : HttpSession :=
  { s with sending := s.sending.on_error ec }

def on_http_read (msgSize : SizeT) (s : HttpSession) : HttpSession :=
  { s with http_reads := s.http_reads ++ [msgSize] }

def on_nonhttp_read_header (error : Option Error) (body_length : SizeT) (s : HttpSession) : HttpSession :=
  if error.isSome then s.on_error error else
  if shared.callbackGetBodyLengthFromNonHTTPHeader then
    let header_length := shared.nonhttp_header_size
    s.resize (body_length + header_length) |>.start_read (.body header_length body_length)
  else s

-- An error code without an error, whose value is 0, is reported like any other.
def on_nonhttp_read_body (header_size body_size : SizeT) (error : Option Error)
    (bytes_transferred : SizeT) (s : HttpSession) : HttpSession :=
  let expected_byte_count := header_size + body_size
  let had_error := body_size ≠ bytes_transferred ∨ s.nonhttp_buffer < expected_byte_count
  if error.isSome ∨ had_error then s.on_error (error.getD <| .other 0)
  else s.on_http_read expected_byte_count |>.do_read shared

-- The limit of the queue is 8.
def is_full (s : HttpSession) : Bool :=
  8 ≤ s.queue.length

-- The queue is called with a response.
def respond (msg : Response) (s : HttpSession) : HttpSession :=
  let s := { s with queue := s.queue ++ [msg] }
  if s.queue.length = 1 then { s with writes := s.writes ++ [msg] } else s

def on_post (posted : Option Text) (s : HttpSession) : HttpSession :=
  match posted with
  | none      => s
  | some body => s.on_http_read (.ofNat body.length)

-- What `handle_request` leads to.
def handle (s : HttpSession) (e : Exchange) : HttpSession :=
  let s := s.on_post e.posted |>.respond e.response
  if s.is_full then s else s.do_read shared

def on_read (file : Text → FileResult) (s : HttpSession) : ReadResult → Except Fault HttpSession
  | .end_of_stream => .ok { s with eof := true }
  | .error         => .ok s
  | .upgrade       => .ok { s with released := true }
  | .request req   => handle_request file shared.doc_root req |>.map (s.handle shared)

-- The length of the content of each response is known, so that the other end only needs an end of file
-- if the connection is not kept alive.
def need_eof (msg : Response) : Bool :=
  !msg.keep_alive

-- There is nothing to erase in an empty queue.
def on_write (close : Bool) (ec : Option Error) (s : HttpSession) : Except Fault HttpSession :=
  if ec.isSome then .ok s else
  if close then .ok { s with eof := true } else
  match s.queue with
  | []         => .error .undefinedBehavior
  | _ :: queue => .ok <|
    let was_full := s.is_full
    let s := { s with queue, writes := s.writes ++ queue.head?.toList }
    if was_full then s.do_read shared else s

def accept (m : SpanAndHandler) (s : HttpSession) : HttpSession :=
  { s with sending := s.sending.accept m }

def may_send (s : HttpSession) (_ : SpanAndHandler) : Bool :=
  s.queue.isEmpty

def on_send (m : SpanAndHandler) (max_queue_size : SizeT) (s : HttpSession) : HttpSession :=
  { s with sending := s.sending.on_send s.may_send m max_queue_size }

-- `on_write2` as the handler of the operation at position `k`.
def on_write2 (k : ℕ) (ec : Option Error) (bytes_transferred : SizeT) (s : HttpSession) :
    Except Fault HttpSession :=
  (s.sending.complete s.may_send k ec bytes_transferred).map fun sending => { s with sending }

-- `async_send` transfers at least one byte of a message and maybe all of them, or there is an error.
def completes (ec : Option Error) (bytes_transferred : SizeT) : Operation → Bool
  | .write m => if ec = none then 0 < bytes_transferred ∧ bytes_transferred ≤ m.msgSize
    else bytes_transferred = 0
  | .post    => ec = some .operation_aborted ∧ bytes_transferred = 0

-- What comes of a message is known before the handler of its operation runs.
def transfer (ec : Option Error) (bytes_transferred : SizeT) (s : HttpSession) :
    Operation → HttpSession
  | .post    => s
  | .write m => if ec.isSome then s else
    { s with transfers := s.transfers ++ [⟨.socket, m, bytes_transferred⟩] }

-- The handlers of a session run one after another, as they are on a strand. Operations are referred to by
-- their position among those that are outstanding. An `async_read` without an error has read all.
inductive Action
  | on_send (m : SpanAndHandler) (max_queue_size : SizeT)
  | on_write2 (k : ℕ) (ec : Option Error) (bytes_transferred : SizeT)
  | on_read (k : ℕ) (file : Text → FileResult) (result : ReadResult)
  | on_write (k : ℕ) (ec : Option Error)
  | on_nonhttp_read_header (k : ℕ) (error : Option Error) (body_length : SizeT)
  | on_nonhttp_read_body (k : ℕ) (error : Option Error) (bytes_transferred : SizeT)

-- The handlers that are still posted to a session when its stream has been released are not part of the
-- model, nor is what follows an exception, which a vector can throw that is to be resized.
def next (s : HttpSession) (a : Action) : Option HttpSession :=
  if s.released then none else
  match a with
  | .on_send m max_queue_size => some <| (s.accept m).on_send m max_queue_size
  | .on_write2 k ec bytes => do
    let op ← s.sending.operations[k]?
    if completes ec bytes op then (s.transfer ec bytes op).on_write2 k ec bytes |>.toOption else none
  | .on_read k file result => do
    let .request ← s.reads[k]? | none
    { s with reads := s.reads.eraseIdx k }.on_read shared file result |>.toOption
  | .on_write k ec => do
    let msg ← s.writes[k]?
    { s with writes := s.writes.eraseIdx k }.on_write shared (need_eof msg) ec |>.toOption
  | .on_nonhttp_read_header k error body_length => do
    let .header _ ← s.reads[k]? | none
    some <| { s with reads := s.reads.eraseIdx k }.on_nonhttp_read_header shared error body_length
  | .on_nonhttp_read_body k error bytes => do
    let .body header_size body_size ← s.reads[k]? | none
    if error.isNone && bytes ≠ body_size then none else
    some <| { s with reads := s.reads.eraseIdx k }.on_nonhttp_read_body shared header_size body_size
      error bytes

-- A session starts with a read, after the handshake of an SSL session.
def start (ssl : Bool) : HttpSession :=
  ({ ssl } : HttpSession).do_read shared

def system :=
  System.ofNext (fun s => ∃ ssl, s = start shared ssl) (next shared)

-- A server for messages with headers of the given size.
def raw (header_size : SizeT) : Shared where
  server_is_tcp_instead_of_http          := true
  nonhttp_header_size                    := header_size
  callbackGetBodyLengthFromNonHTTPHeader := true

end HttpSession
end BeastNetworking
