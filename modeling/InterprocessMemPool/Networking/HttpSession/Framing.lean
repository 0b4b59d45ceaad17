import InterprocessMemPool.Networking.HttpSession.Basic

namespace BeastNetworking.HttpSession

-- A plain session with the bytes of its buffers, and those that are still to come from its socket. `buffer` has
-- what `async_detect_ssl` has read from there, if it has been called. `headers` and `http_reads` are the bytes
-- that the callback for the length and `on_http_read` were called with.
structure Framing where
  session        : HttpSession
  buffer         : List UInt8
  nonhttp_buffer : List UInt8
  stream         : List UInt8
  headers        : List (List UInt8) := []
  http_reads     : List (List UInt8) := []

namespace Framing

-- `async_read` of `n` bytes from the socket to the given position of the buffer. The behavior is undefined if they
-- are not in the buffer.
def async_read (position n : SizeT) (c : Framing) : Option Framing :=
  if n.toNat ≤ c.stream.length ∧ position.toNat + n.toNat ≤ c.nonhttp_buffer.length then
    some { c with
      nonhttp_buffer := c.nonhttp_buffer.take position.toNat ++ c.stream.take n.toNat ++
        c.nonhttp_buffer.drop (position.toNat + n.toNat)
      stream         := c.stream.drop n.toNat }
  else none

-- What the session does to the bytes. New ones in the buffer are 0.
def proceed (session : HttpSession) (c : Framing) : Framing :=
  { c with
    session
    nonhttp_buffer := c.nonhttp_buffer ++
      List.replicate (session.nonhttp_buffer.toNat - c.nonhttp_buffer.length) 0
    http_reads     := c.http_reads ++ (session.http_reads.drop c.session.http_reads.length).map fun n =>
      c.nonhttp_buffer.take n.toNat }

-- The callback is called with all of the buffer.
def next (bodyLength : List UInt8 → SizeT) (header_size : SizeT) (c : Framing) (_ : Unit) : Option Framing :=
  match c.session.reads with
  | [.header n] => do
    let c ← c.async_read 0 n
    let session ← c.session.next (raw header_size)
      (.on_nonhttp_read_header 0 none (bodyLength c.nonhttp_buffer))
    return { c.proceed session with headers := c.headers ++ [c.nonhttp_buffer] }
  | [.body n m] => do
    let c ← c.async_read n m
    let session ← c.session.next (raw header_size) (.on_nonhttp_read_body 0 none m)
    return c.proceed session
  | _           => none

def start (header_size : SizeT) (buffer stream : List UInt8) : Framing where
  session        := HttpSession.start (raw header_size) false
  buffer
  nonhttp_buffer := List.replicate header_size.toNat 0
  stream

def system (bodyLength : List UInt8 → SizeT) (header_size : SizeT) (buffer stream : List UInt8) :=
  System.ofNext (· = start header_size buffer stream) (next bodyLength header_size)

end Framing
end BeastNetworking.HttpSession
