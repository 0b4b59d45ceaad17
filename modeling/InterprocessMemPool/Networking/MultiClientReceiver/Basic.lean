import InterprocessMemPool.Networking.SharedState.Basic

namespace BeastNetworking.MultiClientReceiver

-- A client and its name. `alive` tells whether its weak pointer can be locked when it is its turn.
structure Client where
  name    : String
  session : Session
  alive   : Bool

-- The variables of `SendAsync`, and what it has posted to the sessions so far. `arguments` includes the
-- completion handler.
structure Sending where
  arguments : Message
  found     : Bool
  posts     : List (Session × Message)

-- `aborted` has the handlers that have been called with `operation_aborted`, and the endpoints that
-- they were given.
structure Sent (ε : Type*) where
  posts   : List (Session × Message)
  aborted : List (ℕ × ε)
  deriving DecidableEq

variable {ε : Type*}

-- The handler is moved into the parameter of the session's `sendAsync`, which leaves it empty.
def send (s : Sending) (client : Client) : Sending :=
  if client.alive then {
    arguments := { s.arguments with completionHandler := none }
    found     := true
    posts     := s.posts ++ [(client.session, s.arguments)] }
  else s

def sendAll (clients clientsSSL : List Client) (arguments : Message) (endpoint : ε) :
    Except Fault (Sent ε) :=
  let s := clients.foldl send { arguments, found := false, posts := [] }
  let s := clientsSSL.foldl send s
  if s.found then .ok { posts := s.posts, aborted := [] } else
  match s.arguments.completionHandler with
  | none         => .error .bad_function_call
  | some handler => .ok { posts := s.posts, aborted := [(handler, endpoint)] }

-- The endpoint is `boost::asio::ip::tcp::endpoint()`.
def SendAsync [Inhabited ε] (clients clientsSSL : List Client) (arguments : Message) :
    Except Fault (Sent ε) :=
  sendAll clients clientsSSL arguments default

-- A name that is missing in a map is added without a session, which makes no difference.
def named (clients : List Client) (uniqueClientName : String) : List Client :=
  (clients.find? (·.name = uniqueClientName)).toList

-- The overload for a topic and an endpoint, which make up the name of a client.
def SendAsyncTo (clients clientsSSL : List Client) (uniqueClientName : String) (arguments : Message)
    (endpoint : ε) : Except Fault (Sent ε) :=
  sendAll (named clients uniqueClientName) (named clientsSSL uniqueClientName) arguments endpoint

-- What the sessions still have to do with a message, and the handlers that they have called.
structure Delivery where
  outstanding : List (Session × Message)
  invoked     : List (Session × ℕ)

namespace Delivery

-- A session is done with its message, and calls and destroys its copy of the handler.
def next (d : Delivery) (i : ℕ) : Option Delivery :=
  d.outstanding[i]?.map fun (w, m) => {
    outstanding := d.outstanding.eraseIdx i
    invoked     := d.invoked ++ m.completionHandler.toList.map (w, ·) }

def system (posts : List (Session × Message)) : System Delivery ℕ :=
  .ofNext (· = { outstanding := posts, invoked := [] }) next

end Delivery
end BeastNetworking.MultiClientReceiver
