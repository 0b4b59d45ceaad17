import InterprocessMemPool.Networking.MultiClientReceiver.Discovery

namespace BeastNetworking.MultiClientReceiver

variable {α : Type*} (to_string : α → String)

structure Endpoint (α : Type*) where
  address : α
  port    : UInt16
  deriving DecidableEq

def EndpointToString (endpoint : Endpoint α) : String :=
  to_string endpoint.address ++ ":" ++ toString endpoint.port

def uniqueClientName (server : Text × Endpoint α) : String :=
  Receiver.UniqueClientName server.1 (EndpointToString to_string server.2)

-- A receiver and the sessions that it has created, each with its topic and its endpoint. Sessions are
-- numbered in the order of their creation. `alive` are those that have not been destroyed.
structure Connections (α : Type*) where
  receiver : Receiver
  created  : List (Text × Endpoint α) := []
  alive    : List Session := []

inductive Action (α : Type*)
  | ProcessBroadcast (address : α) (msg : Text)
  | try_connection (server : Text × Endpoint α)
  | destroy (session : Session)

namespace Connections

-- The number of the session that is created next.
def fresh (n : Connections α) : Session :=
  n.created.length

-- The session was created if it has been put into one of the maps.
def connected (server : Text × Endpoint α) (receiver : Receiver) (n : Connections α) : Connections α :=
  if (receiver.clients ++ receiver.clientsSSL).any (·.session = n.fresh) then {
    receiver
    created := n.created ++ [server]
    alive   := n.alive ++ [n.fresh] }
  else { n with receiver }

-- The weak pointers to a session that is destroyed cannot be locked any more.
def expire (session : Session) (client : Client) : Client :=
  if client.session = session then { client with alive := false } else client

-- A broadcast for which an exception is thrown changes nothing.
def next (n : Connections α) : Action α → Option (Connections α)
  | .ProcessBroadcast address msg =>
    match SenderCharacteristics.Parse msg with
    | .error _      => some n
    | .ok (hadError, c) =>
      some <| n.connected (c.topic, { address, port := n.receiver.port_to_use c })
        (n.receiver.process (to_string address) n.fresh hadError c)
  | .try_connection server =>
    some <| n.connected server
      (n.receiver.ConnectToServer server.1 (EndpointToString to_string server.2) n.fresh)
  | .destroy session =>
    if session ∈ n.alive then some { n with
      receiver := { n.receiver with
        clients    := n.receiver.clients.map (expire session)
        clientsSSL := n.receiver.clientsSSL.map (expire session) }
      alive    := n.alive.erase session }
    else none

def system : System (Connections α) (Action α) :=
  .ofNext (fun n => n.receiver.clients = [] ∧ n.receiver.clientsSSL = [] ∧ n.created = [] ∧ n.alive = [])
    (next to_string)

-- `SendAsync` for a topic and an endpoint.
def SendAsync (n : Connections α) (server : Text × Endpoint α) (arguments : Message) :
    Except Fault (Sent (Endpoint α)) :=
  SendAsyncTo n.receiver.clients n.receiver.clientsSSL (uniqueClientName to_string server) arguments server.2

-- The session of a topic and an endpoint in the maps, alive or not.
def entry (n : Connections α) (server : Text × Endpoint α) : List Session :=
  (named n.receiver.clients (uniqueClientName to_string server) ++
    named n.receiver.clientsSSL (uniqueClientName to_string server)).map Client.session

end Connections
end BeastNetworking.MultiClientReceiver
