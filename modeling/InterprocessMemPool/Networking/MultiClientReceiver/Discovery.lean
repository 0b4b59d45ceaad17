import InterprocessMemPool.Networking.MultiClientReceiver.Basic
import InterprocessMemPool.Text.Search

namespace BeastNetworking.MultiClientReceiver

-- What the functions of the standard library throw.
inductive Exception
  | invalid_argument
  | out_of_range
  deriving DecidableEq

-- The class `\w` of the regular expressions.
def isWord (c : Char) : Bool :=
  c.isAlphanum || c = '_'

-- `std::stoull` for texts that do not begin with a blank or a sign.
def stoull (str : Text) : Except Exception UInt64 :=
  let digits := str.takeWhile Char.isDigit
  if digits = [] then .error .invalid_argument else
  if Nat.ofDigitChars 10 digits 0 < 2 ^ 64 then .ok (.ofNat (Nat.ofDigitChars 10 digits 0))
  else .error .out_of_range

-- A type of integers. A conversion from `unsigned long long` keeps each value that the type has.
class Integer (τ : Type) where
  value       : τ → ℤ
  convert     : UInt64 → τ
  convert_eq  : ∀ {n v}, value v = n.toNat → convert n = v

instance : Integer UInt16 where
  value v    := v.toNat
  convert    := UInt64.toUInt16
  convert_eq := by
    intro n v h
    have := v.toNat_lt
    rw [← UInt16.toNat_inj, UInt64.toNat_toUInt16]
    omega

instance : Integer UInt64 where
  value v    := v.toNat
  convert    := id
  convert_eq := by
    intro n v h
    exact UInt64.toNat_inj.mp (by exact_mod_cast h.symm)

instance : Integer Int64 where
  value      := Int64.toInt
  convert    := UInt64.toInt64
  convert_eq := by
    intro n v h
    calc n.toInt64 = (UInt64.ofNat n.toNat).toInt64 := by rw [UInt64.ofNat_toNat]
      _ = Int64.ofInt n.toNat := by rw [UInt64.toInt64_ofNat', Int64.ofInt_eq_ofNat]
      _ = v := by rw [← h, Int64.ofInt_toInt]

-- A field with a number. `otherwise` is what the conditional expression has for a text without it.
structure Field (τ : Type) where
  key       : Text
  otherwise : UInt64

namespace Field

variable {τ : Type} [Integer τ]

-- The group of the regular expression.
def search (f : Field τ) (str : Text) : Option Text :=
  Search.search f.key Char.isDigit ',' str

def parse (f : Field τ) (str : Text) : Except Exception τ :=
  match f.search str with
  | none        => .ok (Integer.convert f.otherwise)
  | some digits => (stoull digits).map Integer.convert

def port_insecure : Field UInt16 where
  key       := "port_insecure:".toList
  otherwise := -1

def port_secure : Field UInt16 where
  key       := "port_secure:".toList
  otherwise := -1

def uniqueHandleID : Field UInt64 where
  key       := "id:".toList
  otherwise := 0

def endianness : Field UInt16 where
  key       := "endian:".toList
  otherwise := 0

def time : Field Int64 where
  key       := "system_time:".toList
  otherwise := 0

end Field

def topic (str : Text) : Option Text :=
  Search.search "topic:".toList isWord ',' str

structure SenderCharacteristics where
  topic          : Text
  port_insecure  : UInt16
  port_secure    : UInt16
  uniqueHandleID : UInt64
  endianness     : UInt16
  time           : Int64
  deriving DecidableEq

-- The result includes `hadError`.
def SenderCharacteristics.Parse (str : Text) : Except Exception (Bool × SenderCharacteristics) := do
  let port_insecure ← Field.port_insecure.parse str
  let port_secure ← Field.port_secure.parse str
  let uniqueHandleID ← Field.uniqueHandleID.parse str
  let endianness ← Field.endianness.parse str
  let time ← Field.time.parse str
  let topic := MultiClientReceiver.topic str
  return (topic.isNone, {
    topic := topic.getD [], port_insecure, port_secure, uniqueHandleID, endianness, time })

-- `topicStates` tells of each topic whether its state is not null.
structure Receiver where
  useSSL           : Bool
  permitLoopback   : Bool
  uniqueInstanceID : UInt64
  topicStates      : List (Text × Bool)
  clients          : List Client := []
  clientsSSL       : List Client := []

namespace Receiver

-- `endpoint` is the text of an endpoint.
def UniqueClientName (topic : Text) (endpoint : String) : String :=
  "__" ++ String.ofList topic ++ "__" ++ endpoint

-- A client that is not alive is replaced by one with a new session.
def connect (name : String) (session : Session) (clients : List Client) : List Client :=
  if clients.any fun client => client.name = name ∧ client.alive then clients else
  clients.filter (·.name ≠ name) ++ [{ name, session, alive := true }]

def ConnectToServer (topic : Text) (serverEndpoint : String) (session : Session)
    (r : Receiver) : Receiver :=
  match r.topicStates.lookup topic with
  | none | some false => r
  | some true         =>
    let uniqueClientName := UniqueClientName topic serverEndpoint
    if r.useSSL then { r with clientsSSL := connect uniqueClientName session r.clientsSSL }
    else { r with clients := connect uniqueClientName session r.clients }

def port_to_use (c : SenderCharacteristics) (r : Receiver) : UInt16 :=
  if r.useSSL then c.port_secure else c.port_insecure

-- What is done about a broadcast once it has been parsed. `address` is where it has come from.
def process (address : String) (session : Session) (hadError : Bool) (c : SenderCharacteristics)
    (r : Receiver) : Receiver :=
  let port_to_use := r.port_to_use c
  if hadError || port_to_use = 0 then r else
  if !r.permitLoopback && c.uniqueHandleID = r.uniqueInstanceID && r.uniqueInstanceID ≠ 0 then r else
  if (r.topicStates.lookup c.topic).isNone then r else
  r.ConnectToServer c.topic (address ++ ":" ++ toString port_to_use) session

def ProcessBroadcast (address : String) (session : Session) (msg : Text) (r : Receiver) :
    Except Exception Receiver :=
  (SenderCharacteristics.Parse msg).map fun p => r.process address session p.1 p.2

end Receiver
end BeastNetworking.MultiClientReceiver
