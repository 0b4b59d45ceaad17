import InterprocessMemPool.Networking.MultiClientReceiver.Connections
import InterprocessMemPool.Networking.MultiClientReceiver.Theorems.Handler
import InterprocessMemPool.Networking.MultiClientReceiver.Theorems.Parse

namespace BeastNetworking.MultiClientReceiver

variable {α : Type*} {to_string : α → String} {server server' : Text × Endpoint α}

theorem notMem_repr {c : Char} (hc : c.isDigit = false) (n : ℕ) : c ∉ n.repr.toList := by
  intro h
  rw [Nat.toList_repr] at h
  exact Bool.false_ne_true (hc.symm.trans (Nat.isDigit_of_mem_toDigits (by decide) (by decide) h))

theorem repr_toNat_inj {port port' : UInt16} (h : port.toNat.repr.toList = port'.toNat.repr.toList) :
    port = port' :=
  UInt16.toNat_inj.mp (Nat.repr_injective (String.toList_inj.mp h))

theorem endpointToString_toList (endpoint : Endpoint α) : (EndpointToString to_string endpoint).toList =
    (to_string endpoint.address).toList ++ ':' :: endpoint.port.toNat.repr.toList := by
  simp [EndpointToString, toString]

theorem endpointToString_injective (hi : to_string.Injective) : (EndpointToString to_string).Injective := by
  intro e e' h
  have h := congrArg String.toList h
  rw [endpointToString_toList, endpointToString_toList] at h
  have ⟨ha, hp⟩ := Search.append_cons_inj (notMem_repr rfl _) (notMem_repr rfl _) h
  cases e
  cases e'
  exact congrArg₂ Endpoint.mk (hi (String.toList_inj.mp ha)) (repr_toNat_inj hp)

-- An endpoint has no underscore, so that it begins behind the last one.
theorem uniqueClientName_injective (hi : to_string.Injective) (hu : ∀ a, '_' ∉ (to_string a).toList) :
    (uniqueClientName to_string).Injective := by
  intro p p' h
  have he (e : Endpoint α) : '_' ∉ (EndpointToString to_string e).toList := by
    simp [endpointToString_toList, hu e.address]
  have h : ("__".toList ++ p.1 ++ ['_']) ++ '_' :: (EndpointToString to_string p.2).toList =
      ("__".toList ++ p'.1 ++ ['_']) ++ '_' :: (EndpointToString to_string p'.2).toList := by
    simpa [uniqueClientName, Receiver.UniqueClientName] using congrArg String.toList h
  have ⟨ht, hp⟩ := Search.append_cons_inj (he _) (he _) h
  refine Prod.ext ?_ (endpointToString_injective hi (String.toList_inj.mp hp))
  exact List.append_cancel_left (List.append_cancel_right ht)

variable {clients : List Client} {name name' : String} {session w w' : Session} {arguments : Message}

theorem mem_named {client : Client} (h : client ∈ named clients name) :
    client ∈ clients ∧ client.name = name := by
  have h := Option.mem_toList.mp h
  exact ⟨List.mem_of_find?_eq_some h, by simpa using List.find?_some h⟩

-- What `connect` does to the clients if the session of the name is not alive.
def replaced (name : String) (session : Session) (clients : List Client) : List Client :=
  clients.filter (·.name ≠ name) ++ [{ name, session, alive := true }]

theorem connect_eq_replaced (h : ∀ client ∈ clients, client.name = name → client.alive = false) :
    Receiver.connect name session clients = replaced name session clients := by
  refine if_neg ?_
  simp only [List.any_eq_true, decide_eq_true_eq, not_exists, not_and]
  intro client hc hn ha
  exact Bool.false_ne_true ((h client hc hn).symm.trans ha)

theorem connect_eq_self (session : Session) (h : ¬∀ client ∈ clients, client.name = name → client.alive = false) :
    Receiver.connect name session clients = clients := by
  refine if_pos ?_
  simpa using h

theorem mem_replaced {client : Client} : client ∈ replaced name session clients ↔
    client ∈ clients ∧ client.name ≠ name ∨ client = { name, session, alive := true } := by
  simp [replaced]

theorem named_replaced_self : named (replaced name session clients) name =
    [{ name, session, alive := true }] := by
  have h : (clients.filter (·.name ≠ name)).find? (·.name = name) = none :=
    List.find?_eq_none.mpr (by simp)
  simp only [named, replaced, List.find?_append, h]
  simp

theorem named_replaced (h : name' ≠ name) : named (replaced name session clients) name' = named clients name' := by
  have hf : (clients.filter (·.name ≠ name)).find? (·.name = name') = clients.find? (·.name = name') := by
    rw [List.find?_filter]
    congr
    funext client
    grind
  simp only [named, replaced, List.find?_append, hf]
  simp [h.symm]

namespace Receiver

variable {r r' : Receiver} {topic : Text} {endpoint : String}

-- With `useSSL` fixed one of the maps is never used.
def OneMap (r : Receiver) : Prop :=
  if r.useSSL then r.clients = [] else r.clientsSSL = []

def entries (r : Receiver) : List Client :=
  r.clients ++ r.clientsSSL

theorem OneMap.named_append (h : r.OneMap) :
    named r.clients name ++ named r.clientsSSL name = named r.entries name := by
  unfold OneMap at h
  split at h <;> simp [entries, named, h]

theorem OneMap.connectToServer (h : r.OneMap) (topic : Text) (endpoint : String) (session : Session) :
    r.ConnectToServer topic endpoint session = r ∨
    (∀ client ∈ r.entries, client.name = UniqueClientName topic endpoint → client.alive = false) ∧
    (r.ConnectToServer topic endpoint session).OneMap ∧ (r.ConnectToServer topic endpoint session).entries =
      replaced (UniqueClientName topic endpoint) session r.entries := by
  unfold OneMap at h
  simp only [ConnectToServer]
  split
  case h_1 => exact .inl rfl
  case h_2 => exact .inl rfl
  case h_3 =>
    by_cases hv : ∀ client ∈ r.entries, client.name = UniqueClientName topic endpoint → client.alive = false
    case pos =>
      refine .inr ⟨hv, ?_⟩
      rw [← connect_eq_replaced hv]
      split at h
      case isTrue hs  => simp [OneMap, entries, h, hs]
      case isFalse hs => simp [OneMap, entries, h, hs]
    case neg =>
      have hc := connect_eq_self session hv
      left
      split at h
      case isTrue hs =>
        rw [entries, h, List.nil_append] at hc
        rw [if_pos hs, hc]
      case isFalse hs =>
        rw [entries, h, List.append_nil] at hc
        rw [if_neg hs, hc]

theorem process_cases {address : String} {hadError : Bool} {c : SenderCharacteristics} :
    r.process address session hadError c = r ∨ r.process address session hadError c =
      r.ConnectToServer c.topic (address ++ ":" ++ toString (r.port_to_use c)) session := by
  simp only [process]
  split
  case isTrue => exact .inl rfl
  case isFalse =>
    split
    case isTrue => exact .inl rfl
    case isFalse =>
      split
      case isTrue  => exact .inl rfl
      case isFalse => exact .inr rfl

end Receiver

namespace Connections

variable {n n' : Connections α} {a : Action α} {receiver : Receiver}

-- Each client refers to a session that was created for its name, and is alive if the session is. Each session
-- that is alive has a client.
structure Tabled (to_string : α → String) (created : List (Text × Endpoint α)) (alive : List Session)
    (clients : List Client) : Prop where
  names    : (clients.map Client.name).Nodup
  server   : ∀ client ∈ clients, ∃ server, created[client.session]? = some server ∧
    client.name = uniqueClientName to_string server
  lockable : ∀ client ∈ clients, client.alive = true ↔ client.session ∈ alive
  client   : ∀ w ∈ alive, ∃ client ∈ clients, client.session = w
  nodup    : alive.Nodup

namespace Tabled

variable {created : List (Text × Endpoint α)} {alive : List Session}

theorem nil : Tabled to_string ([] : List (Text × Endpoint α)) [] [] := by
  constructor <;> simp

theorem session_lt (h : Tabled to_string created alive clients) {client : Client} (hc : client ∈ clients) :
    client.session < created.length := by
  have ⟨_, hs, _⟩ := h.server client hc
  exact (List.getElem?_eq_some_iff.mp hs).choose

theorem alive_lt (h : Tabled to_string created alive clients) (hw : w ∈ alive) : w < created.length := by
  obtain ⟨client, hc, rfl⟩ := h.client w hw
  exact h.session_lt hc

theorem replaced (h : Tabled to_string created alive clients)
    (hv : ∀ client ∈ clients, client.name = uniqueClientName to_string server → client.alive = false) :
    Tabled to_string (created ++ [server]) (alive ++ [created.length])
      (replaced (uniqueClientName to_string server) created.length clients) := by
  constructor
  case names =>
    simp only [MultiClientReceiver.replaced, List.map_append, List.map_cons, List.map_nil]
    refine ((List.filter_sublist.map _).nodup h.names).append (List.nodup_singleton _) ?_
    simp
  case server =>
    intro client hc
    obtain ⟨hc, _⟩ | rfl := mem_replaced.mp hc
    · have ⟨p, hp, hn⟩ := h.server client hc
      exact ⟨p, by rw [List.getElem?_append_left (h.session_lt hc), hp], hn⟩
    · exact ⟨server, by simp, rfl⟩
  case lockable =>
    intro client hc
    obtain ⟨hc, _⟩ | rfl := mem_replaced.mp hc
    · simp [h.lockable client hc, (h.session_lt hc).ne]
    · simp
  case client =>
    intro w hw
    obtain hw | hw := List.mem_append.mp hw
    · obtain ⟨client, hc, rfl⟩ := h.client w hw
      refine ⟨client, mem_replaced.mpr (.inl ⟨hc, fun hn => ?_⟩), rfl⟩
      exact Bool.false_ne_true ((hv client hc hn).symm.trans ((h.lockable client hc).mpr hw))
    · exact ⟨_, mem_replaced.mpr (.inr rfl), (List.mem_singleton.mp hw).symm⟩
  case nodup =>
    refine h.nodup.append (List.nodup_singleton _) ?_
    simp only [List.disjoint_singleton]
    exact fun hw => (h.alive_lt hw).false

theorem expire (h : Tabled to_string created alive clients) :
    Tabled to_string created (alive.erase session) (clients.map (expire session)) := by
  have he (client : Client) : (Connections.expire session client).name = client.name ∧
      (Connections.expire session client).session = client.session := by
    unfold Connections.expire
    split <;> simp
  constructor
  case names => simpa [List.map_map, Function.comp_def, he] using h.names
  case server =>
    intro _ hm
    obtain ⟨client, hc, rfl⟩ := List.mem_map.mp hm
    simpa [he] using h.server client hc
  case lockable =>
    intro _ hm
    obtain ⟨client, hc, rfl⟩ := List.mem_map.mp hm
    rw [(he client).right, h.nodup.mem_erase_iff, ← h.lockable client hc, Connections.expire]
    split <;> simp_all
  case client =>
    intro w hw
    obtain ⟨client, hc, rfl⟩ := h.client w (List.mem_of_mem_erase hw)
    exact ⟨_, List.mem_map_of_mem hc, (he client).right⟩
  case nodup => exact h.nodup.erase _

end Tabled

structure Sound (to_string : α → String) (n : Connections α) : Prop where
  oneMap : n.receiver.OneMap
  tabled : Tabled to_string n.created n.alive n.receiver.entries

-- A session has been created for the server. There was none that is alive.
structure Creates (to_string : α → String) (server : Text × Endpoint α) (n n' : Connections α) : Prop where
  vacant  : ∀ client ∈ n.receiver.entries, client.name = uniqueClientName to_string server → client.alive = false
  oneMap  : n'.receiver.OneMap
  entries : n'.receiver.entries = replaced (uniqueClientName to_string server) n.fresh n.receiver.entries
  created : n'.created = n.created ++ [server]
  alive   : n'.alive = n.alive ++ [n.fresh]

theorem Creates.sound (h : Creates to_string server n n') (hs : Sound to_string n) : Sound to_string n' := by
  refine ⟨h.oneMap, ?_⟩
  rw [h.entries, h.created, h.alive]
  exact hs.tabled.replaced h.vacant

theorem Sound.connected_self (hs : Sound to_string n) : n.connected server n.receiver = n := by
  refine if_neg ?_
  simp only [List.any_eq_true, decide_eq_true_eq, not_exists, not_and]
  exact fun client hc => (hs.tabled.session_lt hc).ne

theorem connected_of_replaced (h : receiver.entries = replaced name n.fresh clients) :
    n.connected server receiver = {
      receiver
      created := n.created ++ [server]
      alive   := n.alive ++ [n.fresh] } := by
  rw [Receiver.entries] at h
  rw [connected, h]
  exact if_pos (by simp [replaced])

theorem Sound.connectToServer (hs : Sound to_string n) (server : Text × Endpoint α) :
    n.connected server
      (n.receiver.ConnectToServer server.1 (EndpointToString to_string server.2) n.fresh) = n ∨
    Creates to_string server n (n.connected server
      (n.receiver.ConnectToServer server.1 (EndpointToString to_string server.2) n.fresh)) := by
  obtain h | ⟨hv, ho, he⟩ :=
    hs.oneMap.connectToServer server.1 (EndpointToString to_string server.2) n.fresh
  · exact .inl (by rw [h, hs.connected_self])
  · rw [connected_of_replaced he]
    exact .inr ⟨hv, ho, he, rfl, rfl⟩

-- What a step does.
theorem Sound.next_cases (hs : Sound to_string n) (h : n.next to_string a = some n') :
    n' = n ∨ (∃ server, Creates to_string server n n') ∨ (∃ session, n' = { n with
      receiver := { n.receiver with
        clients    := n.receiver.clients.map (expire session)
        clientsSSL := n.receiver.clientsSSL.map (expire session) }
      alive    := n.alive.erase session }) := by
  cases a
  case ProcessBroadcast address msg =>
    simp only [next] at h
    split at h
    case h_1 => exact .inl (Option.some.inj h).symm
    case h_2 hadError c _ =>
      obtain rfl := Option.some.inj h
      obtain hp | hp := n.receiver.process_cases
      · exact .inl (by rw [hp, hs.connected_self])
      · rw [hp]
        obtain hc | hc := hs.connectToServer (c.topic, { address, port := n.receiver.port_to_use c })
        · exact .inl hc
        · exact .inr (.inl ⟨_, hc⟩)
  case try_connection server =>
    obtain rfl := Option.some.inj h
    obtain hc | hc := hs.connectToServer server
    · exact .inl hc
    · exact .inr (.inl ⟨_, hc⟩)
  case destroy session =>
    obtain ⟨_, h⟩ := Option.ite_none_right_eq_some.mp h
    exact .inr (.inr ⟨session, (Option.some.inj h).symm⟩)

theorem Sound.next (hs : Sound to_string n) (h : n.next to_string a = some n') : Sound to_string n' := by
  obtain rfl | ⟨_, hc⟩ | ⟨session, rfl⟩ := hs.next_cases h
  · exact hs
  · exact hc.sound hs
  · refine ⟨?_, ?_⟩
    · have ho := hs.oneMap
      unfold Receiver.OneMap at ho ⊢
      split at ho <;> simp_all
    · rw [Receiver.entries, ← List.map_append]
      exact hs.tabled.expire

theorem sound (h : (system to_string).Reachable n) : Sound to_string n := by
  refine System.Invariant.holds (I := Sound to_string) ⟨?_, fun _ hs hn => hs.next hn⟩ h
  rintro n ⟨hc, hssl, hn, ha⟩
  refine ⟨?_, ?_⟩
  · simp [Receiver.OneMap, hc, hssl]
  · rw [Receiver.entries, hc, hssl, hn, ha]
    exact .nil

theorem Sound.entry_eq (hs : Sound to_string n) : n.entry to_string server =
    (named n.receiver.entries (uniqueClientName to_string server)).map Client.session := by
  rw [entry, hs.oneMap.named_append]

-- At most one session for a topic and an endpoint is alive. If there is one, it is in the maps, and `SendAsync`
-- passes its arguments to this session alone.
structure OnePerServer (to_string : α → String) (n : Connections α) : Prop where
  created : ∀ {w}, w ∈ n.alive → ∃ server, n.created[w]? = some server
  unique  : ∀ {w w' server}, w ∈ n.alive → w' ∈ n.alive → n.created[w]? = some server →
    n.created[w']? = some server → w = w'
  nodup   : n.alive.Nodup
  entry   : ∀ {w server}, w ∈ n.entry to_string server → n.created[w]? = some server
  reached : ∀ {w server}, w ∈ n.alive → n.created[w]? = some server →
    n.entry to_string server = [w] ∧
    ∀ arguments, n.SendAsync to_string server arguments = .ok { posts := [(w, arguments)], aborted := [] }
  none    : ∀ {server}, (∀ w ∈ n.alive, n.created[w]? ≠ some server) →
    ∀ {arguments sent}, n.SendAsync to_string server arguments = .ok sent → sent.posts = []

theorem Tabled.named_eq {created : List (Text × Endpoint α)} {alive : List Session}
    (h : Tabled to_string created alive clients) {client : Client} (hc : client ∈ clients) :
    named clients client.name = [client] := by
  have hs : (clients.find? (·.name = client.name)).isSome := by
    rw [List.find?_isSome]
    exact ⟨client, hc, by simp⟩
  obtain ⟨client', hf⟩ := Option.isSome_iff_exists.mp hs
  have ⟨hc', hn⟩ := mem_named (Option.mem_toList.mpr hf)
  rw [named, hf, List.inj_on_of_nodup_map h.names hc' hc hn]
  rfl

theorem Sound.sendAsync_eq (hs : Sound to_string n) : n.SendAsync to_string server arguments =
    if live (named n.receiver.entries (uniqueClientName to_string server)) = [] then
      match arguments.completionHandler with
      | none         => .error .bad_function_call
      | some handler => .ok { posts := [], aborted := [(handler, server.2)] }
    else .ok {
      posts   := handedOut arguments (live (named n.receiver.entries (uniqueClientName to_string server)))
      aborted := [] } := by
  have h : n.SendAsync to_string server arguments = _ := sendAll_eq
  rw [hs.oneMap.named_append] at h
  exact h

-- The client of a session that is alive.
theorem Sound.exists_client (hs : Sound to_string n) (hw : w ∈ n.alive) (hp : n.created[w]? = some server) :
    ∃ client ∈ n.receiver.entries, client.session = w ∧ client.alive = true ∧
      client.name = uniqueClientName to_string server := by
  obtain ⟨client, hc, rfl⟩ := hs.tabled.client w hw
  obtain ⟨server', hp', hn⟩ := hs.tabled.server client hc
  obtain rfl := Option.some.inj (hp'.symm.trans hp)
  exact ⟨client, hc, rfl, (hs.tabled.lockable client hc).mpr hw, hn⟩

theorem Sound.created_of_named (hs : Sound to_string n) (hinj : (uniqueClientName to_string).Injective)
    {client : Client} (hc : client ∈ named n.receiver.entries (uniqueClientName to_string server)) :
    n.created[client.session]? = some server := by
  have ⟨hc, hn⟩ := mem_named hc
  have ⟨server', hp, hn'⟩ := hs.tabled.server client hc
  rw [hp, hinj (hn'.symm.trans hn)]

theorem Sound.live_named_eq_nil (hs : Sound to_string n) (hinj : (uniqueClientName to_string).Injective)
    (ha : ∀ w ∈ n.alive, n.created[w]? ≠ some server) :
    live (named n.receiver.entries (uniqueClientName to_string server)) = [] := by
  rw [live, List.map_eq_nil_iff, List.filter_eq_nil_iff]
  intro client hc hal
  have hm := (hs.tabled.lockable client (mem_named hc).left).mp hal
  exact ha _ hm (hs.created_of_named hinj hc)

theorem Sound.each_server (hs : Sound to_string n) (hinj : (uniqueClientName to_string).Injective) :
    OnePerServer to_string n where
  created hw           := ⟨_, List.getElem?_eq_getElem (hs.tabled.alive_lt hw)⟩
  nodup                := hs.tabled.nodup
  unique hw hw' hp hp' := by
    obtain ⟨client, hc, rfl, _, hn⟩ := hs.exists_client hw hp
    obtain ⟨client', hc', rfl, _, hn'⟩ := hs.exists_client hw' hp'
    rw [List.inj_on_of_nodup_map hs.tabled.names hc hc' (hn.trans hn'.symm)]
  entry hw             := by
    rw [hs.entry_eq] at hw
    obtain ⟨client, hc, rfl⟩ := List.mem_map.mp hw
    exact hs.created_of_named hinj hc
  reached hw hp        := by
    obtain ⟨client, hc, rfl, ha, hn⟩ := hs.exists_client hw hp
    have hnamed := hs.tabled.named_eq hc
    rw [hn] at hnamed
    refine ⟨by rw [hs.entry_eq, hnamed]; rfl, fun arguments => ?_⟩
    have hl : live [client] = [client.session] := by simp [live, ha]
    rw [hs.sendAsync_eq, hnamed, hl]
    rfl
  none ha              := by
    intro arguments sent h
    rw [hs.sendAsync_eq, hs.live_named_eq_nil hinj ha, if_pos rfl] at h
    split at h
    case h_1 => cases h
    case h_2 => exact Except.ok.inj h ▸ rfl

-- A step that changes the session of a server in the maps has created it for this server, which had none
-- that was alive.
theorem Sound.entry_next (hs : Sound to_string n) (hinj : (uniqueClientName to_string).Injective)
    (h : n.next to_string a = some n') (server : Text × Endpoint α) :
    n'.entry to_string server = n.entry to_string server ∨
    n'.created = n.created ++ [server] ∧ n'.entry to_string server = [n.fresh] ∧
      ∀ w ∈ n.alive, n.created[w]? ≠ some server := by
  have hs' := hs.next h
  rw [hs'.entry_eq, hs.entry_eq]
  obtain rfl | ⟨server', hc⟩ | ⟨session, rfl⟩ := hs.next_cases h
  · exact .inl rfl
  · rw [hc.entries]
    by_cases he : server = server'
    case neg => exact .inl (by rw [named_replaced (hinj.ne he)])
    case pos =>
      subst he
      refine .inr ⟨hc.created, by rw [named_replaced_self]; rfl, fun w hw hp => ?_⟩
      obtain ⟨client, hm, _, ha, hn⟩ := hs.exists_client hw hp
      exact Bool.false_ne_true ((hc.vacant client hm hn).symm.trans ha)
  · left
    rw [Receiver.entries, ← List.map_append, ← Receiver.entries]
    have he (client : Client) : (expire session client).name = client.name ∧
        (expire session client).session = client.session := by
      unfold expire
      split <;> simp
    simp only [named, List.find?_map, Function.comp_def, (he _).left]
    cases n.receiver.entries.find? _ <;> simp [he]

-- However the sessions of the topics and endpoints are created and destroyed, no two of them are mistaken for
-- each other.
theorem onePerServer (hi : to_string.Injective) (hu : ∀ address, '_' ∉ (to_string address).toList)
    (h : (system to_string).Reachable n) : OnePerServer to_string n ∧
      ∀ {a n'}, (system to_string).Step n a n' → ∀ server,
        n'.entry to_string server = n.entry to_string server ∨
        n'.created = n.created ++ [server] ∧ n'.entry to_string server = [n.fresh] ∧
          ∀ w ∈ n.alive, n.created[w]? ≠ some server :=
  have hinj := uniqueClientName_injective hi hu
  ⟨(sound h).each_server hinj, fun hn => (sound h).entry_next hinj hn⟩

-- An address of version 4, and its text.
structure Dotted where
  a : UInt8
  b : UInt8
  c : UInt8
  d : UInt8
  deriving DecidableEq

def Dotted.text (address : Dotted) : String :=
  toString address.a ++ "." ++ toString address.b ++ "." ++ toString address.c ++ "." ++ toString address.d

theorem Dotted.text_toList (address : Dotted) : address.text.toList =
    ((address.a.toNat.repr.toList ++ '.' :: address.b.toNat.repr.toList) ++
      '.' :: address.c.toNat.repr.toList) ++ '.' :: address.d.toNat.repr.toList := by
  simp [text, toString]

theorem Dotted.text_injective : text.Injective := by
  intro x y h
  have hb {m n : UInt8} (h : m.toNat.repr.toList = n.toNat.repr.toList) : m = n :=
    UInt8.toNat_inj.mp (Nat.repr_injective (String.toList_inj.mp h))
  have hp (m : UInt8) : '.' ∉ m.toNat.repr.toList := notMem_repr rfl _
  have h := congrArg String.toList h
  rw [text_toList, text_toList] at h
  have ⟨h, hd⟩ := Search.append_cons_inj (hp _) (hp _) h
  have ⟨h, hc⟩ := Search.append_cons_inj (hp _) (hp _) h
  have ⟨ha, hb'⟩ := Search.append_cons_inj (hp _) (hp _) h
  cases x
  cases y
  rw [Dotted.mk.injEq]
  exact ⟨hb ha, hb hb', hb hc, hb hd⟩

theorem Dotted.underscore_notMem (address : Dotted) : '_' ∉ address.text.toList := by
  simp [text_toList]

def server₁ : Text × Endpoint Dotted :=
  ("t".toList, { address := ⟨10, 0, 0, 7⟩, port := 8080 })

def server₂ : Text × Endpoint Dotted :=
  ("t".toList, { address := ⟨10, 0, 0, 8⟩, port := 8080 })

-- The first of two sessions of the same topic has been destroyed, and there is one again for its server.
theorem onePerServer_run : ∃ n, (system Dotted.text).Reachable n ∧ n.created = [server₁, server₂, server₁] ∧
    n.alive = [1, 2] ∧ OnePerServer Dotted.text n ∧
    ∀ {n'}, (system Dotted.text).Step n (.destroy 1) n' → ∀ server,
      n'.entry Dotted.text server = n.entry Dotted.text server ∨
      n'.created = n.created ++ [server] ∧ n'.entry Dotted.text server = [n.fresh] ∧
        ∀ w ∈ n.alive, n.created[w]? ≠ some server := by
  obtain ⟨n, hn, hc, ha⟩ : ∃ n, ((system Dotted.text).restrict fun _ _ => True).Reachable n ∧
      n.created = [server₁, server₂, server₁] ∧ n.alive = [1, 2] :=
    System.exec_reachable (s := { receiver := Receiver.listening }) ⟨rfl, rfl, rfl, rfl⟩ <|
      show Option.any _ (System.exec _ _ _ [.try_connection server₁, .try_connection server₂,
        .try_connection server₁, .destroy 0, .try_connection server₁]) by decide +kernel
  have ⟨ho, hs⟩ := onePerServer Dotted.text_injective Dotted.underscore_notMem hn.of_restrict
  exact ⟨n, hn.of_restrict, hc, ha, ho, fun h => hs h⟩

end Connections
end BeastNetworking.MultiClientReceiver
