import InterprocessMemPool.Networking.MultiClientReceiver.Basic

namespace BeastNetworking

def Message.moved (m : Message) : Message :=
  { m with completionHandler := none }

namespace MultiClientReceiver

variable {ε : Type*} {clients clientsSSL : List Client} {s : Sending} {arguments : Message}
variable {endpoint : ε} {posts : List (Session × Message)} {ws : List Session} {d d' : Delivery}

-- The sessions whose weak pointers can be locked.
def live (clients : List Client) : List Session :=
  (clients.filter Client.alive).map Client.session

-- Only the first session gets what `arguments` has for a handler.
def handedOut (arguments : Message) : List Session → List (Session × Message)
  | []      => []
  | w :: ws => (w, arguments) :: ws.map (·, arguments.moved)

theorem handedOut_moved : handedOut arguments.moved ws = ws.map (·, arguments.moved) := by
  cases ws <;> rfl

theorem handedOut_cons {w : Session} :
    handedOut arguments (w :: ws) = (w, arguments) :: handedOut arguments.moved ws := by
  rw [handedOut_moved, handedOut]

theorem foldl_send : clients.foldl send s = {
    arguments := if live clients = [] then s.arguments else s.arguments.moved
    found     := s.found || live clients ≠ []
    posts     := s.posts ++ handedOut s.arguments (live clients) } := by
  induction clients generalizing s
  case nil => simp [live, handedOut]
  case cons client clients ih =>
    rw [List.foldl_cons, ih]
    cases ha : client.alive
    case false =>
      have hl : live (client :: clients) = live clients := by simp [live, ha]
      simp [send, ha, hl]
    case true =>
      have hl : live (client :: clients) = client.session :: live clients := by simp [live, ha]
      have hs : send s client = {
          arguments := s.arguments.moved
          found     := true
          posts     := s.posts ++ [(client.session, s.arguments)] } := if_pos ha
      have hm : s.arguments.moved.moved = s.arguments.moved := rfl
      simp [hs, hl, hm, handedOut_cons]

theorem sendAll_eq : sendAll clients clientsSSL arguments endpoint =
    if live (clients ++ clientsSSL) = [] then
      match arguments.completionHandler with
      | none         => .error .bad_function_call
      | some handler => .ok { posts := [], aborted := [(handler, endpoint)] }
    else .ok { posts := handedOut arguments (live (clients ++ clientsSSL)), aborted := [] } := by
  rw [sendAll, ← List.foldl_append, foldl_send]
  by_cases hl : live (clients ++ clientsSSL) = []
  case pos => cases hc : arguments.completionHandler <;> simp [hl, hc, handedOut]
  case neg => simp [hl]

theorem invoked_perm {handler : ℕ} (h : (Delivery.system (ws.map (·, arguments))).Reachable d)
    (hm : arguments.completionHandler = some handler) :
    (∀ p ∈ d.outstanding, p.2.completionHandler = some handler) ∧
    (d.invoked ++ d.outstanding.map fun p => (p.1, handler)).Perm (ws.map (·, handler)) := by
  refine System.Invariant.holds (I := fun d : Delivery =>
    (∀ p ∈ d.outstanding, p.2.completionHandler = some handler) ∧
    (d.invoked ++ d.outstanding.map fun p => (p.1, handler)).Perm (ws.map (·, handler)))
    ⟨?_, ?_⟩ h
  · rintro _ rfl
    refine ⟨by simp [hm], ?_⟩
    simp only [List.nil_append, List.map_map]
    exact .refl _
  · intro d i d' _ ⟨hall, hp⟩ hs
    obtain ⟨⟨w, m⟩, hi, rfl⟩ := Option.map_eq_some_iff.mp hs
    have hm' := hall _ (List.mem_of_getElem? hi)
    have ⟨hlt, he⟩ := List.getElem?_eq_some_iff.mp hi
    refine ⟨fun p hp => hall p (List.mem_of_mem_eraseIdx hp), .trans ?_ hp⟩
    simp only at hm'
    have := (List.getElem_cons_eraseIdx_perm hlt).map fun p => (p.1, handler)
    rw [he, List.map_cons] at this
    simpa [hm'] using this.append_left d.invoked

-- The law for the sessions `ws`: each of them gets the arguments with the handler, and if there are none,
-- it is the handler that is called. Whatever the order in which the sessions get done, each has called
-- the handler once or is yet to, and as long as there is one that is not done, there is a copy of it.
structure Lawful (ws : List Session) (arguments : Message) (endpoint : ε)
    (r : Except Fault (Sent ε)) : Prop where
  sent    : r = .ok {
    posts   := ws.map (·, arguments)
    aborted := if ws = [] then arguments.completionHandler.toList.map (·, endpoint) else [] }
  invoked : ∀ sent, r = .ok sent → ∀ {d}, (Delivery.system sent.posts).Reachable d →
    ∀ {handler}, arguments.completionHandler = some handler →
      (d.invoked ++ d.outstanding.map fun p => (p.1, handler)).Perm (ws.map (·, handler))
  owned   : ∀ sent, r = .ok sent → ∀ {d}, (Delivery.system sent.posts).Reachable d →
    ∀ {handler}, arguments.completionHandler = some handler → d.outstanding ≠ [] →
      ∃ p ∈ d.outstanding, p.2.completionHandler = some handler

theorem Lawful.of_sent {r : Except Fault (Sent ε)} (h : r = .ok {
    posts   := ws.map (·, arguments)
    aborted := if ws = [] then arguments.completionHandler.toList.map (·, endpoint) else [] }) :
    Lawful ws arguments endpoint r where
  sent                  := h
  invoked sent hs d hd _ hm := by
    obtain rfl := Except.ok.inj (h.symm.trans hs)
    exact (invoked_perm hd hm).right
  owned sent hs d hd _ hm hne := by
    obtain rfl := Except.ok.inj (h.symm.trans hs)
    have ⟨p, hp⟩ := List.exists_mem_of_ne_nil _ hne
    exact ⟨p, hp, (invoked_perm hd hm).left p hp⟩

theorem sendAll_lawful_iff :
    Lawful (live (clients ++ clientsSSL)) arguments endpoint
      (sendAll clients clientsSSL arguments endpoint) ↔
    (live (clients ++ clientsSSL) = [] → arguments.completionHandler ≠ none) ∧
    (2 ≤ (live (clients ++ clientsSSL)).length → arguments.completionHandler = none) := by
  rw [sendAll_eq]
  generalize live (clients ++ clientsSSL) = ws
  constructor
  · intro h
    have h := h.sent
    rcases ws with _ | ⟨w₁, _ | ⟨w₂, ws⟩⟩
    · cases hc : arguments.completionHandler <;> simp [hc] at h ⊢
    · simp
    · simp [handedOut] at h ⊢
      exact congrArg Message.completionHandler h.left.symm
  · intro ⟨hn, hm⟩
    apply Lawful.of_sent
    rcases ws with _ | ⟨w₁, _ | ⟨w₂, ws⟩⟩
    · have ⟨handler, hc⟩ := Option.ne_none_iff_exists'.mp (hn rfl)
      simp [hc]
    · simp [handedOut]
    · have : arguments.moved = arguments := by simp [Message.moved, ← hm (by simp)]
      simp [handedOut, this]

-- Every client gets the handler unless there are several, and no exception is thrown unless there are
-- none and the handler is empty.
theorem sendAsync_lawful_iff [Inhabited ε] :
    Lawful (live (clients ++ clientsSSL)) arguments (default : ε)
      (SendAsync clients clientsSSL arguments) ↔
    (live (clients ++ clientsSSL) = [] → arguments.completionHandler ≠ none) ∧
    (2 ≤ (live (clients ++ clientsSSL)).length → arguments.completionHandler = none) :=
  sendAll_lawful_iff

def twoClients : List Client :=
  [⟨"__topic__10.0.0.1_8080", 0, true⟩, ⟨"__topic__10.0.0.2_8080", 1, true⟩]

def request : Message where
  msgPtr            := 4096
  msgSize           := 5
  completionHandler := some 7
  force_send        := false
  max_queue_size    := 8

theorem second_client_lacks_handler :
    (SendAsync twoClients [] request : Except Fault (Sent ℕ)) =
      .ok { posts := [(0, request), (1, request.moved)], aborted := [] } ∧
    ¬Lawful (live (twoClients ++ [])) request (default : ℕ) (SendAsync twoClients [] request) := by
  refine ⟨rfl, fun h => ?_⟩
  have := (sendAll_lawful_iff.mp h).right (by decide)
  simp [request] at this

-- Of the overload for a topic and an endpoint.
theorem sendAsyncTo_lawful_iff {uniqueClientName : String} :
    let ws := live (named clients uniqueClientName ++ named clientsSSL uniqueClientName)
    Lawful ws arguments endpoint
      (SendAsyncTo clients clientsSSL uniqueClientName arguments endpoint) ↔
    (ws = [] → arguments.completionHandler ≠ none) ∧
    (2 ≤ ws.length → arguments.completionHandler = none) :=
  sendAll_lawful_iff

end MultiClientReceiver
end BeastNetworking
