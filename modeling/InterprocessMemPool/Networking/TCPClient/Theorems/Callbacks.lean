import InterprocessMemPool.Networking.TCPClient.Basic

namespace BeastNetworking

namespace WriteQueue

variable {q q' : WriteQueue} {msg front : Text} {rest : List Text} {k : ℕ} {ec : Option Error}

theorem schedule_write_nil (h : q.write_msgs = []) : q.schedule_write msg = .ok { q with
    write_msgs := [msg]
    writes     := q.writes ++ [msg]
    scheduled  := q.scheduled ++ [msg]
    handed     := q.handed ++ [msg] } := by
  simp [schedule_write, do_write, h]

theorem schedule_write_cons (h : q.write_msgs = front :: rest) :
    q.schedule_write msg = .ok { q with
      write_msgs := q.write_msgs ++ [msg]
      scheduled  := q.scheduled ++ [msg] } := by
  simp [schedule_write, h]

theorem schedule_write_write_msgs (h : q.schedule_write msg = .ok q') :
    q'.write_msgs = q.write_msgs ++ [msg] ∧ q'.cleared = q.cleared := by
  cases hq : q.write_msgs
  case nil  => simp [← Except.ok.inj (schedule_write_nil hq ▸ h)]
  case cons => simp [← Except.ok.inj (schedule_write_cons hq ▸ h), hq]

theorem on_write_single (h : q.write_msgs = [front]) :
    q.on_write k none = .ok { q with write_msgs := [], writes := q.writes.eraseIdx k } := by
  simp [on_write, h]

theorem on_write_cons (h : q.write_msgs = front :: msg :: rest) : q.on_write k none = .ok { q with
    write_msgs := msg :: rest
    writes     := q.writes.eraseIdx k ++ [msg]
    handed     := q.handed ++ [msg] } := by
  simp [on_write, do_write, h]

theorem on_write_write_msgs (h : q.on_write k none = .ok q') :
    q'.write_msgs = q.write_msgs.tail ∧ q'.cleared = q.cleared := by
  rcases hq : q.write_msgs with _ | ⟨front, _ | ⟨msg, rest⟩⟩
  · simp [on_write, hq] at h
  · simp [← Except.ok.inj (on_write_single hq ▸ h)]
  · simp [← Except.ok.inj (on_write_cons hq ▸ h)]

theorem eq_nil_of_on_write {e : Fault} (h : q.on_write k none = .error e) : q.write_msgs = [] := by
  rcases hq : q.write_msgs with _ | ⟨front, _ | ⟨msg, rest⟩⟩
  · rfl
  · simp [on_write_single hq] at h
  · simp [on_write_cons hq] at h

-- The front is being written, and what is behind it has been neither handed to the socket nor cleared.
structure Sound (q : WriteQueue) : Prop where
  writes   : q.writes = q.write_msgs.take 1
  in_order : (q.handed ++ q.write_msgs.tail).Sublist q.scheduled
  kept     : (q.cleared ++ q.handed ++ q.write_msgs.tail).Perm q.scheduled

namespace Sound

theorem schedule_write (h : Sound q) (msg : Text) : ∃ q', q.schedule_write msg = .ok q' ∧ Sound q' ∧
    q'.scheduled = q.scheduled ++ [msg] := by
  obtain ⟨hw, hi, hk⟩ := h
  cases hq : q.write_msgs
  case nil =>
    refine ⟨_, schedule_write_nil hq, ⟨?_, ?_, ?_⟩, rfl⟩
    · simp [hw, hq]
    · simpa [hq] using hi.append_right [msg]
    · simpa [hq] using hk.append_right [msg]
  case cons front rest =>
    refine ⟨_, schedule_write_cons hq, ⟨?_, ?_, ?_⟩, rfl⟩
    · simp [hw, hq]
    · simpa [hq] using hi.append_right [msg]
    · simpa [hq] using hk.append_right [msg]

theorem on_write (h : Sound q) (hk : k < q.writes.length) (ec : Option Error) :
    ∃ q', q.on_write k ec = .ok q' ∧ Sound q' ∧ q'.scheduled = q.scheduled := by
  obtain ⟨hw, hi, hp⟩ := h
  rcases hq : q.write_msgs with _ | ⟨front, rest⟩
  · simp [hw, hq] at hk
  have he : q.writes.eraseIdx k = [] := by
    obtain rfl : k = 0 := by simpa [hw, hq] using hk
    simp [hw, hq]
  simp only [hq, List.tail_cons] at hi hp
  cases ec
  case some e =>
    refine ⟨_, rfl, ⟨by simp [he], ?_, ?_⟩, rfl⟩
    · simpa using (List.sublist_append_left q.handed rest).trans hi
    · simp only [hq, List.tail_cons, List.tail_nil, List.append_nil, List.append_assoc] at hp ⊢
      exact (List.perm_append_comm.append_left _).trans hp
  case none =>
    cases rest
    case nil           => exact ⟨_, on_write_single hq, ⟨he, hi, hp⟩, rfl⟩
    case cons msg rest =>
      refine ⟨_, on_write_cons hq, ⟨by simp [he], ?_, ?_⟩, rfl⟩
      · simpa using hi
      · simpa using hp

end Sound
end WriteQueue

namespace TCPClientBase

variable {ε : Type} {c c' : TCPClientBase ε} {a : Action ε} {ssl : Bool}

-- The messages that are yet to be handed to the socket.
def waiting (c : TCPClientBase ε) : List Text :=
  c.queue.write_msgs.tail ++ c.posted.filterMap Posted.msg?

-- `callbackAccept` and `callbackClose` take turns, and `connected` tells which of them is next.
def Call.turn (connected : Bool) : Call ε → Option Bool
  | .callbackAccept _ => if connected then none else some true
  | .callbackClose _  => if connected then some false else none
  | _                 => some connected

def Paired (c : TCPClientBase ε) : Prop :=
  c.calls.foldlM Call.turn false = some c.connected

-- What is promised of a client at any time.
structure Proper (c : TCPClientBase ε) : Prop where
  front    : c.queue.writes = c.queue.write_msgs.take 1
  in_order : (c.queue.handed ++ c.waiting).Sublist c.written
  dropped  : (c.queue.cleared ++ c.queue.handed ++ c.waiting).Perm c.written
  paired   : c.Paired
  defined  : c.faulted = false

-- A connection is made only when there is none, and the client is not destroyed while there is one, or while
-- messages are waiting.
def orderly (ssl : Bool) (c : TCPClientBase ε) : Action ε → Bool
  | .on_connect _ none   => ssl || !c.connected
  | .on_handshake _ none => !c.connected
  | .destroy             => !c.connected && c.waiting.isEmpty
  | _                    => true

-- The invariant, from which the above follows.
structure Sound (c : TCPClientBase ε) : Prop where
  queue   : c.queue.Sound
  written : c.written = c.queue.scheduled ++ c.posted.filterMap Posted.msg?
  paired  : c.Paired
  defined : c.faulted = false

theorem Sound.proper (h : Sound c) : Proper c where
  front    := h.queue.writes
  in_order := by
    rw [waiting, h.written, ← List.append_assoc]
    exact h.queue.in_order.append_right _
  dropped  := by
    rw [waiting, h.written, ← List.append_assoc]
    exact h.queue.kept.append_right _
  paired   := h.paired
  defined  := h.defined

-- What a handler does not change, if it does not have to do with writing.
structure Aside (c c' : TCPClientBase ε) : Prop where
  queue   : c'.queue = c.queue
  posted  : c'.posted = c.posted
  written : c'.written = c.written
  faulted : c'.faulted = c.faulted

theorem Sound.aside (h : Sound c) (ha : Aside c c') (hp : c'.Paired) : Sound c' := by
  obtain ⟨hq, hw, _, hd⟩ := h
  obtain ⟨h₁, h₂, h₃, h₄⟩ := ha
  exact ⟨h₁ ▸ hq, by rw [h₁, h₂, h₃, hw], hp, h₄ ▸ hd⟩

section

variable {ec : Error} {x : Call ε}

theorem paired_call (h : c.Paired) : (c.call x).calls.foldlM Call.turn false = x.turn c.connected := by
  rw [call, List.foldlM_append, h]
  simp

theorem Sound.handle_error (h : Sound c) : Sound (c.handle_error ec) :=
  h.aside ⟨rfl, rfl, rfl, rfl⟩ (paired_call h.paired)

theorem Sound.handle_close (h : Sound c) : Sound c.handle_close := by
  cases hc : c.connected
  case false => simpa [TCPClientBase.handle_close, hc] using h
  case true  =>
    simp only [TCPClientBase.handle_close, hc]
    refine h.aside ⟨rfl, rfl, rfl, rfl⟩ <| (paired_call h.paired).trans ?_
    simp [Call.turn, hc]

end

variable {ec : Option Error} {k : ℕ}

-- A connection that is made is due to be closed just if there was none before.
theorem paired_accept (h : c.Paired) :
    (c.on_finish_connect_or_handshake none).Paired ↔ c.connected = false := by
  have := paired_call (x := .callbackAccept c.endpoint) h
  have hf : (c.on_finish_connect_or_handshake none).Paired ↔
      Call.turn c.connected (.callbackAccept c.endpoint) = some true := by
    rw [← this]
    rfl
  rw [hf, Call.turn]
  cases c.connected <;> simp

theorem Sound.on_finish_connect_or_handshake (h : Sound c) (hc : ec = none → c.connected = false) :
    Sound (c.on_finish_connect_or_handshake ec) := by
  cases ec
  case none    => exact h.aside ⟨rfl, rfl, rfl, rfl⟩ <| (paired_accept h.paired).mpr (hc rfl)
  case some ec => exact h.handle_error.handle_close

theorem Sound.on_connect (h : Sound c) (hc : ec = none → ssl || !c.connected) :
    Sound (c.on_connect ssl ec) := by
  cases ssl
  case false => exact h.on_finish_connect_or_handshake fun he => by simpa using hc he
  case true  =>
    cases ec
    case none    => exact h.aside ⟨rfl, rfl, rfl, rfl⟩ h.paired
    case some ec => exact h.handle_error.handle_close

theorem Sound.on_resolve {result : Except Error ε} (h : Sound c) : Sound (c.on_resolve result) := by
  cases result
  case error ec    => exact h.handle_error
  case ok endpoint => exact h.aside ⟨rfl, rfl, rfl, rfl⟩ h.paired

theorem Sound.on_read {length : SizeT} (h : Sound c) : Sound (c.on_read ec length) := by
  cases ec
  case none    => exact h.aside ⟨rfl, rfl, rfl, rfl⟩ (paired_call h.paired)
  case some ec => exact h.handle_error.handle_close

theorem Sound.on_write (h : Sound c) (hk : k < c.queue.writes.length) : Sound (c.on_write k ec) := by
  obtain ⟨queue, ho, hq, hs⟩ := h.queue.on_write hk ec
  have hu : Sound (c.use (WriteQueue.on_write k ec)) := by
    simp only [use, ho]
    exact ⟨hq, hs ▸ h.written, h.paired, h.defined⟩
  cases ec
  case none    => exact hu
  case some ec => exact hu.handle_error.handle_close

theorem Sound.run {p : Posted} {posted : List Posted} (h : Sound c) (hp : c.posted = p :: posted) :
    Sound (p.run { c with posted }) := by
  have hw := h.written
  rw [hp] at hw
  cases p
  case handle_close       =>
    have : Sound { c with posted } := ⟨h.queue, hw, h.paired, h.defined⟩
    exact this.handle_close
  case schedule_write msg =>
    obtain ⟨queue, ho, hq, hs⟩ := h.queue.schedule_write msg
    simp only [Posted.run, use, ho]
    refine ⟨hq, ?_, h.paired, h.defined⟩
    simpa [hs, Posted.msg?] using hw

theorem Sound.destroy (h : Sound c) (hc : c.connected = false) (hw : c.waiting = []) :
    Sound c.destroy := by
  obtain ⟨⟨hwr, hi, hk⟩, hwt, hp, hd⟩ := h
  obtain ⟨ht, hm⟩ := List.append_eq_nil_iff.mp hw
  rw [ht] at hi hk
  exact ⟨⟨rfl, hi, hk⟩, hwt.trans (congrArg _ hm), hp, by simp [TCPClientBase.destroy, hc, hd]⟩

theorem complete_eq_some {attempt : Attempt} {f : TCPClientBase ε → TCPClientBase ε} :
    c.complete k attempt f = some c' ↔
      c.attempts[k]? = some attempt ∧ f { c with attempts := c.attempts.eraseIdx k } = c' := by
  rw [complete, Option.ite_none_right_eq_some, Option.some.injEq]

theorem Sound.complete {attempt : Attempt} {f : TCPClientBase ε → TCPClientBase ε} (h : Sound c)
    (hc : c.complete k attempt f = some c') (hf : ∀ {attempts}, Sound { c with attempts } →
      Sound (f { c with attempts })) : Sound c' := by
  obtain ⟨_, rfl⟩ := complete_eq_some.mp hc
  exact hf <| h.aside ⟨rfl, rfl, rfl, rfl⟩ h.paired

theorem Sound.next (h : Sound c) (hn : c.next ssl a = some c') (ho : orderly ssl c a) : Sound c' := by
  replace hn := (Option.ite_none_left_eq_some.mp hn).right
  cases a
  case write msg         =>
    obtain rfl := Option.some.inj hn
    exact ⟨h.queue, by simp [TCPClientBase.write, accept, Posted.msg?, h.written], h.paired, h.defined⟩
  case close             =>
    obtain rfl := Option.some.inj hn
    exact ⟨h.queue, by simp [TCPClientBase.close, Posted.msg?, h.written], h.paired, h.defined⟩
  case run               => exact Option.some.inj hn ▸ h.aside ⟨rfl, rfl, rfl, rfl⟩ h.paired
  case posted            =>
    cases hp : c.posted
    case nil           => simp [hp] at hn
    case cons p posted =>
      simp only [hp, Option.some.injEq] at hn
      exact hn ▸ h.run hp
  case on_resolve        => exact h.complete hn .on_resolve
  case on_connect k ec   =>
    refine h.complete hn fun h => h.on_connect ?_
    rintro rfl
    exact ho
  case on_handshake k ec =>
    refine h.complete hn fun h => h.on_finish_connect_or_handshake ?_
    rintro rfl
    simpa [orderly] using ho
  case on_write          =>
    obtain ⟨hk, hn⟩ := Option.ite_none_right_eq_some.mp hn
    exact Option.some.inj hn ▸ h.on_write hk
  case on_read           =>
    obtain ⟨_, hn⟩ := Option.ite_none_right_eq_some.mp hn
    have h' : Sound { c with reads := c.reads - 1 } := h.aside ⟨rfl, rfl, rfl, rfl⟩ h.paired
    exact Option.some.inj hn ▸ h'.on_read
  case destroy           =>
    obtain ⟨hc, hw⟩ := (Bool.and_eq_true_iff ..).mp ho
    exact Option.some.inj hn ▸ h.destroy (by simpa using hc) (by simpa using hw)

-- The other direction: a step that is not orderly breaks a promise.
theorem Sound.orderly (h : Sound c) (hn : c.next ssl a = some c') (hp : Proper c') : orderly ssl c a := by
  replace hn := (Option.ite_none_left_eq_some.mp hn).right
  have ha {k attempt} (hc : c.complete k attempt (.on_finish_connect_or_handshake none) = some c') :
      c.connected = false := by
    obtain ⟨_, rfl⟩ := complete_eq_some.mp hc
    exact (paired_accept h.paired).mp hp.paired
  cases a
  case on_connect k ec   =>
    cases ec
    case some => rfl
    case none =>
      cases ssl
      case true  => rfl
      case false => simpa [TCPClientBase.orderly] using ha hn
  case on_handshake k ec =>
    cases ec
    case some => rfl
    case none => simpa [TCPClientBase.orderly] using ha hn
  case destroy           =>
    obtain rfl := Option.some.inj hn
    have hc : c.connected = false := (Bool.or_eq_false_iff.mp hp.defined).right
    have hl : (c.queue.cleared ++ c.queue.handed ++ c.waiting).length =
        (c.queue.cleared ++ c.queue.handed ++ []).length :=
      h.proper.dropped.length_eq.trans hp.dropped.length_eq.symm
    have hw : c.waiting = [] := List.length_eq_zero_iff.mp (by simpa using hl)
    simp [TCPClientBase.orderly, hc, hw]
  all_goals rfl

theorem sound (h : ((system ε ssl).restrict fun c a => TCPClientBase.orderly ssl c a).Reachable c) :
    Sound c := by
  refine System.Invariant.holds (I := Sound) ⟨?_, ?_⟩ h
  · rintro _ ⟨endpoint, rfl⟩
    exact ⟨⟨rfl, .slnil, .refl _⟩, rfl, rfl, rfl⟩
  · intro c a c' _ hs hn
    exact hs.next hn.right hn.left

section

variable {ec : Option Error} {k : ℕ}

@[simp]
theorem handle_close_queue : c.handle_close.queue = c.queue := by
  rw [handle_close]
  split <;> rfl

@[simp]
theorem on_finish_connect_or_handshake_queue : (c.on_finish_connect_or_handshake ec).queue = c.queue := by
  cases ec
  case none    => rfl
  case some ec => exact handle_close_queue

@[simp]
theorem on_connect_queue : (c.on_connect ssl ec).queue = c.queue := by
  cases ssl
  case false => exact on_finish_connect_or_handshake_queue
  case true  =>
    cases ec
    case none    => rfl
    case some ec => exact handle_close_queue

@[simp]
theorem on_resolve_queue {result : Except Error ε} : (c.on_resolve result).queue = c.queue := by
  cases result <;> rfl

@[simp]
theorem on_read_queue {length : SizeT} : (c.on_read ec length).queue = c.queue := by
  cases ec
  case none    => rfl
  case some ec => exact handle_close_queue

end

-- Nothing has been taken out of the queue.
def Extends (q q' : WriteQueue) : Prop :=
  q.write_msgs <+: q'.write_msgs ∧ q'.cleared = q.cleared

theorem Extends.of_eq {q q' : WriteQueue} (h : q' = q) : Extends q q' :=
  h ▸ ⟨List.prefix_refl _, rfl⟩

theorem extends_run {p : Posted} : Extends c.queue (p.run c).queue := by
  cases p
  case handle_close       => exact .of_eq handle_close_queue
  case schedule_write msg =>
    simp only [Posted.run, use]
    split
    case h_1 hq =>
      have ⟨hw, hc⟩ := WriteQueue.schedule_write_write_msgs hq
      exact ⟨hw ▸ List.prefix_append .., hc⟩
    case h_2 => exact .of_eq rfl

theorem on_write_write_msgs {k : ℕ} : (c.on_write k none).queue.write_msgs = c.queue.write_msgs.tail ∧
    (c.on_write k none).queue.cleared = c.queue.cleared := by
  simp only [on_write, use, Option.elim]
  split
  case h_1 hq => exact WriteQueue.on_write_write_msgs hq
  case h_2 hq => simp [WriteQueue.eq_nil_of_on_write hq]

-- Only the handler of a write takes messages out of the queue: the front if the message has been written, and
-- all of them if there was an error.
theorem queue_cases (hn : c.next ssl a = some c') : Extends c.queue c'.queue ∨
    (∃ k, a = .on_write k none ∧ c'.queue.write_msgs = c.queue.write_msgs.tail ∧
      c'.queue.cleared = c.queue.cleared) ∨
    (∃ k ec, a = .on_write k (some ec)) ∨ a = .destroy := by
  replace hn := (Option.ite_none_left_eq_some.mp hn).right
  have hc {k attempt f} (hc : c.complete k attempt f = some c')
      (hf : ∀ attempts, (f { c with attempts }).queue = c.queue) : Extends c.queue c'.queue := by
    obtain ⟨_, rfl⟩ := complete_eq_some.mp hc
    exact .of_eq (hf _)
  cases a
  case on_write k ec =>
    replace hn := (Option.ite_none_right_eq_some.mp hn).right
    cases ec
    case none   => exact .inr <| .inl ⟨k, rfl, Option.some.inj hn ▸ on_write_write_msgs⟩
    case some e => exact .inr <| .inr <| .inl ⟨k, e, rfl⟩
  case destroy       => exact .inr <| .inr <| .inr rfl
  case posted        =>
    cases hp : c.posted
    case nil           => simp [hp] at hn
    case cons p posted =>
      simp only [hp, Option.some.injEq] at hn
      exact .inl <| hn ▸ extends_run (c := { c with posted })
  case on_read       =>
    obtain ⟨_, hn⟩ := Option.ite_none_right_eq_some.mp hn
    exact .inl <| Option.some.inj hn ▸ .of_eq on_read_queue
  case on_resolve    => exact .inl <| hc hn (by simp)
  case on_connect    => exact .inl <| hc hn (by simp)
  case on_handshake  => exact .inl <| hc hn (by simp)
  all_goals exact .inl <| Option.some.inj hn ▸ .of_eq rfl

theorem proper_iff :
    (∀ {c : TCPClientBase ε},
      ((system ε ssl).restrict fun c a => orderly ssl c a).Reachable c → Proper c) ∧
    (∀ {c c' : TCPClientBase ε} {a},
      ((system ε ssl).restrict fun c a => orderly ssl c a).Reachable c → c.next ssl a = some c' →
        (Proper c' ↔ orderly ssl c a)) ∧
    (∀ {c c' : TCPClientBase ε} {a}, c.next ssl a = some c' → Extends c.queue c'.queue ∨
      (∃ k, a = .on_write k none ∧ c'.queue.write_msgs = c.queue.write_msgs.tail ∧
        c'.queue.cleared = c.queue.cleared) ∨
      (∃ k ec, a = .on_write k (some ec)) ∨ a = .destroy) :=
  ⟨fun h => (sound h).proper,
    fun h hn => ⟨fun hp => (sound h).orderly hn hp, fun ho => ((sound h).next hn ho).proper⟩, queue_cases⟩

-- A plain client that connects to an endpoint, and what it does after that.
def connecting (endpoint : ℕ) (as : List (Action ℕ)) : List (Action ℕ) :=
  .run :: .on_resolve 0 (.ok endpoint) :: .on_connect 0 none :: as

def unconnected : TCPClientBase ℕ where
  endpoint := 0

theorem proper_iff_run : ∃ c : TCPClientBase ℕ, c.queue.handed = [['a'], ['b']] ∧
    c.calls = [.callbackAccept 1, .callbackClose 1] ∧ Proper c ∧ (Proper c.destroy ↔ orderly false c .destroy) ∧
    Extends c.queue (c.write ['c']).queue := by
  obtain ⟨hp, hs, hq⟩ := @proper_iff ℕ false
  have ⟨c, hr, hd, hh, ha⟩ : ∃ c, ((system ℕ false).restrict fun c a => orderly false c a).Reachable c ∧
      c.destroyed = false ∧ c.queue.handed = [['a'], ['b']] ∧
      c.calls = [.callbackAccept 1, .callbackClose 1] := by
    refine System.exec_reachable ⟨0, rfl⟩ <| show Option.any _ (System.exec _ _ unconnected
      (connecting 1 [.write ['a'], .write ['b'], .close, .posted, .posted, .on_write 0 none, .posted])) from ?_
    decide
  refine ⟨c, hh, ha, hp hr, hs hr (by simp [TCPClientBase.next, hd]), ?_⟩
  have hn : c.next false (.write ['c']) = some ((c.accept ['c']).write ['c']) := by simp [TCPClientBase.next, hd]
  obtain he | ⟨_, h, _⟩ | ⟨_, _, h⟩ | h := hq hn
  · exact he
  all_goals cases h

-- A second connection is made while there is one, and a client is destroyed while there is a connection.
theorem not_proper :
    (∃ c : TCPClientBase ℕ, (system ℕ false).Reachable c ∧ c.connected = false ∧
      c.calls = [.callbackAccept 1, .callbackAccept 2, .callbackClose 2]) ∧
    (∃ c : TCPClientBase ℕ, (system ℕ false).Reachable c ∧ c.destroyed ∧ c.faulted ∧
      c.calls = [.callbackAccept 1]) := by
  have hi : (system ℕ false).Reachable unconnected := .init ⟨0, rfl⟩
  constructor
  · have hr := System.ofNext_run (show (connecting 1 (connecting 2 [.close, .posted])).foldlM
      (next false) unconnected = _ from rfl) |>.reachable hi
    exact ⟨_, hr, rfl, rfl⟩
  · have hr := System.ofNext_run (show (connecting 1 [.destroy]).foldlM (next false) unconnected = _ from rfl)
      |>.reachable hi
    exact ⟨_, hr, rfl, rfl, rfl⟩

end TCPClientBase
end BeastNetworking
