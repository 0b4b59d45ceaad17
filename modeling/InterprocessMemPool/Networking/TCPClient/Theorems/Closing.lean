import InterprocessMemPool.Networking.TCPClient.Theorems.Callbacks

namespace BeastNetworking.TCPClientBase

variable {ε : Type} {c c' : TCPClientBase ε} {a : Action ε} {ssl : Bool} {ec : Option Error}

def Call.isAccept : Call ε → Bool
  | .callbackAccept _ => true
  | _                 => false

def accepts (c : TCPClientBase ε) : List (Call ε) :=
  c.calls.filter Call.isAccept

theorem accepts_call {x : Call ε} (h : x.isAccept = false) : (c.call x).accepts = c.accepts := by
  simp [accepts, call, h]

-- The client does not connect any more, unless it is run again.
def Final (ssl : Bool) (c : TCPClientBase ε) : Prop :=
  ∀ {as c'}, (system ε ssl).Run c as c' → .run ∉ as → c'.connected = false ∧ c'.accepts = c.accepts

-- No connection, no attempt at one, and no more calls of `callbackAccept` than those in `calls`.
structure Closed (calls : List (Call ε)) (c : TCPClientBase ε) : Prop where
  connected : c.connected = false
  attempts  : c.attempts = []
  accepts   : c.accepts = calls

namespace Closed

variable {calls : List (Call ε)}

theorem handle_error {ec : Error} (h : Closed calls c) : Closed calls (c.handle_error ec) :=
  ⟨h.connected, h.attempts, (accepts_call rfl).trans h.accepts⟩

theorem handle_close (h : Closed calls c) : Closed calls c.handle_close := by
  simpa [TCPClientBase.handle_close, h.connected] using h

theorem use {f : WriteQueue → Except Fault WriteQueue} (h : Closed calls c) : Closed calls (c.use f) := by
  rw [TCPClientBase.use]
  split <;> exact ⟨h.connected, h.attempts, h.accepts⟩

theorem on_write {k : ℕ} (h : Closed calls c) : Closed calls (c.on_write k ec) := by
  cases ec
  case none    => exact h.use
  case some ec => exact h.use.handle_error.handle_close

theorem on_read {length : SizeT} (h : Closed calls c) : Closed calls (c.on_read ec length) := by
  cases ec
  case none    => exact ⟨h.connected, h.attempts, (accepts_call rfl).trans h.accepts⟩
  case some ec => exact h.handle_error.handle_close

theorem run {p : Posted} (h : Closed calls c) : Closed calls (p.run c) := by
  cases p
  case schedule_write => exact h.use
  case handle_close   => exact h.handle_close

theorem not_complete {k : ℕ} {attempt : Attempt} {f : TCPClientBase ε → TCPClientBase ε} (h : Closed calls c) :
    c.complete k attempt f ≠ some c' := by
  simp [complete, h.attempts]

theorem next (h : Closed calls c) (hn : c.next ssl a = some c') (ha : a ≠ .run) : Closed calls c' := by
  replace hn := (Option.ite_none_left_eq_some.mp hn).right
  cases a
  case run          => exact absurd rfl ha
  case posted       =>
    cases hp : c.posted
    case nil           => simp [hp] at hn
    case cons p posted =>
      simp only [hp, Option.some.injEq] at hn
      have h' : Closed calls { c with posted } := ⟨h.connected, h.attempts, h.accepts⟩
      exact hn ▸ h'.run
  case on_resolve   => exact absurd hn h.not_complete
  case on_connect   => exact absurd hn h.not_complete
  case on_handshake => exact absurd hn h.not_complete
  case on_write     => exact Option.some.inj (Option.ite_none_right_eq_some.mp hn).right ▸ h.on_write
  case on_read      =>
    have h' : Closed calls { c with reads := c.reads - 1 } := ⟨h.connected, h.attempts, h.accepts⟩
    exact Option.some.inj (Option.ite_none_right_eq_some.mp hn).right ▸ h'.on_read
  case destroy      => exact Option.some.inj hn ▸ ⟨h.connected, rfl, h.accepts⟩
  all_goals exact Option.some.inj hn ▸ ⟨h.connected, h.attempts, h.accepts⟩

theorem run_of {as : List (Action ε)} (h : Closed calls c) (r : (system ε ssl).Run c as c') (ha : .run ∉ as) :
    Closed calls c' := by
  induction r
  case refl => exact h
  case step hn _ ih =>
    obtain ⟨ha, has⟩ := List.ne_and_not_mem_of_not_mem_cons ha
    exact ih (h.next hn ha.symm) has

end Closed

-- There is a way to a connection on which the client is not run again.
def CanConnect (ssl : Bool) (c : TCPClientBase ε) : Prop :=
  ∃ as c', (system ε ssl).Run c as c' ∧ .run ∉ as ∧ c'.connected

namespace CanConnect

variable {k : ℕ}

theorem of_connected (h : c.connected) : CanConnect ssl c :=
  ⟨[], c, .refl, List.not_mem_nil, h⟩

theorem of_next (h : CanConnect ssl c') (hn : c.next ssl a = some c') (ha : a ≠ .run) : CanConnect ssl c := by
  obtain ⟨as, c'', r, has, hc⟩ := h
  exact ⟨a :: as, c'', .step hn r, List.not_mem_cons_of_ne_of_not_mem ha.symm has, hc⟩

theorem of_handshake (hd : c.destroyed = false) (hk : c.attempts[k]? = some .handshake) :
    CanConnect ssl c := by
  have hn : c.next ssl (.on_handshake k none) =
      c.complete k .handshake (.on_finish_connect_or_handshake none) := by simp [next, hd]
  exact (of_connected rfl).of_next (hn.trans (if_pos hk)) (by simp)

theorem of_connect (hd : c.destroyed = false) (hk : c.attempts[k]? = some .connect) : CanConnect ssl c := by
  have hn : c.next ssl (.on_connect k none) = c.complete k .connect (.on_connect ssl none) := by
    simp [next, hd]
  refine of_next ?_ (hn.trans (if_pos hk)) (by simp)
  cases ssl
  case false => exact of_connected rfl
  case true  => exact of_handshake hd List.getElem?_concat_length

theorem of_resolve (hd : c.destroyed = false) (hk : c.attempts[k]? = some .resolve) : CanConnect ssl c := by
  have hn : c.next ssl (.on_resolve k (.ok c.endpoint)) =
      c.complete k .resolve (.on_resolve (.ok c.endpoint)) := by simp [next, hd]
  refine of_next ?_ (hn.trans (if_pos hk)) (by simp)
  exact of_connect hd List.getElem?_concat_length

theorem of_attempts (hd : c.destroyed = false) (h : c.attempts ≠ []) : CanConnect ssl c := by
  obtain ⟨attempt, attempts, ha⟩ := List.exists_cons_of_ne_nil h
  cases attempt
  all_goals have hk := congrArg (·[0]?) ha
  case resolve   => exact of_resolve hd hk
  case connect   => exact of_connect hd hk
  case handshake => exact of_handshake hd hk

end CanConnect

theorem handle_close_connected : c.handle_close.connected = false := by
  cases hc : c.connected <;> simp [handle_close, hc]

theorem handle_close_attempts : c.handle_close.attempts = c.attempts := by
  rw [handle_close]
  split <;> rfl

theorem handle_close_destroyed : c.handle_close.destroyed = c.destroyed := by
  rw [handle_close]
  split <;> rfl

-- The handler that `close` has posted has run. The closing is final just if nothing was on the way to a
-- connection by then.
theorem final_iff (hp : c.posted.head? = some .handle_close) (hn : c.next ssl .posted = some c') :
    Final ssl c' ↔ c.attempts = [] := by
  obtain ⟨hd, hn⟩ := Option.ite_none_left_eq_some.mp hn
  obtain ⟨posted, hp⟩ := List.head?_eq_some_iff.mp hp
  simp only [hp, Option.some.injEq] at hn
  have hconn : c'.connected = false := hn ▸ handle_close_connected
  have hatt : c'.attempts = c.attempts := hn ▸ handle_close_attempts
  have hdest : c'.destroyed = false := by
    rw [← hn]
    exact handle_close_destroyed.trans (by simpa using hd)
  constructor
  case mp  =>
    intro hf
    by_contra ha
    have h : CanConnect ssl c' := .of_attempts hdest (hatt ▸ ha)
    obtain ⟨as, c'', r, has, hc⟩ := h
    exact Bool.false_ne_true <| (hf r has).left.symm.trans hc
  case mpr =>
    intro ha as c'' r has
    have h : Closed c'.accepts c' := ⟨hconn, hatt.trans ha, rfl⟩
    have ⟨hc, _, hs⟩ := h.run_of r has
    exact ⟨hc, hs⟩

theorem reachable_unconnected : (system ℕ ssl).Reachable unconnected :=
  .init ⟨0, rfl⟩

-- A client that has been connected and is closed by its user.
theorem final_iff_run : ∃ c c' : TCPClientBase ℕ, (system ℕ false).Reachable c ∧ c.connected ∧
    c.posted.head? = some .handle_close ∧ c.next false .posted = some c' ∧ Final false c' := by
  have ⟨c, hr, hc, hp, ha, c', hn⟩ : ∃ c, (system ℕ false).Reachable c ∧ c.connected ∧
      c.posted.head? = some .handle_close ∧ c.attempts = [] ∧ ∃ c', c.next false .posted = some c' := by
    have hr := System.ofNext_run (show (connecting 1 [.close]).foldlM (next false) unconnected = _ from rfl)
      |>.reachable reachable_unconnected
    exact ⟨_, hr, rfl, rfl, rfl, _, rfl⟩
  exact ⟨c, c', hr, hc, hp, hn, (final_iff hp hn).mpr ha⟩

-- The user closes a client while the name is being resolved, and one while it is connecting, but both get
-- connected.
theorem not_final :
    (∃ c c' : TCPClientBase ℕ, (system ℕ false).Reachable c ∧ c.posted.head? = some .handle_close ∧
      (system ℕ false).Run c [.posted, .on_resolve 0 (.ok 1), .on_connect 0 none] c' ∧
      c'.calls = [.callbackAccept 1] ∧ c'.connected) ∧
    (∃ c c' : TCPClientBase ℕ, (system ℕ true).Reachable c ∧ c.posted.head? = some .handle_close ∧
      (system ℕ true).Run c [.posted, .on_connect 0 none, .on_handshake 0 none] c' ∧
      c'.calls = [.callbackAccept 1] ∧ c'.connected) := by
  constructor
  · have hr := System.ofNext_run (show [Action.run, .close].foldlM (next false) unconnected = _ from rfl)
      |>.reachable reachable_unconnected
    exact ⟨_, _, hr, rfl, System.ofNext_run rfl, rfl, rfl⟩
  · have hr := System.ofNext_run (show [Action.run, .on_resolve 0 (.ok 1), .close].foldlM (next true)
      unconnected = _ from rfl) |>.reachable reachable_unconnected
    exact ⟨_, _, hr, rfl, System.ofNext_run rfl, rfl, rfl⟩

end BeastNetworking.TCPClientBase
