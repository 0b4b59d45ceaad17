import InterprocessMemPool.Networking.WebsocketSession.Theorems.Pipeline
import InterprocessMemPool.Networking.WebsocketSession.RateLimited

namespace BeastNetworking

namespace SendQueue

variable {q q' : SendQueue} {m : SpanAndHandler} {may_send : SpanAndHandler → Bool}
variable {max_queue_size bytes : SizeT} {ec : Option Error} {k : ℕ}

theorem start_written_eq {b : Bool} :
    (q.start b m).written = q.written ++ if b then [m] else [] := by
  cases b <;> simp [start]

theorem on_send_written : (q.on_send may_send m max_queue_size).written =
    q.written ++ if q.queue = [] ∧ may_send m ∧ m.hasContent then [m] else [] := by
  cases hq : q.queue
  case nil         => simp [on_send_nil hq, start_written_eq]
  case cons f rest =>
    obtain ⟨_, _, _, he⟩ := on_send_cons may_send m max_queue_size hq
    simp [he]

theorem complete_written (h : q.complete may_send k ec bytes = .ok q') : q'.written =
    q.written ++ (q.queue.tail.head?.filter fun m => may_send m && m.hasContent).toList := by
  rcases hq : q.queue with _ | ⟨front, _ | ⟨next, rest⟩⟩
  · simp [complete, on_write, hq] at h
  · obtain ⟨_, he⟩ := complete_single may_send k ec bytes hq
    obtain rfl := Except.ok.inj (he.symm.trans h)
    simp [finish]
  · obtain ⟨_, he⟩ := complete_cons may_send k ec bytes hq
    obtain rfl := Except.ok.inj (he.symm.trans h)
    rw [start_written_eq]
    cases hm : may_send next && next.hasContent <;> simp [finish, Option.filter, hm]

end SendQueue

theorem WebsocketSession.on_write_written {s s' : WebsocketSession} {should_send : Bool} {k : ℕ}
    {ec : Option Error} {bytes : SizeT} (h : s.on_write should_send k ec bytes = .ok s') :
    s'.sending.written = s.sending.written ++ (s.sending.queue.tail.head?.filter fun m =>
      may_send should_send m && m.hasContent).toList := by
  obtain ⟨sending, hc, rfl⟩ := Except.map_eq_ok.mp h
  exact SendQueue.complete_written hc

namespace RateLimited

variable {ρ : Type} [Double ρ] {s s' : RateLimited ρ} {a : Action ρ} {m : SpanAndHandler} {t : Reading}

-- A message that the enforcer is asked about.
structure Query (ρ : Type) where
  message  : SpanAndHandler
  reading  : Reading
  enforcer : Enforcer ρ

namespace Query

def permitted (q : Query ρ) : Bool :=
  q.enforcer.permits q.message.msgSize q.reading.now

def sent (q : Query ρ) : Bool :=
  (q.permitted || q.message.force_send) && q.message.hasContent

-- The timer has been restarted for the message, and the rate has been advanced by its size.
def Updated (q : Query ρ) (e : Enforcer ρ) : Prop :=
  e.actual_timer = q.reading.reset ∧
    e.actual_rate = q.enforcer.temp_actual_rate q.message.msgSize q.reading.now

-- The message has left no trace.
def Untouched (q : Query ρ) (e : Enforcer ρ) : Prop :=
  e.actual_timer = q.enforcer.actual_timer ∧ e.actual_rate = q.enforcer.recalculated

-- There is no telling whether there has been an update for the message.
def Moot (q : Query ρ) : Prop :=
  q.enforcer.actual_timer = q.reading.reset ∧
    q.enforcer.recalculated = q.enforcer.temp_actual_rate q.message.msgSize q.reading.now

-- A message that has to be sent is within the limit, and one that cannot be sent is not.
def Agrees (q : Query ρ) : Prop :=
  if q.message.hasContent then q.message.force_send → q.permitted else ¬q.permitted

theorem agrees_iff (q : Query ρ) : q.Agrees ↔ q.permitted = q.sent := by
  rw [Agrees, sent]
  cases q.message.hasContent <;> cases q.message.force_send <;> cases q.permitted <;> simp

theorem Updated.untouched_iff {q : Query ρ} {e : Enforcer ρ} (h : q.Updated e) : q.Untouched e ↔ q.Moot := by
  rw [Untouched, Moot, h.left, h.right]
  exact and_congr eq_comm eq_comm

theorem Untouched.updated_iff {q : Query ρ} {e : Enforcer ρ} (h : q.Untouched e) : q.Updated e ↔ q.Moot := by
  rw [Updated, Moot, h.left, h.right]

instance (q : Query ρ) : Decidable q.Agrees :=
  decidable_of_iff' _ q.agrees_iff

instance [DecidableEq ρ] (q : Query ρ) : Decidable q.Moot :=
  inferInstanceAs (Decidable (_ ∧ _))

end Query

-- The message whose turn it is in a step, if there is one. A message has its turn when it gets to the front.
def query (s : RateLimited ρ) : Action ρ → Option (Query ρ)
  | .on_send m _ update_and_get_allowable hypothetical actual =>
    if s.session.sending.queue = [] then
      some ⟨m, actual, s.update_hypothetical_rate update_and_get_allowable m hypothetical |>.enforcer⟩
    else none
  | .on_write _ _ _ actual => s.session.sending.queue.tail.head?.map (⟨·, actual, s.enforcer⟩)
  | .destroy               => none

def Agrees (s : RateLimited ρ) (a : Action ρ) : Prop :=
  ∀ q ∈ s.query a, q.Agrees ∨ q.Moot

instance [DecidableEq ρ] (s : RateLimited ρ) (a : Action ρ) : Decidable (Agrees s a) :=
  inferInstanceAs (Decidable (∀ q ∈ s.query a, q.Agrees ∨ q.Moot))

-- A step in which the rate of what is sent is updated for the message whose turn it is if and only if this is
-- handed to the stream. No other message is, and without one there is no update.
def Accounts (s : RateLimited ρ) (a : Action ρ) (s' : RateLimited ρ) : Prop :=
  match s.query a with
  | none   =>
    s'.session.sending.written = s.session.sending.written ∧
      s'.enforcer.actual_timer = s.enforcer.actual_timer ∧ s'.enforcer.actual_rate = s.enforcer.actual_rate
  | some q =>
    (s'.session.sending.written = s.session.sending.written ++ [q.message] ∧ q.Updated s'.enforcer) ∨
      (s'.session.sending.written = s.session.sending.written ∧ q.Untouched s'.enforcer)

-- What a step does to the rate of what is sent, and what it hands to the stream.
structure Effect (s : RateLimited ρ) (a : Action ρ) (s' : RateLimited ρ) : Prop where
  tracker : s'.enforcer.rate_tracker
  none    : s.query a = none → s'.enforcer.actual_timer = s.enforcer.actual_timer ∧
    s'.enforcer.actual_rate = s.enforcer.actual_rate
  some    : ∀ q ∈ s.query a, if q.permitted then q.Updated s'.enforcer else q.Untouched s'.enforcer
  written : s'.session.sending.written =
    s.session.sending.written ++ ((s.query a).filter Query.sent).toList.map Query.message

theorem should_send_eq (ht : s.enforcer.rate_tracker) : ∃ enforcer : Enforcer ρ,
    s.should_send m t = (s.enforcer.permits m.msgSize t.now, { s with enforcer }) ∧ enforcer.rate_tracker ∧
      let q : Query ρ := ⟨m, t, s.enforcer⟩
      if q.permitted then q.Updated enforcer else q.Untouched enforcer := by
  cases hp : s.enforcer.permits m.msgSize t.now <;>
    simp [should_send, Enforcer.should_send, Query.permitted, Query.Updated, Query.Untouched, ht, hp]

namespace Effect

variable {max_queue_size bytes : SizeT} {f : ρ → SizeT} {t' : Reading} {k : ℕ} {ec : Option Error}

theorem of_none (ht : s'.enforcer.rate_tracker) (hq : s.query a = .none)
    (ha : s'.enforcer.actual_timer = s.enforcer.actual_timer)
    (hr : s'.enforcer.actual_rate = s.enforcer.actual_rate)
    (hw : s'.session.sending.written = s.session.sending.written) : Effect s a s' := by
  constructor <;> simp [*]

-- The enforcer is asked in the state `s₁`, and the session becomes `session` by its verdict.
theorem of_query {s₁ : RateLimited ρ} {session : WebsocketSession} (ht : s₁.enforcer.rate_tracker)
    (hq : s.query a = .some ⟨m, t, s₁.enforcer⟩)
    (hw : session.sending.written = s.session.sending.written ++
      if WebsocketSession.may_send (s₁.should_send m t).1 m && m.hasContent then [m] else []) :
    Effect s a { (s₁.should_send m t).2 with session } := by
  have hf (p : Query ρ → Bool) : ((s.query a).filter p).toList.map Query.message =
      if p ⟨m, t, s₁.enforcer⟩ then [m] else [] := by
    rw [hq, Option.filter]
    split <;> rfl
  obtain ⟨e, hs, he, hu⟩ := should_send_eq (m := m) (t := t) ht
  rw [hs] at hw ⊢
  constructor
  case tracker => exact he
  case none    => simp [hq]
  case some    => simpa [hq] using hu
  case written => rw [hf, hw, Query.sent, Query.permitted, WebsocketSession.may_send]

theorem on_send (ht : s.enforcer.rate_tracker) :
    Effect s (.on_send m max_queue_size f t' t) (s.on_send m max_queue_size f t' t) := by
  simp only [RateLimited.on_send]
  split
  case isTrue h =>
    have hq : s.session.sending.queue ≠ [] := by
      rintro hq
      simp [update_hypothetical_rate, SendQueue.enqueue, SendQueue.shed, Shedding.shed, hq] at h
    refine of_none ht (if_neg hq) rfl rfl ?_
    simp [WebsocketSession.on_send, SendQueue.on_send_written, hq, update_hypothetical_rate]
  case isFalse h =>
    have hq : s.session.sending.queue = [] := by
      cases hq : s.session.sending.queue
      case nil  => rfl
      case cons => simp [update_hypothetical_rate, SendQueue.enqueue, hq] at h
    refine of_query ht (if_pos hq) ?_
    have hs : ((s.update_hypothetical_rate f m t').should_send m t).2.session = s.session := rfl
    simp [WebsocketSession.on_send, SendQueue.on_send_written, hs, hq]

theorem on_write (ht : s.enforcer.rate_tracker) (h : s.on_write k ec bytes t = .ok s') :
    Effect s (.on_write k ec bytes t) s' := by
  rw [RateLimited.on_write] at h
  cases hq : s.session.sending.queue.tail
  case nil =>
    simp only [hq] at h
    obtain ⟨session, hw, rfl⟩ := Except.map_eq_ok.mp h
    refine of_none ht (by simp [query, hq]) rfl rfl ?_
    simpa [hq] using WebsocketSession.on_write_written hw
  case cons next rest =>
    simp only [hq] at h
    obtain ⟨session, hw, rfl⟩ := Except.map_eq_ok.mp h
    refine of_query ht (by simp [query, hq]) ?_
    have hs : (s.should_send next t).2.session = s.session := rfl
    rw [WebsocketSession.on_write_written hw, hs, hq]
    split <;> simp [Option.filter, *]

theorem next (ht : s.enforcer.rate_tracker) (h : s.next a = .some s') : Effect s a s' := by
  obtain ⟨_, h⟩ := Option.ite_none_left_eq_some.mp h
  cases a
  case on_send => exact Option.some.inj h ▸ on_send ht
  case on_write =>
    obtain ⟨_, h⟩ := Option.ite_none_right_eq_some.mp h
    exact on_write ht (Except.toOption_eq_some.mp h)
  case destroy =>
    obtain rfl := Option.some.inj h
    refine of_none ht rfl rfl rfl ?_
    simp [WebsocketSession.destroy, WebsocketSession.foldl_dequeue]

-- The verdict and what is sent are all that matters.
theorem accounts_iff (h : Effect s a s') : Accounts s a s' ↔ Agrees s a := by
  have hn := h.none
  have hs := h.some
  have hw := h.written
  rw [Accounts, Agrees]
  cases hq : s.query a
  case none   => simpa [hq] using ⟨by simpa [hq] using hw, hn hq⟩
  case some q =>
    replace hs := hs q hq
    simp only [Option.mem_some_iff, forall_eq', q.agrees_iff]
    cases hp : q.permitted <;> cases hv : q.sent <;>
      simp only [hq, hp, hv, Option.filter, if_true, Bool.false_eq_true, if_false, Option.toList_some,
        Option.toList_none, List.map_cons, List.map_nil, List.append_nil] at hs hw
    case false.false => simp [hw, hs]
    case false.true  => simpa [hw] using hs.updated_iff
    case true.false  => simpa [hw] using hs.untouched_iff
    case true.true   => simp [hw, hs]

end Effect

theorem tracker (h : system.Reachable s) : s.enforcer.rate_tracker := by
  refine System.Invariant.holds (I := fun s => s.enforcer.rate_tracker) ⟨?_, ?_⟩ h
  · rintro _ ⟨_, _, _, _, _, rfl⟩
    rfl
  · intro s a s' _ ht h
    exact (Effect.next ht h).tracker

theorem accounts_iff (hr : system.Reachable s) (h : s.next a = some s') : Accounts s a s' ↔ Agrees s a :=
  (Effect.next (tracker hr) h).accounts_iff

-- What every step of a run accounts for is what it hands to the stream.
theorem accounts_of_run {as : List (Action ρ)} (hr : system.Reachable s)
    (r : (system.restrict Agrees).Run s as s') :
    (system.restrict fun s a => ∀ s', s.next a = some s' → Accounts s a s').Run s as s' := by
  induction r
  case refl => exact .refl
  case step hs _ ih =>
    refine .step ⟨fun s' hs' => (accounts_iff hr hs').mpr hs.left, hs.right⟩ (ih (hr.step hs.right))

open WebsocketSession (urgent)
open scoped Double

-- A session with the default arguments of an enforcer, whose clock starts at 0.
def fresh : RateLimited ℚ where
  enforcer := .make true 0.1 1.1 0 0

theorem init_fresh : Init fresh :=
  ⟨_, _, _, _, _, rfl⟩

-- The first message of a session is sent a second after its start, when the allowed rate is `rate`.
def sends (m : SpanAndHandler) (rate : SizeT) : Action ℚ :=
  .on_send m 8 (fun _ => rate) ⟨0, 0⟩ ⟨10 ^ 9, 10 ^ 9⟩

def empty : SpanAndHandler where
  msgPtr            := 0
  msgSize           := 0
  completionHandler := none
  force_send        := false

end RateLimited
end BeastNetworking
