import InterprocessMemPool.Networking.SendQueue.Theorems.Pipeline
import InterprocessMemPool.Networking.WebsocketSession.Basic

namespace BeastNetworking

-- A message that may neither be dropped nor withheld.
def SpanAndHandler.mandatory (m : SpanAndHandler) : Bool :=
  m.force_send && m.hasContent

namespace SendQueue

variable {q q' : SendQueue} {m : SpanAndHandler} {rest : List SpanAndHandler}
variable {may_send : SpanAndHandler → Bool} {max_queue_size bytes : SizeT} {ec : Option Error} {k : ℕ}

-- All mandatory messages have been written, apart from those that wait behind the front.
def Forced (q : SendQueue) : Prop :=
  q.accepted.filter SpanAndHandler.mandatory =
    (q.written ++ q.queue.tail).filter SpanAndHandler.mandatory

theorem start_written (hm : ∀ m, m.force_send → may_send m) :
    (q.start (may_send m && m.hasContent) m).written.filter SpanAndHandler.mandatory =
      (q.written ++ [m]).filter SpanAndHandler.mandatory := by
  cases hb : may_send m && m.hasContent
  case true  => rfl
  case false =>
    have hn : m.mandatory = false := by
      cases hf : m.force_send
      case false => simp [SpanAndHandler.mandatory, hf]
      case true  => simpa [SpanAndHandler.mandatory, hf, hm m hf] using hb
    simp [start, hn]

namespace Forced

theorem on_send (h : Forced q) (hm : ∀ m, m.force_send → may_send m) :
    Forced ((q.accept m).on_send may_send m max_queue_size) := by
  cases hq : q.queue
  case nil =>
    simp only [Forced, hq, List.tail_nil, List.append_nil] at h
    rw [Forced, on_send_nil (q := q.accept m) hq]
    simp only [accept, start_accepted, start_queue, List.tail_cons, List.append_nil,
      start_written hm, List.filter_append, h]
  case cons front rest =>
    obtain ⟨kept, _, hs, he⟩ := on_send_cons (q := q.accept m) may_send m max_queue_size hq
    have hf : kept.filter SpanAndHandler.mandatory = rest.filter SpanAndHandler.mandatory :=
      hs.filter fun m hm => (Bool.and_eq_true_iff.mp hm).left
    simp only [Forced, hq, List.tail_cons, List.filter_append] at h
    rw [Forced, he]
    simp only [accept, List.tail_cons, List.filter_append, hf, h, List.append_assoc]

theorem complete (h : Forced q) (hm : ∀ m, m.force_send → may_send m)
    (hc : q.complete may_send k ec bytes = .ok q') : Forced q' := by
  rcases hq : q.queue with _ | ⟨front, _ | ⟨next, rest⟩⟩
  · simp [SendQueue.complete, on_write, hq] at hc
  · obtain ⟨_, he⟩ := complete_single may_send k ec bytes hq
    obtain rfl := Except.ok.inj (he.symm.trans hc)
    simpa [Forced, finish, hq] using h
  · obtain ⟨_, he⟩ := complete_cons may_send k ec bytes hq
    obtain rfl := Except.ok.inj (he.symm.trans hc)
    simp only [Forced, hq, List.tail_cons] at h
    simp only [Forced, start_accepted, start_queue, finish, List.tail_cons, h]
    rw [List.filter_append _ rest, start_written hm, ← List.filter_append, List.append_assoc,
      List.singleton_append]

end Forced
end SendQueue

namespace WebsocketSession

variable {s s' : WebsocketSession} {a : Action}

theorem may_send_of_force (should_send : Bool) :
    ∀ m : SpanAndHandler, m.force_send → may_send should_send m := by
  simp +contextual [may_send]

theorem foldl_dequeue (q : SendQueue) :
    q.queue.foldl (fun q m => q.report (some .operation_aborted) 0 [m] |>.dequeue q.queue.tail) q =
      { q with
        queue      := []
        queue_size := if q.queue = [] then q.queue_size else 0
        reports    := q.reports ++ q.queue.map (⟨·, some .operation_aborted, 0⟩) } := by
  generalize hq : q.queue = queue
  induction queue generalizing q
  case nil => cases q; simp_all
  case cons m rest ih =>
    rw [List.foldl_cons, ih _ (by simp [SendQueue.dequeue, hq])]
    cases rest <;> simp [SendQueue.dequeue, SendQueue.report, hq]

theorem next_cases (h : s.next a = some s') : s.destroyed = false ∧
    ((∃ m max_queue_size should_send, a = .on_send m max_queue_size should_send ∧
      s' = (s.accept m).on_send should_send m max_queue_size) ∨
    (∃ k ec bytes should_send op sending, a = .on_write k ec bytes should_send ∧
      s.sending.operations[k]? = some op ∧ op.completes ec bytes ∧
      s.sending.complete (may_send should_send) k ec bytes = .ok sending ∧ s' = { s with sending }) ∨
    (a = .destroy ∧ s' = s.destroy)) := by
  simp only [next, Option.ite_none_left_eq_some, Bool.not_eq_true] at h
  refine ⟨h.left, ?_⟩
  obtain ⟨_, h⟩ := h
  cases a
  case on_send m max_queue_size should_send =>
    exact .inl ⟨m, max_queue_size, should_send, rfl, (Option.some.inj h).symm⟩
  case on_write k ec bytes should_send =>
    obtain ⟨hop, h⟩ := Option.ite_none_right_eq_some.mp h
    obtain ⟨op, hk, hop⟩ := (Option.any_eq_true ..).mp hop
    obtain ⟨sending, hc, rfl⟩ := Except.map_eq_ok.mp <| Except.toOption_eq_some.mp h
    exact .inr <| .inl ⟨k, ec, bytes, should_send, op, sending, rfl, hk, hop, hc, rfl⟩
  case destroy => exact .inr <| .inr ⟨rfl, (Option.some.inj h).symm⟩

theorem sound (h : system.Reachable s) : s.sending.Sound := by
  refine System.Invariant.holds (I := fun s => s.sending.Sound) ⟨?_, ?_⟩ h
  · rintro _ rfl
    exact .empty
  · intro s a s' _ hs h
    obtain ⟨_, h⟩ := next_cases h
    obtain ⟨m, max_queue_size, should_send, rfl, rfl⟩ | ⟨k, ec, bytes, v, op, q, rfl, hk, _, hc, rfl⟩ |
      ⟨rfl, rfl⟩ := h
    · exact hs.on_send
    · obtain ⟨q', hc', hq'⟩ := hs.complete hk (may_send v) ec bytes
      exact Except.ok.inj (hc'.symm.trans hc) ▸ hq'
    · rw [destroy, foldl_dequeue]
      exact hs.abort

theorem forced (h : system.Reachable s) (hd : s.destroyed = false) : s.sending.Forced := by
  refine System.Invariant.holds (I := fun s => s.destroyed = false → s.sending.Forced) ⟨?_, ?_⟩ h hd
  · rintro _ rfl _
    rfl
  · intro s a s' _ hs h hd
    obtain ⟨hd', h⟩ := next_cases h
    obtain ⟨m, max_queue_size, should_send, rfl, rfl⟩ | ⟨k, ec, bytes, v, op, q, rfl, hk, _, hc, rfl⟩ |
      ⟨rfl, rfl⟩ := h
    · exact (hs hd').on_send (may_send_of_force _)
    · exact (hs hd').complete (may_send_of_force _) hc
    · simp [destroy] at hd

-- The messages that `on_send` was called with.
def Action.message : Action → Option SpanAndHandler
  | .on_send m _ _ => some m
  | _              => none

def messages (as : List Action) : List SpanAndHandler :=
  as.filterMap Action.message

theorem accepted_of_next (h : s.next a = some s') :
    s'.sending.accepted = s.sending.accepted ++ a.message.toList := by
  obtain ⟨_, h⟩ := next_cases h
  obtain ⟨m, max_queue_size, v, rfl, rfl⟩ | ⟨k, ec, bytes, v, op, q, rfl, hk, _, hc, rfl⟩ | ⟨rfl, rfl⟩ := h
  · exact SendQueue.on_send_accepted
  · obtain ⟨_, _, ha, _⟩ := SendQueue.complete_ok hc
    simp [ha, Action.message]
  · simp [destroy, foldl_dequeue, Action.message]

theorem accepted_of_run {as : List Action} (r : system.Run s as s') :
    s'.sending.accepted = s.sending.accepted ++ messages as := by
  induction r
  case refl => simp [messages]
  case step a _ _ _ hs _ ih =>
    rw [ih, accepted_of_next hs, List.append_assoc]
    cases hm : a.message <;> simp [messages, hm]

-- After `n` operations have completed, what is left of the queue of `s` is what was behind the first
-- `n` messages in it, apart from what has been accepted since.
def Since (n : ℕ) (since : List SpanAndHandler) (s s' : WebsocketSession) : Prop :=
  ∃ rest new, s'.sending.queue = rest ++ new ∧ rest.Sublist (s.sending.queue.drop n) ∧ new.Sublist since

theorem Since.refl : Since 0 [] s s :=
  ⟨s.sending.queue, [], by simp, by simp, .slnil⟩

theorem Since.trans {n₁ n₂ : ℕ} {since₁ since₂ : List SpanAndHandler} {s₁ s₂ s₃ : WebsocketSession}
    (h₁ : Since n₁ since₁ s₁ s₂) (h₂ : Since n₂ since₂ s₂ s₃) : Since (n₁ + n₂) (since₁ ++ since₂) s₁ s₃ := by
  obtain ⟨rest₁, new₁, hq₁, hr₁, hn₁⟩ := h₁
  obtain ⟨rest₂, new₂, hq₂, hr₂, hn₂⟩ := h₂
  rw [hq₁, List.drop_append] at hr₂
  obtain ⟨rest, new, rfl, hr, hn⟩ := List.sublist_append_iff.mp hr₂
  refine ⟨rest, new ++ new₂, ?_, ?_, ?_⟩
  · rw [hq₂, List.append_assoc]
  · rw [← List.drop_drop]
    exact hr.trans (hr₁.drop n₂)
  · exact (hn.trans (List.drop_sublist ..) |>.trans hn₁).append hn₂

def Action.completes : Action → Bool
  | .on_write _ _ _ _ => true
  | _                 => false

theorem Since.step (h : s.next a = some s') (hd : s'.destroyed = false) :
    Since (if a.completes then 1 else 0) a.message.toList s s' := by
  obtain ⟨_, h⟩ := next_cases h
  obtain ⟨m, max_queue_size, v, rfl, rfl⟩ | ⟨k, ec, bytes, v, op, q, rfl, hk, _, hc, rfl⟩ |
    ⟨rfl, rfl⟩ := h
  · cases hq : s.sending.queue
    case nil =>
      refine ⟨[], [m], ?_, by simp, .refl _⟩
      rw [on_send, accept, SendQueue.on_send_nil (q := s.sending.accept m) hq]
      simp
    case cons front rest =>
      obtain ⟨kept, _, hs, he⟩ := SendQueue.on_send_cons (q := s.sending.accept m) (may_send v) m max_queue_size hq
      refine ⟨front :: kept, [m], ?_, ?_, .refl _⟩
      · rw [on_send, accept, he, List.cons_append]
      · simpa [hq, Action.completes] using hs.left
  · obtain ⟨front, hq, _⟩ := SendQueue.complete_ok hc
    refine ⟨q.queue, [], ?_, ?_, .slnil⟩ <;> simp [hq, Action.completes]
  · simp [destroy] at hd

theorem destroyed_eq_false (h : s.next a = some s') : s.destroyed = false :=
  (next_cases h).left

theorem Since.run {as : List Action} (r : system.Run s as s') (hd : s'.destroyed = false) :
    Since (as.countP Action.completes) (messages as) s s' := by
  induction r
  case refl => exact .refl
  case step s₁ a s₂ as s₃ hs r ih =>
    have hd₂ : s₂.destroyed = false := by
      cases r
      case refl       => exact hd
      case step hs' _ => exact destroyed_eq_false hs'
    have h := Since.step hs hd₂ |>.trans (ih hd)
    have hm : messages (a :: as) = a.message.toList ++ messages as := by
      cases hm : a.message <;> simp [messages, hm]
    rwa [List.countP_cons, add_comm, hm]

-- After `on_send` has been called with the messages `ms`: an operation is outstanding just if there is
-- something to send, and what is handed to the stream is in the order of `on_send`. Of the messages that
-- must be sent only those behind the front are yet to be.
structure Pipelined (ms : List SpanAndHandler) (s : WebsocketSession) : Prop where
  operation : s.sending.operations.length = if s.sending.queue = [] then 0 else 1
  in_order  : s.sending.written.Sublist ms
  mandatory : s.destroyed = false → ms.filter SpanAndHandler.mandatory =
    s.sending.written.filter SpanAndHandler.mandatory ++
      (s.sending.queue.drop 1).filter SpanAndHandler.mandatory
  size      : s.sending.queue_size = s.sending.queue.length

theorem reachable_of_run {as : List Action} (r : system.Run {} as s) : system.Reachable s :=
  r.reachable (.init rfl)

theorem accepted_eq_messages {as : List Action} (r : system.Run {} as s) :
    s.sending.accepted = messages as :=
  accepted_of_run r

theorem pipelined_of_run {as : List Action} (r : system.Run {} as s) : Pipelined (messages as) s where
  operation    := (sound <| reachable_of_run r).operations
  in_order     := accepted_eq_messages r ▸ (List.sublist_append_left ..).trans (sound <| reachable_of_run r).written
  mandatory hd := by simpa [SendQueue.Forced, accepted_eq_messages r] using forced (reachable_of_run r) hd
  size         := (sound <| reachable_of_run r).size

theorem isSome_on_write (h : system.Reachable s) (hd : s.destroyed = false) {k : ℕ}
    {ec : Option Error} {bytes : SizeT} (hk : s.sending.operations[k]?.any (·.completes ec bytes))
    (should_send : Bool) : (s.next (.on_write k ec bytes should_send)).isSome := by
  obtain ⟨op, hop, _⟩ := (Option.any_eq_true ..).mp hk
  obtain ⟨q, hq, _⟩ := (sound h).complete hop (may_send should_send) ec bytes
  simp [next, hd, hk, on_write, hq, Except.map, Except.toOption]

-- Once as many operations have completed as there were messages in the queue, all mandatory ones among
-- those that had been accepted before have been written.
theorem mandatory_written {as bs : List Action} (r : system.Run {} as s) (r' : system.Run s bs s')
    (hd : s'.destroyed = false) (hl : s.sending.queue.length ≤ bs.countP Action.completes) :
    (messages as).filter SpanAndHandler.mandatory <+: s'.sending.written.filter SpanAndHandler.mandatory := by
  obtain ⟨rest, new, hq, hr, hn⟩ := Since.run r' hd
  rw [List.drop_eq_nil_of_le hl, List.sublist_nil] at hr
  obtain rfl := hr
  have hf := forced (reachable_of_run <| r.trans r') hd
  rw [SendQueue.Forced, accepted_of_run r', accepted_eq_messages r, hq, List.nil_append, List.filter_append,
    List.filter_append] at hf
  have hle := ((List.tail_sublist new).trans hn).filter SpanAndHandler.mandatory |>.length_le
  have hlen := congrArg List.length hf
  simp only [List.length_append] at hlen
  have hp := List.prefix_append ((messages as).filter SpanAndHandler.mandatory)
    ((messages bs).filter SpanAndHandler.mandatory)
  rw [hf] at hp
  exact List.prefix_of_prefix_length_le hp (List.prefix_append ..) (by omega)

def urgent (handler : ℕ) : SpanAndHandler where
  msgPtr            := 4096
  msgSize           := 5
  completionHandler := some handler
  force_send        := true

-- Two messages have been sent, and the first one is being written.
def backlogged : WebsocketSession :=
  (({} : WebsocketSession).accept (urgent 7)).on_send false (urgent 7) 8
    |>.accept (urgent 8) |>.on_send false (urgent 8) 8

def backlog : List Action :=
  [.on_send (urgent 7) 8 false, .on_send (urgent 8) 8 false]

theorem run_backlog : system.Run {} backlog backlogged :=
  System.ofNext_run <| show backlog.foldlM next {} = _ from rfl

end WebsocketSession
end BeastNetworking
