import InterprocessMemPool.Networking.HttpSession.Basic
import InterprocessMemPool.Networking.SendQueue.Theorems.Pipeline

namespace BeastNetworking.HttpSession

variable {shared : Shared} {s s' : HttpSession} {a : Action}

-- An operation is no longer outstanding when its handler runs.
def finish_read (k : ℕ) (s : HttpSession) : HttpSession :=
  { s with reads := s.reads.eraseIdx k }

def finish_write (k : ℕ) (s : HttpSession) : HttpSession :=
  { s with writes := s.writes.eraseIdx k }

inductive Transition (shared : Shared) (s : HttpSession) : Action → HttpSession → Prop
  | on_send {m max_queue_size} : Transition shared s (.on_send m max_queue_size)
      ((s.accept m).on_send m max_queue_size)
  | on_write2 {k ec bytes op s'} :
    s.sending.operations[k]? = some op → completes ec bytes op →
    (s.transfer ec bytes op).on_write2 k ec bytes = .ok s' →
    Transition shared s (.on_write2 k ec bytes) s'
  | on_read {k file result s'} :
    s.reads[k]? = some .request → (s.finish_read k).on_read shared file result = .ok s' →
    Transition shared s (.on_read k file result) s'
  | on_write {k ec msg s'} :
    s.writes[k]? = some msg → (s.finish_write k).on_write shared (need_eof msg) ec = .ok s' →
    Transition shared s (.on_write k ec) s'
  | on_nonhttp_read_header {k error body_length header_size} :
    s.reads[k]? = some (.header header_size) →
    Transition shared s (.on_nonhttp_read_header k error body_length)
      (s.finish_read k |>.on_nonhttp_read_header shared error body_length)
  | on_nonhttp_read_body {k error bytes header_size body_size} :
    s.reads[k]? = some (.body header_size body_size) → (error = none → bytes = body_size) →
    Transition shared s (.on_nonhttp_read_body k error bytes)
      (s.finish_read k |>.on_nonhttp_read_body shared header_size body_size error bytes)

theorem on_read_cases {file : Text → FileResult} {result : ReadResult}
    (h : s.on_read shared file result = .ok s') :
    (result = .end_of_stream ∧ s' = { s with eof := true }) ∨ (result = .error ∧ s' = s) ∨
    (result = .upgrade ∧ s' = { s with released := true }) ∨
    (∃ req e, result = .request req ∧ s' = s.handle shared e) := by
  cases result
  case end_of_stream => exact .inl ⟨rfl, (Except.ok.inj h).symm⟩
  case error         => exact .inr <| .inl ⟨rfl, (Except.ok.inj h).symm⟩
  case upgrade       => exact .inr <| .inr <| .inl ⟨rfl, (Except.ok.inj h).symm⟩
  case request req   =>
    obtain ⟨e, _, rfl⟩ := Except.map_eq_ok.mp h
    exact .inr <| .inr <| .inr ⟨req, e, rfl, rfl⟩

-- What `queue_` does when a write has finished.
def dequeue (shared : Shared) (queue : List Response) (s : HttpSession) : HttpSession :=
  let s' := { s with queue, writes := s.writes ++ queue.head?.toList }
  if s.is_full then s'.do_read shared else s'

theorem on_write_cases {close : Bool} {ec : Option Error} (h : s.on_write shared close ec = .ok s') :
    s' = s ∨ s' = { s with eof := true } ∨
    ∃ msg queue, s.queue = msg :: queue ∧ ec = none ∧ s' = s.dequeue shared queue := by
  rw [on_write] at h
  split at h
  case isTrue => exact .inl (Except.ok.inj h).symm
  case isFalse he =>
    split at h
    case isTrue => exact .inr <| .inl (Except.ok.inj h).symm
    case isFalse =>
      split at h
      case h_1 => cases h
      case h_2 msg queue hq =>
        exact .inr <| .inr ⟨msg, queue, hq, by simpa using he, (Except.ok.inj h).symm⟩

theorem transition_of_next (h : next shared s a = some s') :
    s.released = false ∧ Transition shared s a s' := by
  simp only [next, Option.ite_none_left_eq_some, Bool.not_eq_true] at h
  obtain ⟨hr, h⟩ := h
  refine ⟨hr, ?_⟩
  cases a
  case on_send =>
    obtain rfl := Option.some.inj h
    exact .on_send
  case on_write2 k ec bytes =>
    obtain ⟨op, hk, h⟩ := Option.bind_eq_some_iff.mp h
    obtain ⟨hc, h⟩ := Option.ite_none_right_eq_some.mp h
    exact .on_write2 hk hc (Except.toOption_eq_some.mp h)
  case on_read k file result =>
    obtain ⟨r, hk, h⟩ := Option.bind_eq_some_iff.mp h
    cases r
    case request => exact .on_read hk (Except.toOption_eq_some.mp h)
    all_goals simp at h
  case on_write k ec =>
    obtain ⟨msg, hk, h⟩ := Option.bind_eq_some_iff.mp h
    exact .on_write hk (Except.toOption_eq_some.mp h)
  case on_nonhttp_read_header k error body_length =>
    obtain ⟨r, hk, h⟩ := Option.bind_eq_some_iff.mp h
    cases r
    case header =>
      obtain rfl := Option.some.inj h
      exact .on_nonhttp_read_header hk
    all_goals simp at h
  case on_nonhttp_read_body k error bytes =>
    obtain ⟨r, hk, h⟩ := Option.bind_eq_some_iff.mp h
    cases r
    case body =>
      simp only [Option.ite_none_left_eq_some, Option.some.injEq] at h
      obtain ⟨hb, rfl⟩ := h
      exact .on_nonhttp_read_body hk (by simpa using hb)
    all_goals simp at h

theorem reachable_start {ssl : Bool} : (system shared).Reachable (start shared ssl) :=
  .init ⟨ssl, rfl⟩

-- What is not about reads is unchanged, apart from the errors that have been reported.
structure Frame (s s' : HttpSession) : Prop where
  ssl       : s'.ssl = s.ssl
  queue     : s'.queue = s.queue
  writes    : s'.writes = s.writes
  released  : s'.released = s.released
  transfers : s'.transfers = s.transfers
  sending   : ∃ errors, s'.sending = { s.sending with errors }

namespace Frame

theorem refl : Frame s s :=
  ⟨rfl, rfl, rfl, rfl, rfl, _, rfl⟩

theorem trans {s₁ s₂ s₃ : HttpSession} (h₁ : Frame s₁ s₂) (h₂ : Frame s₂ s₃) : Frame s₁ s₃ where
  ssl       := h₂.ssl.trans h₁.ssl
  queue     := h₂.queue.trans h₁.queue
  writes    := h₂.writes.trans h₁.writes
  released  := h₂.released.trans h₁.released
  transfers := h₂.transfers.trans h₁.transfers
  sending   := by
    obtain ⟨_, he₁⟩ := h₁.sending
    obtain ⟨_, he₂⟩ := h₂.sending
    exact ⟨_, by rw [he₂, he₁]⟩

theorem finish_read {k : ℕ} : Frame s (s.finish_read k) :=
  ⟨rfl, rfl, rfl, rfl, rfl, _, rfl⟩

theorem start_read {n : SizeT} {r : Read} : Frame s (s.resize n |>.start_read r) := by
  rw [resize]
  split <;> exact ⟨rfl, rfl, rfl, rfl, rfl, _, rfl⟩

theorem do_read : Frame s (s.do_read shared) := by
  rw [HttpSession.do_read]
  split
  case isTrue  => exact start_read
  case isFalse => exact ⟨rfl, rfl, rfl, rfl, rfl, _, rfl⟩

theorem on_error {ec : Option Error} : Frame s (s.on_error ec) :=
  ⟨rfl, rfl, rfl, rfl, rfl, _, SendQueue.on_error_eq⟩

theorem on_post (posted : Option Text) : Frame s (s.on_post posted) := by
  cases posted <;> exact ⟨rfl, rfl, rfl, rfl, rfl, _, rfl⟩

theorem on_nonhttp_read_header {error : Option Error} {body_length : SizeT} :
    Frame s (s.on_nonhttp_read_header shared error body_length) := by
  rw [HttpSession.on_nonhttp_read_header]
  split
  case isTrue => exact on_error
  case isFalse =>
    split
    case isTrue  => exact start_read
    case isFalse => exact refl

theorem on_nonhttp_read_body {header_size body_size bytes : SizeT} {error : Option Error} :
    Frame s (s.on_nonhttp_read_body shared header_size body_size error bytes) := by
  simp only [HttpSession.on_nonhttp_read_body]
  split
  case isTrue  => exact on_error
  case isFalse => exact (⟨rfl, rfl, rfl, rfl, rfl, _, rfl⟩ : Frame s (s.on_http_read _)).trans do_read

end Frame

-- A response is written at once if there is no other in the queue.
theorem respond_frame {s₀ : HttpSession} (msg : Response) (h : Frame s₀ s) : Frame
    { s₀ with
      queue  := s₀.queue ++ [msg]
      writes := if s₀.queue = [] then s₀.writes ++ [msg] else s₀.writes } (s.respond msg) := by
  obtain ⟨h₁, h₂, h₃, h₄, h₅, h₆⟩ := h
  rw [respond]
  by_cases hq : s₀.queue = []
  case pos => simpa [hq, h₂, h₃] using ⟨h₁, rfl, rfl, h₄, h₅, h₆⟩
  case neg => simpa [hq, h₂, h₃] using ⟨h₁, rfl, rfl, h₄, h₅, h₆⟩

theorem handle_frame {e : Exchange} : Frame
    { s with
      queue  := s.queue ++ [e.response]
      writes := if s.queue = [] then s.writes ++ [e.response] else s.writes } (s.handle shared e) := by
  have hr := respond_frame e.response (Frame.on_post (s := s) e.posted)
  rw [handle]
  by_cases hf : (s.on_post e.posted |>.respond e.response).is_full
  case pos => simpa [hf] using hr
  case neg => simpa [hf] using hr.trans .do_read

theorem transfer_eq (ec : Option Error) (bytes : SizeT) (op : Operation) :
    ∃ transfers, s.transfer ec bytes op = { s with transfers } := by
  cases op
  case post    => exact ⟨_, rfl⟩
  case write m => cases ec <;> exact ⟨_, rfl⟩

theorem dequeue_frame {queue : List Response} : Frame
    { s with queue, writes := s.writes ++ queue.head?.toList } (s.dequeue shared queue) := by
  rw [dequeue]
  split
  case isTrue  => exact .do_read
  case isFalse => exact .refl

-- What a transition means for the writes on the connection.
inductive Effect (s : HttpSession) : Action → HttpSession → Prop
  | on_send {m max_queue_size} : Effect s (.on_send m max_queue_size)
      ((s.accept m).on_send m max_queue_size)
  | on_write2 {k ec bytes op sending} :
    s.sending.operations[k]? = some op → completes ec bytes op →
    s.sending.complete s.may_send k ec bytes = .ok sending →
    Effect s (.on_write2 k ec bytes)
      { s with sending, transfers := (s.transfer ec bytes op).transfers }
  | request {k file req s' response} :
    Frame
      { s with
        queue  := s.queue ++ [response]
        writes := if s.queue = [] then s.writes ++ [response] else s.writes } s' →
    Effect s (.on_read k file (.request req)) s'
  | upgrade {k file s'} : Frame { s with released := true } s' → Effect s (.on_read k file .upgrade) s'
  | on_write {k ec msg queue s'} :
    s.writes[k]? ≠ none → s.queue = msg :: queue →
    Frame { s with queue, writes := s.writes.eraseIdx k ++ queue.head?.toList } s' →
    Effect s (.on_write k ec) s'
  | on_write_failed {k ec s'} :
    s.writes[k]? ≠ none → Frame { s with writes := s.writes.eraseIdx k } s' →
    Effect s (.on_write k ec) s'
  | on_read_failed {k file result s'} :
    result = .end_of_stream ∨ result = .error → Frame s s' → Effect s (.on_read k file result) s'
  | on_nonhttp_read_header {k error body_length s'} :
    Frame s s' → Effect s (.on_nonhttp_read_header k error body_length) s'
  | on_nonhttp_read_body {k error bytes s'} :
    Frame s s' → Effect s (.on_nonhttp_read_body k error bytes) s'

theorem Transition.effect (t : Transition shared s a s') : Effect s a s' := by
  cases t
  case on_send => exact .on_send
  case on_write2 k ec bytes op hk hc he =>
    obtain ⟨transfers, ht⟩ := transfer_eq (s := s) ec bytes op
    have htr : transfers = (s.transfer ec bytes op).transfers := by rw [ht]
    rw [ht] at he
    obtain ⟨sending, hs, rfl⟩ := Except.map_eq_ok.mp he
    exact htr ▸ .on_write2 hk hc hs
  case on_read k file result _ he =>
    obtain ⟨hr, rfl⟩ | ⟨hr, rfl⟩ | ⟨rfl, rfl⟩ | ⟨_, e, rfl, rfl⟩ := on_read_cases he
    · exact .on_read_failed (.inl hr) ⟨rfl, rfl, rfl, rfl, rfl, _, rfl⟩
    · exact .on_read_failed (.inr hr) .finish_read
    · exact .upgrade ⟨rfl, rfl, rfl, rfl, rfl, _, rfl⟩
    · have hf := @handle_frame shared (s.finish_read k) e
      exact .request ⟨hf.ssl, hf.queue, hf.writes, hf.released, hf.transfers, hf.sending⟩
  case on_write k _ _ hk he =>
    have hk := Option.ne_none_iff_exists'.mpr ⟨_, hk⟩
    obtain rfl | rfl | ⟨_, queue, hq, _, rfl⟩ := on_write_cases he
    · exact .on_write_failed hk .refl
    · exact .on_write_failed hk ⟨rfl, rfl, rfl, rfl, rfl, _, rfl⟩
    · exact .on_write hk hq (@dequeue_frame shared (s.finish_write k) queue)
  case on_nonhttp_read_header => exact .on_nonhttp_read_header <| .trans .finish_read .on_nonhttp_read_header
  case on_nonhttp_read_body   => exact .on_nonhttp_read_body <| .trans .finish_read .on_nonhttp_read_body

end BeastNetworking.HttpSession
