import InterprocessMemPool.Networking.HttpSession.Theorems.Transition

namespace BeastNetworking

def Operation.isWrite : Operation → Bool
  | .write _ => true
  | .post    => false

namespace SendQueue

variable {q q' : SendQueue} {m : SpanAndHandler} {may_send : SpanAndHandler → Bool} {k : ℕ}
variable {max_queue_size bytes : SizeT} {ec : Option Error}

-- The number of messages that are being written.
def writing (q : SendQueue) : ℕ :=
  q.operations.countP Operation.isWrite

theorem Sound.writing_le (h : Sound q) : q.writing ≤ 1 := by
  have hl : q.operations.length ≤ 1 := by
    rw [h.operations]
    split <;> simp
  exact List.countP_le_length.trans hl

theorem start_writing : (q.start false m).writing = q.writing := by
  simp [writing, start, Operation.isWrite]

-- Where nothing may be sent, no write is started.
theorem on_send_writing (h : ∀ m, may_send m = false) :
    (q.on_send may_send m max_queue_size).writing = q.writing := by
  cases hq : q.queue
  case nil =>
    rw [on_send_nil hq, h, Bool.false_and, start_writing]
    rfl
  case cons front rest =>
    obtain ⟨_, _, _, he⟩ := on_send_cons may_send m max_queue_size hq
    rw [he]
    rfl

theorem complete_writing (hs : Sound q) {op : Operation} (hk : q.operations[k]? = some op)
    (h : ∀ m, may_send m = false) (hc : q.complete may_send k ec bytes = .ok q') : q'.writing = 0 := by
  obtain ⟨⟨front, rest, hq⟩, _, he⟩ := hs.exists_front hk
  cases rest
  case nil =>
    obtain ⟨_, hc'⟩ := complete_single may_send k ec bytes hq
    obtain rfl := Except.ok.inj (hc'.symm.trans hc)
    simp [writing, finish, he]
  case cons next rest =>
    obtain ⟨_, hc'⟩ := complete_cons may_send k ec bytes hq
    obtain rfl := Except.ok.inj (hc'.symm.trans hc)
    rw [h, Bool.false_and, start_writing]
    simp [writing, finish, he]

theorem Sound.frame {errors : List Error} (h : Sound q) : Sound { q with errors } :=
  ⟨h.size, h.operations, h.writes, h.written, h.reports, h.succeeded⟩

end SendQueue

namespace HttpSession

variable {shared : Shared} {s s' : HttpSession} {a : Action}

-- The writes that are outstanding on the connection, of messages and of responses.
def outstanding (s : HttpSession) : ℕ :=
  s.sending.writing + s.writes.length

structure OneWriter (s : HttpSession) : Prop where
  le_one   : s.outstanding ≤ 1
  released : s.released → s.outstanding = 0

-- The responses are written one by one, and the messages as the queue of a session has it.
structure Queued (s : HttpSession) : Prop where
  sound  : s.sending.Sound
  le_one : s.writes.length ≤ 1
  nil    : s.queue = [] → s.writes = []

theorem Frame.queued (hf : Frame s s') (h : Queued s) : Queued s' where
  sound  := by
    obtain ⟨_, he⟩ := hf.sending
    exact he ▸ h.sound.frame
  le_one := hf.writes ▸ h.le_one
  nil    := by
    rw [hf.queue, hf.writes]
    exact h.nil

theorem Queued.eraseIdx (h : Queued s) {k : ℕ} (hk : s.writes[k]? ≠ none) :
    s.writes.eraseIdx k = [] := by
  obtain ⟨_, hk⟩ := Option.ne_none_iff_exists'.mp hk
  obtain ⟨hlt, _⟩ := List.getElem?_eq_some_iff.mp hk
  have hl := h.le_one
  have := List.length_eraseIdx_of_lt hlt
  exact List.length_eq_zero_iff.mp (by omega)

theorem Queued.step (h : Queued s) (e : Effect s a s') : Queued s' := by
  cases e
  case on_send => exact ⟨h.sound.on_send, h.le_one, h.nil⟩
  case on_write2 hk _ hc =>
    obtain ⟨q, hc', hq⟩ := h.sound.complete hk s.may_send _ _
    exact ⟨Except.ok.inj (hc'.symm.trans hc) ▸ hq, h.le_one, h.nil⟩
  case request hf =>
    refine hf.queued ⟨h.sound, ?_, by simp⟩
    by_cases hq : s.queue = []
    case pos => simp [hq, h.nil hq]
    case neg => simpa [hq] using h.le_one
  case upgrade hf => exact hf.queued ⟨h.sound, h.le_one, h.nil⟩
  case on_write queue hk hq hf =>
    refine hf.queued ⟨h.sound, ?_, ?_⟩ <;> simp only [h.eraseIdx hk, List.nil_append]
    · cases queue <;> simp
    · rintro rfl
      rfl
  case on_write_failed hk hf =>
    refine hf.queued ⟨h.sound, ?_, ?_⟩ <;> simp [h.eraseIdx hk]
  case on_read_failed hf         => exact hf.queued h
  case on_nonhttp_read_header hf => exact hf.queued h
  case on_nonhttp_read_body hf   => exact hf.queued h

theorem frame_start {ssl : Bool} : Frame { ssl } (start shared ssl) :=
  .do_read

theorem queued_of_reachable (h : (system shared).Reachable s) : Queued s := by
  refine System.Invariant.holds ⟨?_, fun _ h hs => h.step (transition_of_next hs).right.effect⟩ h
  rintro _ ⟨ssl, rfl⟩
  exact frame_start.queued ⟨.empty, by simp, fun _ => rfl⟩

-- A request is only read while no message is being written, and the stream is only released while nothing
-- is.
def Alone (s : HttpSession) : Action → Prop
  | .on_read _ _ (.request _) => s.sending.writing = 0
  | .on_read _ _ .upgrade     => s.outstanding = 0
  | _                         => True

instance : ∀ a, Decidable (Alone s a)
  | .on_read _ _ (.request _)     => inferInstanceAs (Decidable (_ = _))
  | .on_read _ _ .upgrade         => inferInstanceAs (Decidable (_ = _))
  | .on_read _ _ .end_of_stream   => inferInstanceAs (Decidable True)
  | .on_read _ _ .error           => inferInstanceAs (Decidable True)
  | .on_send _ _                  => inferInstanceAs (Decidable True)
  | .on_write2 _ _ _              => inferInstanceAs (Decidable True)
  | .on_write _ _                 => inferInstanceAs (Decidable True)
  | .on_nonhttp_read_header _ _ _ => inferInstanceAs (Decidable True)
  | .on_nonhttp_read_body _ _ _   => inferInstanceAs (Decidable True)

-- While there is a response in the queue, no message is being written.
structure Exclusive (s : HttpSession) : Prop where
  writing  : s.queue ≠ [] → s.sending.writing = 0
  released : s.released → s.outstanding = 0

theorem Frame.writing (hf : Frame s s') : s'.sending.writing = s.sending.writing := by
  obtain ⟨_, he⟩ := hf.sending
  rw [he]
  rfl

theorem Frame.outstanding (hf : Frame s s') : s'.outstanding = s.outstanding := by
  rw [HttpSession.outstanding, hf.writing, hf.writes]
  rfl

theorem Frame.exclusive (hf : Frame s s') (h : Exclusive s) : Exclusive s' where
  writing  := by
    rw [hf.queue, hf.writing]
    exact h.writing
  released := by
    rw [hf.released, hf.outstanding]
    exact h.released

theorem may_send_of_queue (h : s.queue ≠ []) : ∀ m, s.may_send m = false :=
  fun _ => List.isEmpty_eq_false_iff.mpr h

namespace Exclusive

theorem oneWriter (h : Exclusive s) (hq : Queued s) : OneWriter s where
  le_one   := by
    rw [outstanding]
    by_cases hn : s.queue = []
    case pos => simpa [hq.nil hn] using hq.sound.writing_le
    case neg => simpa [h.writing hn] using hq.le_one
  released := h.released

theorem step (h : Exclusive s) (hq : Queued s) (hr : s.released = false) (e : Effect s a s')
    (ha : Alone s a) : Exclusive s' := by
  cases e
  case on_send m max_queue_size =>
    have hw (hne : s.queue ≠ []) :
        ((s.accept m).on_send m max_queue_size).sending.writing = s.sending.writing :=
      SendQueue.on_send_writing (may_send_of_queue hne)
    exact ⟨fun hne => (hw hne).trans (h.writing hne), by simp [HttpSession.on_send, accept, hr]⟩
  case on_write2 hk _ hc =>
    refine ⟨fun hne => ?_, by simp [hr]⟩
    exact SendQueue.complete_writing hq.sound hk (may_send_of_queue hne) hc
  case request hf                => exact hf.exclusive ⟨fun _ => ha, by simp [hr]⟩
  case upgrade hf                => exact hf.exclusive ⟨h.writing, fun _ => ha⟩
  case on_write hq hf            => exact hf.exclusive ⟨fun _ => h.writing (by simp [hq]), by simp [hr]⟩
  case on_write_failed hf        => exact hf.exclusive ⟨h.writing, by simp [hr]⟩
  case on_read_failed hf         => exact hf.exclusive h
  case on_nonhttp_read_header hf => exact hf.exclusive h
  case on_nonhttp_read_body hf   => exact hf.exclusive h

-- The converse, for the two actions that the condition is about.
theorem alone_of_oneWriter (h : Exclusive s) (e : Effect s a s') (h' : OneWriter s') : Alone s a := by
  cases e
  case request hf =>
    by_contra hn
    have hq : s.queue = [] := by_contra fun hq => hn (h.writing hq)
    have hle := h'.le_one
    rw [hf.outstanding, outstanding] at hle
    simp only [hq, if_true, List.length_append, List.length_singleton] at hle
    simp only [Alone] at hn
    omega
  case upgrade hf =>
    have ho := h'.released hf.released
    rwa [hf.outstanding] at ho
  all_goals try trivial
  case on_read_failed hr _ => obtain rfl | rfl := hr <;> trivial

end Exclusive

theorem exclusive_of_reachable (h : ((system shared).restrict Alone).Reachable s) : Exclusive s := by
  refine System.Invariant.holds ⟨?_, ?_⟩ h
  · rintro _ ⟨ssl, rfl⟩
    exact frame_start.exclusive ⟨by simp, by simp⟩
  · intro s a s' h hs ⟨ha, ht⟩
    obtain ⟨hr, t⟩ := transition_of_next ht
    exact hs.step (queued_of_reachable h.of_restrict) hr t.effect ha

theorem oneWriter_iff (shared : Shared) :
    (∀ {s}, ((system shared).restrict Alone).Reachable s → OneWriter s) ∧
    (∀ {s s' a}, ((system shared).restrict Alone).Reachable s → s.next shared a = some s' →
      (OneWriter s' ↔ Alone s a)) := by
  have hw {s} (h : ((system shared).restrict Alone).Reachable s) : OneWriter s :=
    (exclusive_of_reachable h).oneWriter (queued_of_reachable h.of_restrict)
  refine ⟨hw, fun h hs => ⟨?_, fun ha => hw (h.step ⟨ha, hs⟩)⟩⟩
  exact (exclusive_of_reachable h).alone_of_oneWriter (transition_of_next hs).right.effect

def message : SpanAndHandler where
  msgPtr            := 4096
  msgSize           := 5
  completionHandler := some 7
  force_send        := false

def index : Request where
  method     := .get
  target     := "/".toList
  version    := 11
  keep_alive := true
  body       := []

def getIndex : Action :=
  .on_read 0 (fun _ => .no_such_file_or_directory) (.request index)

theorem oneWriter_iff_run : ∃ s, s.outstanding = 1 ∧ s.queue.length = 1 ∧ OneWriter s ∧
    ∀ s', s.next {} getIndex = some s' → OneWriter s' := by
  have ⟨s, hr, ho, hq, hw⟩ : ∃ s, ((system {}).restrict Alone).Reachable s ∧
      s.outstanding = 1 ∧ s.queue.length = 1 ∧ s.sending.writing = 0 :=
    System.exec_reachable ⟨false, rfl⟩ <| show Option.any _ (System.exec _ _ _
      [.on_send message 8, .on_write2 0 none 5, getIndex, .on_send message 8]) by decide +kernel
  obtain ⟨h, hi⟩ := oneWriter_iff {}
  exact ⟨s, ho, hq, h hr, fun s' hs => (hi hr hs).mpr hw⟩

-- A request comes while a message is being written, and another one that asks for an upgrade comes while
-- the response to the first is.
theorem not_oneWriter :
    (∃ s, (system {}).Reachable s ∧ s.outstanding = 2) ∧
    (∃ s, (system {}).Reachable s ∧ s.released ∧ s.outstanding = 1) := by
  rw [← System.restrict_true (S := system {})]
  constructor
  · exact System.exec_reachable ⟨false, rfl⟩ <| show Option.any _ (System.exec _ _ _
      [.on_send message 8, getIndex]) by decide +kernel
  · exact System.exec_reachable ⟨false, rfl⟩ <| show Option.any _ (System.exec _ _ _
      [getIndex, .on_read 0 (fun _ => .no_such_file_or_directory) .upgrade]) by decide +kernel

end HttpSession
end BeastNetworking
