import InterprocessMemPool.Networking.HttpSession.Theorems.Writers

namespace BeastNetworking.HttpSession

variable {shared : Shared} {s s' : HttpSession} {a : Action} {as : List Action} {msg : Response}
variable {queue : List Response} {k n : ℕ}

theorem is_full_eq_false : s.is_full = false ↔ s.queue.length < 8 := by
  simp [is_full]

theorem reads_start_read {r : Read} {m : SizeT} : (s.resize m |>.start_read r).reads.length = s.reads.length + 1 := by
  rw [resize]
  split <;> simp [start_read]

theorem reads_do_read : (s.do_read shared).reads.length = s.reads.length + 1 := by
  rw [do_read]
  split
  · exact reads_start_read
  · simp [start_read]

theorem reads_on_nonhttp_read_header {error : Option Error} {body_length : SizeT} :
    (s.on_nonhttp_read_header shared error body_length).reads.length ≤ s.reads.length + 1 := by
  rw [on_nonhttp_read_header]
  split
  case isTrue  => exact Nat.le_succ _
  case isFalse =>
    split
    case isTrue  => exact reads_start_read.le
    case isFalse => exact Nat.le_succ _

theorem reads_on_nonhttp_read_body {header_size body_size bytes : SizeT} {error : Option Error} :
    (s.on_nonhttp_read_body shared header_size body_size error bytes).reads.length ≤ s.reads.length + 1 := by
  simp only [on_nonhttp_read_body]
  split
  case isTrue  => exact Nat.le_succ _
  case isFalse => exact reads_do_read.le

theorem reads_respond : (s.respond msg).reads = s.reads := by
  rw [respond]
  by_cases hq : s.queue = [] <;> simp [hq]

theorem reads_handle {e : Exchange} (h : s.reads = []) :
    (s.handle shared e).reads.length = if (s.handle shared e).is_full then 0 else 1 := by
  have hr : (s.on_post e.posted |>.respond e.response).reads = [] := by
    rw [reads_respond]
    cases e.posted <;> exact h
  rw [handle]
  by_cases hf : (s.on_post e.posted |>.respond e.response).is_full
  case pos => simp [hf, hr]
  case neg =>
    have hq : ((s.on_post e.posted |>.respond e.response).do_read shared).is_full = false := by
      rw [is_full_eq_false, Frame.do_read.queue, ← is_full_eq_false]
      simpa using hf
    rw [if_neg hf, hq, reads_do_read, hr]
    rfl

-- What is to be answered to a request that an action brings.
def answer (shared : Shared) : Action → Option Response
  | .on_read _ file (.request req) => (handle_request file shared.doc_root req).toOption.map (·.response)
  | _                              => none

def answers (shared : Shared) (as : List Action) : List Response :=
  as.filterMap (answer shared)

-- The write of a response has been completed.
def completes_response : Action → Bool
  | .on_write _ _ => true
  | _             => false

-- No read of the session ends otherwise than with a request.
def proceeds : Action → Bool
  | .on_read _ _ result            =>
    match result with
    | .request _ => true
    | _          => false
  | .on_nonhttp_read_header _ _ _  => false
  | .on_nonhttp_read_body _ _ _    => false
  | _                              => true

-- The responses are written in the order of their requests, each of them once, and one after the other. No more
-- than 8 are waiting, and the next request is read unless there are as many.
structure Pipelined (shared : Shared) (as : List Action) (s : HttpSession) : Prop where
  ordered : ∃ n ≤ (answers shared as).length, s.queue = (answers shared as).drop n ∧
    as.countP completes_response + s.writes.length = n + min 1 s.queue.length
  oldest  : s.writes <+: s.queue
  limit   : s.queue.length ≤ 8
  reads   : s.reads.length ≤ 1
  paused  : s.reads ≠ [] → s.is_full = false
  resumed : (∀ a ∈ as, proceeds a) → s.is_full = false → s.reads ≠ []

theorem answers_concat (ha : answer shared a = none) : answers shared (as ++ [a]) = answers shared as := by
  simp [answers, ha]

namespace Pipelined

theorem start {ssl : Bool} : Pipelined shared [] (start shared ssl) := by
  have hf := @frame_start shared ssl
  have hq : (HttpSession.start shared ssl).queue = [] := hf.queue
  have hw : (HttpSession.start shared ssl).writes = [] := hf.writes
  have hr : (HttpSession.start shared ssl).reads.length = 1 := reads_do_read
  constructor
  case ordered => exact ⟨0, by simp, by simp [hq, answers], by simp [hq, hw]⟩
  case oldest  => rw [hw]; exact List.nil_prefix
  case limit   => simp [hq]
  case reads   => exact hr.le
  case paused  => simp [is_full_eq_false, hq]
  case resumed => exact fun _ _ hn => by simp [hn] at hr

-- A step that has nothing to do with requests and responses.
theorem quiet (h : Pipelined shared as s) (hq : s'.queue = s.queue) (hw : s'.writes = s.writes)
    (ha : answer shared a = none) (hc : completes_response a = false) (hr : s'.reads.length ≤ 1)
    (hp : s'.reads ≠ [] → s.reads ≠ []) (hn : proceeds a → s'.reads = s.reads) : Pipelined shared (as ++ [a]) s' where
  ordered           := by simpa [answers_concat ha, hq, hw, hc] using h.ordered
  oldest            := by
    rw [hq, hw]
    exact h.oldest
  limit             := hq ▸ h.limit
  reads             := hr
  paused he         := by
    have := h.paused (hp he)
    rwa [is_full_eq_false, ← hq, ← is_full_eq_false] at this
  resumed hall hf   := by
    simp only [List.mem_append, List.mem_singleton, or_imp, forall_and, forall_eq] at hall
    rw [is_full_eq_false, hq, ← is_full_eq_false] at hf
    exact hn hall.right ▸ h.resumed hall.left hf

-- What is in the queue next to what has been written.
theorem request (h : Pipelined shared as s) (ha : answer shared a = some msg) (hc : completes_response a = false)
    (hr : s.reads ≠ [])
    (hf : Frame { s with
      queue  := s.queue ++ [msg]
      writes := if s.queue = [] then s.writes ++ [msg] else s.writes } s')
    (hreads : s'.reads.length = if s'.is_full then 0 else 1) : Pipelined shared (as ++ [a]) s' := by
  have hlt := is_full_eq_false.mp (h.paused hr)
  have hq : s'.queue = s.queue ++ [msg] := hf.queue
  have hw : s'.writes = if s.queue = [] then s.writes ++ [msg] else s.writes := hf.writes
  constructor
  case ordered =>
    obtain ⟨n, hn, he, hcount⟩ := h.ordered
    have hanswers : answers shared (as ++ [a]) = answers shared as ++ [msg] := by simp [answers, ha]
    refine ⟨n, ?_, ?_, ?_⟩
    · rw [hanswers, List.length_append]
      omega
    · rw [hanswers, List.drop_append_of_le_length hn, hq, he]
    · simp only [List.countP_append, List.countP_singleton, hc, hw, hq, List.length_append, List.length_singleton]
      by_cases hs : s.queue = []
      case pos =>
        simp only [hs, List.length_nil] at hcount
        simp [hs]
        omega
      case neg =>
        have := List.length_pos_iff.mpr hs
        simp [hs]
        omega
  case oldest  =>
    rw [hw, hq]
    split
    case isTrue hs  =>
      have := h.oldest
      simp [hs] at this ⊢
      simp [this]
    case isFalse hs => exact h.oldest.trans (List.prefix_append ..)
  case limit   =>
    rw [hq, List.length_append, List.length_singleton]
    omega
  case reads   =>
    rw [hreads]
    split <;> omega
  case paused  =>
    intro hne
    by_contra hfull
    rw [if_pos (by simpa using hfull), List.length_eq_zero_iff] at hreads
    exact hne hreads
  case resumed =>
    intro _ hfull hnil
    simp [hfull, hnil] at hreads

section

variable (h : Pipelined shared as s) (hk : s.writes[k]? = some msg) {ec : Option Error}
include h hk

-- What is being written is the oldest response.
theorem writes_eq (hq : Queued s) : ∃ queue, s.writes = [msg] ∧ s.queue = msg :: queue := by
  obtain ⟨hlt, he⟩ := List.getElem?_eq_some_iff.mp hk
  have hw : s.writes = [msg] := by
    obtain ⟨x, hx⟩ := List.length_eq_one_iff.mp (le_antisymm hq.le_one (by omega))
    obtain rfl : k = 0 := by
      rw [hx, List.length_singleton] at hlt
      omega
    simpa [hx] using hk
  obtain ⟨queue, hqueue⟩ := hw ▸ h.oldest
  exact ⟨queue, hw, hqueue.symm⟩

theorem written (hq : Queued s) (hs : s.queue = msg :: queue) :
    Pipelined shared (as ++ [.on_write k ec]) ((s.finish_write k).dequeue shared queue) := by
  have hf := @dequeue_frame shared (s.finish_write k) queue
  have hqueue : ((s.finish_write k).dequeue shared queue).queue = queue := hf.queue
  have hwrites : ((s.finish_write k).dequeue shared queue).writes = queue.head?.toList := by
    have he := hq.eraseIdx (Option.ne_none_iff_exists'.mpr ⟨_, hk⟩)
    rw [hf.writes, finish_write, he, List.nil_append]
  have hreads : ((s.finish_write k).dequeue shared queue).reads.length =
      if s.is_full then s.reads.length + 1 else s.reads.length := by
    change (if s.is_full then _ else _ : HttpSession).reads.length = _
    split
    · exact reads_do_read
    · rfl
  have hlimit := h.limit
  have hmax := h.reads
  have hnone (hfull : s.is_full) : s.reads = [] := by
    by_contra hne
    simp [h.paused hne] at hfull
  rw [hs, List.length_cons] at hlimit
  obtain ⟨_, hw, _⟩ := h.writes_eq hk hq
  constructor
  case ordered =>
    obtain ⟨n, hn, he, hcount⟩ := h.ordered
    have hlen := congrArg List.length he
    rw [hs, List.length_cons, List.length_drop] at hlen
    rw [answers_concat rfl]
    refine ⟨n + 1, by omega, ?_, ?_⟩
    · rw [hqueue]
      simpa using congrArg List.tail (hs.symm.trans he)
    · rw [hwrites, hqueue, List.countP_append]
      rw [hw, hs] at hcount
      simp only [List.length_cons, List.length_nil] at hcount
      cases queue <;> simp [completes_response] <;> omega
  case oldest  =>
    rw [hwrites, hqueue]
    cases queue <;> simp
  case limit   =>
    rw [hqueue]
    omega
  case reads   =>
    rw [hreads]
    split
    case isTrue hfull  => simp [hnone hfull]
    case isFalse hfull => exact hmax
  case paused  =>
    rw [is_full_eq_false, hqueue]
    omega
  case resumed =>
    intro hall _ hnil
    rw [hnil, List.length_nil] at hreads
    split at hreads
    case isTrue hfull  => omega
    case isFalse hfull =>
      refine h.resumed (fun a ha => hall a (List.mem_append_left _ ha)) (by simpa using hfull) ?_
      exact List.length_eq_zero_iff.mp hreads.symm

-- The write has failed, or the connection has been closed after it.
theorem stalled (hq : Queued s) (hs : s'.queue = s.queue) (hw : s'.writes = s.writes.eraseIdx k)
    (hr : s'.reads = s.reads) :
    Pipelined shared (as ++ [.on_write k ec]) s' := by
  obtain ⟨queue, hw₀, hqueue⟩ := h.writes_eq hk hq
  have hw : s'.writes = [] := hw.trans (hq.eraseIdx (Option.ne_none_iff_exists'.mpr ⟨_, hk⟩))
  constructor
  case ordered =>
    obtain ⟨n, hn, he, hcount⟩ := h.ordered
    rw [answers_concat rfl]
    refine ⟨n, hn, hs.trans he, ?_⟩
    rw [hw, hs, List.countP_append, ← hcount, hw₀]
    rfl
  case oldest  =>
    rw [hw]
    exact List.nil_prefix
  case limit   => exact hs ▸ h.limit
  case reads   => exact hr ▸ h.reads
  case paused  =>
    rw [hr, is_full_eq_false, hs, ← is_full_eq_false]
    exact h.paused
  case resumed =>
    rw [hr, is_full_eq_false, hs, ← is_full_eq_false]
    exact fun hall => h.resumed fun a ha => hall a (List.mem_append_left _ ha)

end

-- The step of a read that does not end with a request.
theorem finish (h : Pipelined shared as s) {r : Read} (hk : s.reads[k]? = some r) (hq : s'.queue = s.queue)
    (hw : s'.writes = s.writes) (ha : answer shared a = none) (hc : completes_response a = false)
    (hp : proceeds a = false)
    (hr : s'.reads.length ≤ (s.reads.eraseIdx k).length + 1) : Pipelined shared (as ++ [a]) s' := by
  obtain ⟨hlt, _⟩ := List.getElem?_eq_some_iff.mp hk
  have hmax := h.reads
  have hlen := List.length_eraseIdx_of_lt hlt
  refine h.quiet hq hw ha hc (by omega) (fun _ => List.ne_nil_of_length_pos (by omega)) ?_
  simp [hp]

theorem step (h : Pipelined shared as s) (hq : Queued s) (t : Transition shared s a s') :
    Pipelined shared (as ++ [a]) s' := by
  cases t
  case on_send => exact h.quiet rfl rfl rfl rfl h.reads id fun _ => rfl
  case on_write2 k ec bytes op hk hc he =>
    obtain ⟨transfers, ht⟩ := transfer_eq (s := s) ec bytes op
    rw [ht] at he
    obtain ⟨sending, hs, rfl⟩ := Except.map_eq_ok.mp he
    exact h.quiet rfl rfl rfl rfl h.reads id fun _ => rfl
  case on_read k file result hk he =>
    cases result
    case end_of_stream =>
      obtain rfl := Except.ok.inj he
      exact h.finish hk rfl rfl rfl rfl rfl (Nat.le_succ _)
    case error         =>
      obtain rfl := Except.ok.inj he
      exact h.finish hk rfl rfl rfl rfl rfl (Nat.le_succ _)
    case upgrade       =>
      obtain rfl := Except.ok.inj he
      exact h.finish hk rfl rfl rfl rfl rfl (Nat.le_succ _)
    case request req   =>
      obtain ⟨e, hreq, rfl⟩ := Except.map_eq_ok.mp he
      obtain ⟨hlt, _⟩ := List.getElem?_eq_some_iff.mp hk
      have hf := @handle_frame shared (s.finish_read k) e
      have hnil : (s.finish_read k).reads = [] := by
        have hmax := h.reads
        have hlen := List.length_eraseIdx_of_lt hlt
        refine List.length_eq_zero_iff.mp ?_
        simp only [finish_read]
        omega
      have ha : answer shared (.on_read k file (.request req)) = some e.response := by
        simp [answer, hreq, Except.toOption]
      refine h.request ha rfl (List.ne_nil_of_length_pos (by omega)) ?_ (reads_handle hnil)
      exact ⟨hf.ssl, hf.queue, hf.writes, hf.released, hf.transfers, hf.sending⟩
  case on_write k ec msg hk he =>
    obtain rfl | rfl | ⟨m, queue, hqueue, _, rfl⟩ := on_write_cases he
    · exact h.stalled hk hq rfl rfl rfl
    · exact h.stalled hk hq rfl rfl rfl
    · obtain ⟨queue', _, hs⟩ := h.writes_eq hk hq
      obtain ⟨rfl, rfl⟩ := List.cons.inj (hs.symm.trans hqueue)
      exact h.written hk hq hs
  case on_nonhttp_read_header k error body_length header_size hk =>
    have hf : Frame s (s.finish_read k |>.on_nonhttp_read_header shared error body_length) :=
      .trans .finish_read .on_nonhttp_read_header
    exact h.finish hk hf.queue hf.writes rfl rfl rfl reads_on_nonhttp_read_header
  case on_nonhttp_read_body k error bytes header_size body_size hk _ =>
    have hf : Frame s (s.finish_read k |>.on_nonhttp_read_body shared header_size body_size error bytes) :=
      .trans .finish_read .on_nonhttp_read_body
    exact h.finish hk hf.queue hf.writes rfl rfl rfl reads_on_nonhttp_read_body

theorem run {bs : List Action} (h : Pipelined shared as s) (hr : (system shared).Reachable s)
    (r : (system shared).Run s bs s') :
    Pipelined shared (as ++ bs) s' := by
  induction r generalizing as
  case refl          => simpa using h
  case step hs _ ih  =>
    have := ih (h.step (queued_of_reachable hr) (transition_of_next hs).right) (hr.step hs)
    simpa using this

end Pipelined

theorem answered_in_order {ssl : Bool} (h : (system shared).Run (start shared ssl) as s) : Pipelined shared as s := by
  simpa using Pipelined.start.run reachable_start h

-- Eight requests come at once, and the next one is read when the first has been answered.
theorem answered_in_order_run : ∃ s, (s.queue.length = 7 ∧ s.reads = [.request]) ∧
    Pipelined {} (List.replicate 8 getIndex ++ [Action.on_write 0 none]) s := by
  have ⟨s, hs, hq⟩ : ∃ s,
      (List.replicate 8 getIndex ++ [Action.on_write 0 none]).foldlM (next {}) (start {} false) = some s ∧
      s.queue.length = 7 ∧ s.reads = [.request] := by
    have h : ((List.replicate 8 getIndex ++ [Action.on_write 0 none]).foldlM (next {}) (start {} false)).any
        fun s : HttpSession => s.queue.length = 7 ∧ s.reads = [.request] := by decide +kernel
    obtain ⟨s, hs, hq⟩ := (Option.any_eq_true ..).mp h
    exact ⟨s, hs, of_decide_eq_true hq⟩
  exact ⟨s, hq, answered_in_order (System.ofNext_run hs)⟩

end BeastNetworking.HttpSession
