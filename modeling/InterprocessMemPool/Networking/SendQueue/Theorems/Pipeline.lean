import InterprocessMemPool.Networking.SendQueue.Basic

namespace BeastNetworking.SendQueue

variable {q q' : SendQueue} {m front : SpanAndHandler} {rest : List SpanAndHandler}
variable {may_send : SpanAndHandler → Bool} {max_queue_size bytes : SizeT} {ec : Option Error} {k : ℕ}

theorem on_error_eq : q.on_error ec = { q with errors := (q.on_error ec).errors } := by
  cases ec
  case none   => rfl
  case some e => cases e <;> rfl

section

variable {b : Bool}

@[simp]
theorem start_queue : (q.start b m).queue = q.queue := by
  cases b <;> rfl

@[simp]
theorem start_queue_size : (q.start b m).queue_size = q.queue_size := by
  cases b <;> rfl

@[simp]
theorem start_accepted : (q.start b m).accepted = q.accepted := by
  cases b <;> rfl

@[simp]
theorem start_reports : (q.start b m).reports = q.reports := by
  cases b <;> rfl

end

-- What the overflow loop makes of the messages behind the front.
structure Shed (rest kept dropped : List SpanAndHandler) : Prop where
  left   : kept.Sublist rest
  behind : dropped.Sublist (rest.drop 1)
  perm   : (kept ++ dropped).Perm rest
  second : kept.take 1 = rest.take 1
  filter : ∀ {p : SpanAndHandler → Bool}, (∀ m, p m → m.force_send) → kept.filter p = rest.filter p

theorem Shed.perm_queue {kept dropped : List SpanAndHandler} (h : Shed rest kept dropped) :
    (dropped ++ front :: (kept ++ [m])).Perm (front :: rest ++ [m]) := by
  rw [← List.cons_append, ← List.append_assoc]
  refine List.Perm.append_right _ <| List.perm_middle.trans ?_
  exact (List.perm_append_comm.trans h.perm).cons front

theorem on_send_nil (h : q.queue = []) : q.on_send may_send m max_queue_size =
    start (may_send m && m.hasContent) m
      { q with queue := [m], queue_size := 1 } := by
  simp [on_send, enqueue, shed, report, h, Shedding.shed]

theorem on_send_cons (may_send : SpanAndHandler → Bool) (m : SpanAndHandler) (max_queue_size : SizeT)
    (h : q.queue = front :: rest) : ∃ kept dropped, Shed rest kept dropped ∧
    q.on_send may_send m max_queue_size = { q with
      queue      := front :: (kept ++ [m])
      queue_size := kept.length + 2
      reports    := q.reports ++ dropped.map (⟨·, some .operation_aborted, 0⟩) } := by
  cases rest
  case nil =>
    refine ⟨[], [], ⟨.slnil, .slnil, .refl _, rfl, fun _ => rfl⟩, ?_⟩
    simp [on_send, enqueue, shed, report, h, Shedding.shed]
  case cons second rest =>
    let shed := Shedding.shed SpanAndHandler.force_send (max max_queue_size 2).toNat
      q.queue.length rest
    refine ⟨second :: shed.1, shed.2, ⟨?_, ?_, ?_, rfl, ?_⟩, ?_⟩
    · exact (Shedding.kept_sublist ..).cons_cons second
    · exact Shedding.dropped_sublist
    · exact Shedding.perm.cons second
    · intro p hp
      simp only [List.filter_cons, shed, Shedding.filter_kept fun h => hp _ h]
    · simp [on_send, enqueue, SendQueue.shed, report, h, shed]

theorem on_send_accepted : (q.on_send may_send m max_queue_size).accepted = q.accepted := by
  cases hq : q.queue
  case nil         => rw [on_send_nil hq, start_accepted]
  case cons f rest =>
    obtain ⟨_, _, _, he⟩ := on_send_cons may_send m max_queue_size hq
    rw [he]

-- What an operation leaves behind before the next one is started.
def finish (k : ℕ) (rest : List SpanAndHandler) (r : Report) (errors : List Error)
    (q : SendQueue) : SendQueue :=
  { q with
    queue      := rest
    queue_size := rest.length
    operations := q.operations.eraseIdx k
    reports    := q.reports ++ [r]
    errors }

theorem complete_single (may_send : SpanAndHandler → Bool) (k : ℕ) (ec : Option Error) (bytes : SizeT)
    (h : q.queue = [m]) :
    ∃ errors, q.complete may_send k ec bytes = .ok (q.finish k [] ⟨m, ec, bytes⟩ errors) := by
  rw [complete, on_write, h]
  simp only
  rw [on_error_eq]
  exact ⟨_, rfl⟩

theorem complete_cons (may_send : SpanAndHandler → Bool) (k : ℕ) (ec : Option Error) (bytes : SizeT)
    {next : SpanAndHandler} (h : q.queue = m :: next :: rest) :
    ∃ errors, q.complete may_send k ec bytes =
      .ok (q.finish k (next :: rest) ⟨m, ec, bytes⟩ errors |>.start
        (may_send next && next.hasContent) next) := by
  rw [complete, on_write, h]
  simp only
  rw [on_error_eq]
  exact ⟨_, rfl⟩

theorem complete_ok (h : q.complete may_send k ec bytes = .ok q') : ∃ m, q.queue = m :: q'.queue ∧
    q'.accepted = q.accepted ∧ q'.reports = q.reports ++ [⟨m, ec, bytes⟩] := by
  rcases hq : q.queue with _ | ⟨front, _ | ⟨next, rest⟩⟩
  · simp [complete, on_write, hq] at h
  · obtain ⟨_, he⟩ := complete_single may_send k ec bytes hq
    obtain rfl := Except.ok.inj (he.symm.trans h)
    exact ⟨front, rfl, rfl, rfl⟩
  · obtain ⟨_, he⟩ := complete_cons may_send k ec bytes hq
    obtain rfl := Except.ok.inj (he.symm.trans h)
    exact ⟨front, by simp [finish], by simp [finish], by simp [finish]⟩

-- What holds between the handlers of a session.
structure Sound (q : SendQueue) : Prop where
  size       : q.queue_size = q.queue.length
  operations : q.operations.length = if q.queue = [] then 0 else 1
  writes     : ∀ m, .write m ∈ q.operations → m ∈ q.queue.head? ∧ m.hasContent
  written    : (q.written ++ q.queue.tail).Sublist q.accepted
  reports    : (q.reports.map Report.message ++ q.queue).Perm q.accepted
  succeeded  : ((q.reports.filter (·.ec = none)).map Report.message ++ q.queue).Sublist q.accepted

namespace Sound

theorem empty : Sound {} where
  size       := rfl
  operations := rfl
  writes     := by simp
  written    := .slnil
  reports    := .refl _
  succeeded  := .slnil

theorem operations_nil (h : Sound q) (hq : q.queue = []) : q.operations = [] := by
  have := h.operations
  rwa [if_pos hq, List.length_eq_zero_iff] at this

-- Starting the operation for the front.
theorem start {b : Bool} (hs : q.queue_size = q.queue.length) (hq : q.queue = m :: rest)
    (ho : q.operations = []) (hb : b → m.hasContent)
    (hw : (q.written ++ q.queue).Sublist q.accepted)
    (hr : (q.reports.map Report.message ++ q.queue).Perm q.accepted)
    (hc : ((q.reports.filter (·.ec = none)).map Report.message ++ q.queue).Sublist q.accepted) :
    Sound (q.start b m) := by
  rw [hq] at hw
  cases b
  case false =>
    refine ⟨hs, by simp [SendQueue.start, hq, ho], by simp [SendQueue.start, ho], ?_, hr, hc⟩
    simp only [SendQueue.start, hq]
    exact (List.sublist_cons_self m rest).append_left _ |>.trans hw
  case true =>
    refine ⟨hs, by simp [SendQueue.start, hq, ho], ?_, ?_, hr, hc⟩
    · simp only [SendQueue.start, ho, hq]
      simpa using hb rfl
    · simpa [SendQueue.start, hq] using hw

theorem on_send (h : Sound q) : Sound ((q.accept m).on_send may_send m max_queue_size) := by
  cases hq : q.queue
  case nil =>
    have hw := h.written
    have hr := h.reports
    have hc := h.succeeded
    simp only [hq, List.tail_nil, List.append_nil] at hw hr hc
    rw [on_send_nil (q := q.accept m) hq]
    refine start rfl rfl (h.operations_nil hq) (by simp) ?_ (hr.append_right _) ?_
    · exact hw.append_right _
    · exact hc.append_right _
  case cons front rest =>
    obtain ⟨kept, dropped, hs, he⟩ := on_send_cons (q := q.accept m) may_send m max_queue_size hq
    rw [he]
    have hw := h.written
    have hr := h.reports
    have hc := h.succeeded
    simp only [hq] at hw hr hc
    constructor
    case size       => simp
    case operations => simpa [hq, accept] using h.operations
    case writes     => simpa [hq, accept] using h.writes
    case written    =>
      simp only [List.tail_cons, ← List.append_assoc] at hw ⊢
      exact (hs.left.append_left _ |>.trans hw).append_right _
    case reports    =>
      simp only [List.map_append, List.map_map, Function.comp_def, List.map_id', List.append_assoc]
      refine (hs.perm_queue.append_left _).trans ?_
      rw [← List.append_assoc]
      exact hr.append_right _
    case succeeded  =>
      have hd : (dropped.map fun m => (⟨m, some .operation_aborted, 0⟩ : Report)).filter
          (·.ec = none) = [] := by simp
      rw [List.filter_append, hd, List.append_nil, ← List.cons_append, ← List.append_assoc]
      exact ((hs.left.cons_cons front).append_left _ |>.trans hc).append_right _

-- All messages that are still in the queue are reported as aborted, and no operation is left.
theorem abort (h : Sound q) : Sound { q with
    queue      := []
    queue_size := if q.queue = [] then q.queue_size else 0
    reports    := q.reports ++ q.queue.map (⟨·, some .operation_aborted, 0⟩)
    operations := [] } where
  size       := by
    have := h.size
    by_cases hq : q.queue = [] <;> simp_all
  operations := rfl
  writes     := by simp
  written    := by
    have hw := (List.sublist_append_left q.written q.queue.tail).trans h.written
    simpa using hw
  reports    := by simpa [Function.comp_def] using h.reports
  succeeded  := by
    have hc := (List.sublist_append_left _ q.queue).trans h.succeeded
    simpa [List.filter_map, Function.comp_def] using hc

theorem exists_front (h : Sound q) {op : Operation} (hk : q.operations[k]? = some op) :
    (∃ front rest, q.queue = front :: rest) ∧ q.operations = [op] ∧ q.operations.eraseIdx k = [] := by
  have ho := h.operations
  have ⟨hlt, he⟩ := List.getElem?_eq_some_iff.mp hk
  cases hq : q.queue
  case nil =>
    rw [if_pos hq] at ho
    omega
  case cons front rest =>
    rw [hq, if_neg (by simp)] at ho
    have ⟨op', hop⟩ := List.length_eq_one_iff.mp ho
    obtain rfl : k = 0 := by omega
    simp only [hop, List.getElem_cons_zero] at he
    exact ⟨⟨front, rest, rfl⟩, he ▸ hop, by simp [hop]⟩

-- Every outstanding operation can complete.
theorem complete (h : Sound q) {op : Operation} (hk : q.operations[k]? = some op)
    (may_send : SpanAndHandler → Bool) (ec : Option Error) (bytes : SizeT) :
    ∃ q', q.complete may_send k ec bytes = .ok q' ∧ Sound q' := by
  obtain ⟨⟨front, rest, hq⟩, _, hk⟩ := h.exists_front hk
  have hw := h.written
  have hr := h.reports
  have hc := h.succeeded
  simp only [hq, List.tail_cons] at hw hr hc
  let r : Report := ⟨front, ec, bytes⟩
  have hr' : ((q.reports ++ [r]).map Report.message ++ rest).Perm q.accepted := by
    simpa using hr
  have hc' : (((q.reports ++ [r]).filter (·.ec = none)).map Report.message ++ rest).Sublist
      q.accepted := by
    cases ec
    case none   => simpa [r] using hc
    case some e =>
      simp only [List.filter_append, List.map_append, List.append_assoc]
      exact (List.sublist_cons_self front rest).append_left _ |>.trans hc
  cases rest
  case nil =>
    obtain ⟨errors, he⟩ := complete_single may_send k ec bytes hq
    refine ⟨_, he, rfl, by simp [finish, hk], by simp [finish, hk], ?_, hr', hc'⟩
    simpa [finish] using hw
  case cons next rest =>
    obtain ⟨errors, he⟩ := complete_cons may_send k ec bytes hq
    exact ⟨_, he, start rfl rfl hk (by simp) hw hr' hc'⟩

end Sound

def handlers (ms : List SpanAndHandler) : List ℕ :=
  ms.filterMap SpanAndHandler.completionHandler

-- The completion handlers that have been called so far.
def invoked (q : SendQueue) : List ℕ :=
  q.reports.filterMap (·.message.completionHandler)

-- Every completion handler that was accepted has been called once, or its message is in the queue.
theorem Sound.invoked_perm (h : Sound q) : (q.invoked ++ handlers q.queue).Perm (handlers q.accepted) := by
  have := h.reports.filterMap SpanAndHandler.completionHandler
  rwa [List.filterMap_append, List.filterMap_map] at this

end BeastNetworking.SendQueue
