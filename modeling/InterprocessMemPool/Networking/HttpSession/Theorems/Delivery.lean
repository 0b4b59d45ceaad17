import InterprocessMemPool.Networking.HttpSession.Theorems.Writers

namespace BeastNetworking

namespace SendQueue

variable {q q' : SendQueue} {m : SpanAndHandler} {may_send : SpanAndHandler → Bool} {k : ℕ}
variable {max_queue_size bytes : SizeT} {ec : Option Error}

-- The reports of success.
def successes (q : SendQueue) : List Report :=
  q.reports.filter (·.ec = none)

theorem on_send_successes : (q.on_send may_send m max_queue_size).successes = q.successes := by
  cases hq : q.queue
  case nil => rw [on_send_nil hq, successes, start_reports, successes]
  case cons front rest =>
    obtain ⟨_, dropped, _, he⟩ := on_send_cons may_send m max_queue_size hq
    have hd : (dropped.map fun m => (⟨m, some .operation_aborted, 0⟩ : Report)).filter
        (·.ec = none) = [] := by simp
    rw [he, successes, List.filter_append, hd, List.append_nil, successes]

theorem complete_successes {front : SpanAndHandler} {rest : List SpanAndHandler}
    (hq : q.queue = front :: rest) (hc : q.complete may_send k ec bytes = .ok q') :
    q'.successes = q.successes ++ if ec = none then [⟨front, ec, bytes⟩] else [] := by
  obtain ⟨m, hm, _, hr⟩ := complete_ok hc
  obtain rfl := (List.cons.inj (hq.symm.trans hm)).left
  rw [successes, hr, List.filter_append, successes]
  by_cases he : ec = none <;> simp [he]

end SendQueue

namespace HttpSession

variable {shared : Shared} {s s' : HttpSession} {a : Action} {memory : Address → UInt8}

def content (memory : Address → UInt8) (m : SpanAndHandler) : List UInt8 :=
  (List.range m.msgSize.toNat).map fun i => memory (m.msgPtr + .ofNat i)

theorem content_length {m : SpanAndHandler} : (content memory m).length = m.msgSize.toNat := by
  simp [content]

-- The bytes of messages that get to the other end. On an SSL connection these are the ones that have been
-- encrypted, as it finds nothing in the others.
def received (memory : Address → UInt8) (s : HttpSession) : List UInt8 :=
  (s.transfers.filter fun t => !s.ssl || t.layer = .stream).flatMap fun t =>
    (content memory t.message).take t.bytes_transferred.toNat

-- The messages whose handlers have been called without an error.
def succeeded (s : HttpSession) : List SpanAndHandler :=
  s.sending.successes.map Report.message

-- The other end gets the messages that succeed, in the order of `on_send`. It may get the beginning of
-- another one, if there is an error.
structure Delivered (memory : Address → UInt8) (s : HttpSession) : Prop where
  in_order : (succeeded s).Sublist s.sending.accepted
  received : ∃ rest, s.received memory = s.succeeded.flatMap (content memory) ++ rest ∧
    (rest = [] ∨ ∃ r ∈ s.sending.reports, r.ec ≠ none ∧ rest <+: content memory r.message)

theorem Delivered.succeeded_prefix (h : Delivered memory s) :
    s.succeeded.flatMap (content memory) <+: s.received memory := by
  obtain ⟨rest, hr, _⟩ := h.received
  exact ⟨rest, hr.symm⟩

-- There is never a response.
def Raw : Action → Prop
  | .on_read _ _ (.request _) => False
  | _                         => True

-- A message that succeeds is one of a session without SSL, and all of it has been transferred.
def Whole (s : HttpSession) : Action → Prop
  | .on_write2 k none bytes => ∀ m, s.sending.operations[k]? = some (.write m) →
    s.ssl = false ∧ bytes = m.msgSize
  | _                       => True

-- What has been transferred are the messages that have been reported to have succeeded.
structure Transferred (s : HttpSession) : Prop where
  successes : s.transfers = s.sending.successes.map fun r => ⟨.socket, r.message, r.bytes_transferred⟩
  positive  : ∀ t ∈ s.transfers, 0 < t.bytes_transferred ∧ t.bytes_transferred ≤ t.message.msgSize

theorem Frame.transferred (hf : Frame s s') (h : Transferred s) : Transferred s' := by
  obtain ⟨_, he⟩ := hf.sending
  refine ⟨?_, hf.transfers ▸ h.positive⟩
  rw [hf.transfers, he]
  exact h.successes

-- The operation of a message that succeeds is that of the front.
theorem transfers_of_complete (hq : Queued s) {k : ℕ} {bytes : SizeT} {op : Operation}
    {sending : SendQueue} {ec : Option Error} (hk : s.sending.operations[k]? = some op)
    (hc : completes ec bytes op) (hs : s.sending.complete s.may_send k ec bytes = .ok sending) :
    (∃ m, op = .write m ∧ ec = none ∧ 0 < bytes ∧ bytes ≤ m.msgSize ∧
      (s.transfer ec bytes op).transfers = s.transfers ++ [⟨.socket, m, bytes⟩] ∧
      sending.successes = s.sending.successes ++ [⟨m, none, bytes⟩]) ∨
    (ec ≠ none ∧ (s.transfer ec bytes op).transfers = s.transfers ∧
      sending.successes = s.sending.successes) := by
  obtain ⟨⟨front, rest, hf⟩, ho, _⟩ := hq.sound.exists_front hk
  have hcs := SendQueue.complete_successes hf hs
  cases op
  case post =>
    have hec : ec ≠ none := by
      rintro rfl
      simp [completes] at hc
    exact .inr ⟨hec, rfl, by simpa [hec] using hcs⟩
  case write m =>
    have hm := (hq.sound.writes m (by simp [ho])).left
    rw [hf, List.head?_cons, Option.mem_some_iff] at hm
    obtain rfl := hm
    cases ec
    case some => exact .inr ⟨by simp, rfl, by simpa using hcs⟩
    case none =>
      simp only [completes, if_true, decide_eq_true_eq] at hc
      exact .inl ⟨front, rfl, rfl, hc.left, hc.right, rfl, hcs⟩

theorem Transferred.step (h : Transferred s) (hq : Queued s) (e : Effect s a s') :
    Transferred s' := by
  cases e
  case on_send => exact ⟨by rw [on_send, SendQueue.on_send_successes]; exact h.successes, h.positive⟩
  case on_write2 hk hc hs =>
    obtain ⟨m, _, _, hp, hle, ht, hcs⟩ | ⟨_, ht, hcs⟩ := transfers_of_complete hq hk hc hs
    · constructor <;> simp only [ht, hcs]
      · simp [h.successes]
      · intro t hm
        obtain hm | rfl := by simpa using hm
        · exact h.positive t hm
        · exact ⟨hp, hle⟩
    · constructor <;> simp only [ht, hcs]
      · exact h.successes
      · exact h.positive
  case request hf                => exact hf.transferred ⟨h.successes, h.positive⟩
  case upgrade hf                => exact hf.transferred ⟨h.successes, h.positive⟩
  case on_write hf               => exact hf.transferred ⟨h.successes, h.positive⟩
  case on_write_failed hf        => exact hf.transferred ⟨h.successes, h.positive⟩
  case on_read_failed hf         => exact hf.transferred h
  case on_nonhttp_read_header hf => exact hf.transferred h
  case on_nonhttp_read_body hf   => exact hf.transferred h

theorem transferred_of_reachable (h : (system shared).Reachable s) : Transferred s := by
  refine System.Invariant.holds ⟨?_, ?_⟩ h
  · rintro _ ⟨ssl, rfl⟩
    exact frame_start.transferred ⟨rfl, by simp⟩
  · intro s a s' h hs ht
    exact hs.step (queued_of_reachable h) (transition_of_next ht).right.effect

def Complete (s : HttpSession) : Prop :=
  ∀ t ∈ s.transfers, s.ssl = false ∧ t.bytes_transferred = t.message.msgSize

theorem Frame.complete (hf : Frame s s') (h : Complete s) : Complete s' := by
  rw [Complete, hf.transfers, hf.ssl]
  exact h

namespace Complete

theorem received_eq (memory : Address → UInt8) (h : Complete s) (ht : Transferred s) :
    s.received memory = s.succeeded.flatMap (content memory) := by
  have hf : s.transfers.filter (fun t => !s.ssl || t.layer = .stream) = s.transfers :=
    List.filter_eq_self.mpr fun t hm => by simp [(h t hm).left]
  have hc : ∀ t ∈ s.transfers, (content memory t.message).take t.bytes_transferred.toNat =
      content memory t.message := by
    intro t hm
    rw [(h t hm).right]
    exact List.take_of_length_le content_length.le
  calc s.received memory
      = s.transfers.flatMap fun t => content memory t.message := by
        rw [received, hf, List.flatMap_congr hc]
    _ = s.succeeded.flatMap (content memory) := by
        rw [ht.successes, succeeded, List.flatMap_map, List.flatMap_map]

theorem delivered (h : Complete s) (ht : Transferred s) (hq : Queued s) : Delivered memory s where
  in_order := (List.sublist_append_left ..).trans hq.sound.succeeded
  received := ⟨[], by rw [h.received_eq memory ht, List.append_nil], .inl rfl⟩

theorem step (h : Complete s) (hq : Queued s) (e : Effect s a s') (ha : Whole s a) : Complete s' := by
  cases e
  case on_send => exact h
  case on_write2 k ec bytes op _ hk hc hs =>
    obtain ⟨m, rfl, rfl, _, _, ht, _⟩ | ⟨_, ht, _⟩ := transfers_of_complete hq hk hc hs <;>
      simp only [Complete, ht]
    · intro t hm
      obtain hm | rfl := by simpa using hm
      · exact h t hm
      · exact ha m hk
    · exact h
  case request hf                => exact hf.complete h
  case upgrade hf                => exact hf.complete h
  case on_write hf               => exact hf.complete h
  case on_write_failed hf        => exact hf.complete h
  case on_read_failed hf         => exact hf.complete h
  case on_nonhttp_read_header hf => exact hf.complete h
  case on_nonhttp_read_body hf   => exact hf.complete h

theorem whole_of_delivered (h : Complete s) (ht : Transferred s) (hq : Queued s) (e : Effect s a s')
    (hd : Delivered memory s') : Whole s a := by
  cases e
  case on_write2 k ec bytes op sending hk hc hs =>
    cases ec
    case some => trivial
    case none =>
      intro m hm
      obtain rfl := Option.some.inj (hk.symm.trans hm)
      obtain ⟨_, hop, _, hp, hle, htr, hcs⟩ | ⟨hn, _⟩ := transfers_of_complete hq hk hc hs
      case inr => exact absurd rfl hn
      obtain rfl := Operation.write.inj hop
      obtain ⟨rest, hr, _⟩ := hd.received
      -- What is new on either side: the bytes that get through, and the whole message.
      have hnew : (if s.ssl then [] else (content memory m).take bytes.toNat) =
          content memory m ++ rest := by
        have hs := h.received_eq memory ht
        simp only [received, succeeded, htr, hcs, List.filter_append, List.flatMap_append,
          List.map_append, List.append_assoc] at hr hs
        rw [hs] at hr
        have hr := List.append_cancel_left hr
        cases hssl : s.ssl <;> simpa [hssl] using hr
      have hlen := congrArg List.length hnew
      have hp := UInt64.lt_iff_toNat_lt.mp hp
      have hle := UInt64.le_iff_toNat_le.mp hle
      cases hssl : s.ssl <;> simp [hssl, content_length] at hlen hp
      · exact ⟨rfl, UInt64.toNat_inj.mp (by omega)⟩
      · omega
  all_goals trivial

end Complete

theorem complete_of_reachable
    (h : ((system shared).restrict fun s a => Raw a ∧ Whole s a).Reachable s) : Complete s := by
  refine System.Invariant.holds ⟨?_, ?_⟩ h
  · rintro _ ⟨ssl, rfl⟩
    exact frame_start.complete (by simp [Complete])
  · intro s a s' h hs ⟨⟨_, ha⟩, ht⟩
    exact hs.step (queued_of_reachable h.of_restrict) (transition_of_next ht).right.effect ha

theorem delivered_iff (shared : Shared) (memory : Address → UInt8) :
    (∀ {s}, ((system shared).restrict fun s a => Raw a ∧ Whole s a).Reachable s → Delivered memory s) ∧
    (∀ {s s' a}, ((system shared).restrict fun s a => Raw a ∧ Whole s a).Reachable s → Raw a →
      s.next shared a = some s' → (Delivered memory s' ↔ Whole s a)) := by
  have hd {s} (h : ((system shared).restrict fun s a => Raw a ∧ Whole s a).Reachable s) :
      Delivered memory s :=
    (complete_of_reachable h).delivered (transferred_of_reachable h.of_restrict)
      (queued_of_reachable h.of_restrict)
  refine ⟨hd, fun h hr hs => ⟨?_, fun ha => hd (h.step ⟨⟨hr, ha⟩, hs⟩)⟩⟩
  exact (complete_of_reachable h).whole_of_delivered (transferred_of_reachable h.of_restrict)
    (queued_of_reachable h.of_restrict) (transition_of_next hs).right.effect

-- A session that is writing its first message.
def sent (ssl : Bool) : HttpSession :=
  (start {} ssl).accept message |>.on_send message 8

theorem next_start {ssl : Bool} : (start {} ssl).next {} (.on_send message 8) = some (sent ssl) :=
  rfl

def lowByte (address : Address) : UInt8 :=
  address.toUInt8

theorem delivered_iff_run : ∃ s s' : HttpSession, s.next {} (.on_write2 0 none 5) = some s' ∧
    Delivered lowByte s ∧ Delivered lowByte s' ∧ s'.received lowByte = [0, 1, 2, 3, 4] := by
  obtain ⟨hd, hi⟩ := delivered_iff {} lowByte
  have h : ((system {}).restrict fun s a => Raw a ∧ Whole s a).Reachable (sent false) :=
    .step (.init ⟨false, rfl⟩) ⟨show Raw (.on_send message 8) ∧ True from ⟨trivial, trivial⟩, next_start⟩
  have hw : Whole (sent false) (.on_write2 0 none 5) := by
    intro m hm
    obtain rfl := Operation.write.inj (Option.some.inj hm)
    exact ⟨rfl, rfl⟩
  have hr : Raw (.on_write2 0 none 5) := trivial
  have hs : (sent false).next {} (.on_write2 0 none 5) = some _ := rfl
  exact ⟨sent false, _, hs, hd h, (hi h hr hs).mpr hw, rfl⟩

-- The first message of a plain session is cut short, and that of an SSL session is not encrypted.
theorem not_delivered :
    (∃ s, (system {}).Reachable s ∧ s.ssl = false ∧ ¬Delivered lowByte s) ∧
    (∃ s, (system {}).Reachable s ∧ s.ssl = true ∧ ¬Delivered lowByte s) := by
  have hr {ssl} : (system {}).Reachable (sent ssl) := reachable_start.step next_start
  constructor
  · refine ⟨_, hr.step (show next {} (sent false) (.on_write2 0 none 3) = some _ from rfl), rfl, ?_⟩
    exact fun h => absurd h.succeeded_prefix (by decide)
  · refine ⟨_, hr.step (show next {} (sent true) (.on_write2 0 none 5) = some _ from rfl), rfl, ?_⟩
    exact fun h => absurd h.succeeded_prefix (by decide)

end HttpSession
end BeastNetworking
