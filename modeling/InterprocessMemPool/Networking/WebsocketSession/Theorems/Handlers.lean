import InterprocessMemPool.Networking.WebsocketSession.Theorems.Pipeline

namespace BeastNetworking

namespace SendQueue

variable {q : SendQueue} {may_send : SpanAndHandler → Bool} {m : SpanAndHandler} {max_queue_size : SizeT}

theorem Shed.take_append {rest kept dropped : List SpanAndHandler} (h : Shed rest kept dropped) :
    (kept ++ [m]).take 1 = (rest ++ [m]).take 1 := by
  have := h.second
  cases rest <;> cases kept <;> simp_all

-- The overflow loop leaves the first two messages alone, and reports those that it drops.
theorem exists_dropped (q : SendQueue) (may_send : SpanAndHandler → Bool) (m : SpanAndHandler)
    (max_queue_size : SizeT) : ∃ dropped, dropped.Sublist (q.queue.drop 2) ∧
      (q.on_send may_send m max_queue_size).reports =
        q.reports ++ dropped.map (⟨·, some .operation_aborted, 0⟩) ∧
      (q.on_send may_send m max_queue_size).queue.take 2 = (q.queue ++ [m]).take 2 ∧
      (dropped ++ (q.on_send may_send m max_queue_size).queue).Perm (q.queue ++ [m]) := by
  cases hq : q.queue
  case nil =>
    refine ⟨[], .slnil, ?_, ?_, ?_⟩ <;> simp [on_send_nil hq]
  case cons front rest =>
    obtain ⟨kept, dropped, hs, he⟩ := on_send_cons may_send m max_queue_size hq
    refine ⟨dropped, hs.behind, by rw [he], ?_, ?_⟩
    · simpa [he] using hs.take_append
    · rw [he]
      exact hs.perm_queue

end SendQueue

namespace WebsocketSession

open SendQueue

variable {s s' : WebsocketSession}

theorem queue_eq_nil (h : system.Reachable s) (hd : s.destroyed) : s.sending.queue = [] := by
  refine System.Invariant.holds (I := fun s => s.destroyed → s.sending.queue = []) ⟨?_, ?_⟩ h hd
  · rintro _ rfl hd
    simp at hd
  · intro s a s' _ _ h hd
    obtain ⟨hd', h⟩ := next_cases h
    obtain ⟨_, _, _, _, rfl⟩ | ⟨_, _, _, _, _, _, _, _, _, _, rfl⟩ | ⟨rfl, rfl⟩ := h
    · simp [on_send, accept, hd'] at hd
    · simp [hd'] at hd
    · rw [destroy, foldl_dequeue]

theorem invoked_perm {as : List Action} (r : system.Run {} as s) :
    (s.sending.invoked ++ handlers s.sending.queue).Perm (handlers (messages as)) :=
  accepted_eq_messages r ▸ (sound <| reachable_of_run r).invoked_perm

-- A session can always be destroyed, and then it calls the handlers that it has not called yet.
theorem invoked_destroy {as : List Action} (r : system.Run {} as s) (hd : s.destroyed = false) :
    ∃ s', s.next .destroy = some s' ∧ s'.destroyed ∧ s'.sending.invoked.Perm (handlers (messages as)) := by
  have hn : s.next .destroy = some s.destroy := by simp [next, hd]
  refine ⟨s.destroy, hn, rfl, ?_⟩
  have r' := r.trans <| .single (S := system) hn
  have hm : messages (as ++ [.destroy]) = messages as := by simp [messages, Action.message]
  have hp := invoked_perm r'
  rw [queue_eq_nil (reachable_of_run r') rfl, hm] at hp
  simpa [handlers] using hp

-- Every completion handler is called once, at the latest when the session is destroyed. The overflow
-- loop does not call that of the front, nor that of the message behind it.
theorem handlers_invoked_once :
    (∀ {as s}, system.Run {} as s →
      (s.sending.invoked ++ handlers s.sending.queue).Perm (handlers (messages as)) ∧
      (s.destroyed → s.sending.invoked.Perm (handlers (messages as))) ∧
      (s.destroyed = false → ∃ s', s.next .destroy = some s' ∧ s'.destroyed ∧
        s'.sending.invoked.Perm (handlers (messages as)))) ∧
    (∀ (s : WebsocketSession) m max_queue_size should_send, ∃ dropped,
      let s' := s.on_send should_send m max_queue_size
      dropped.Sublist (s.sending.queue.drop 2) ∧
      s'.sending.invoked = s.sending.invoked ++ handlers dropped ∧
      s'.sending.queue.take 2 = (s.sending.queue ++ [m]).take 2 ∧
      (dropped ++ s'.sending.queue).Perm (s.sending.queue ++ [m])) := by
  constructor
  · refine fun r => ⟨invoked_perm r, fun hd => ?_, invoked_destroy r⟩
    simpa [handlers, queue_eq_nil (reachable_of_run r) hd] using invoked_perm r
  · intro s m max_queue_size should_send
    obtain ⟨dropped, hd, hr, ht, hp⟩ :=
      s.sending.exists_dropped (may_send should_send) m max_queue_size
    refine ⟨dropped, hd, ?_, ht, hp⟩
    simp [invoked, on_send, hr, handlers, List.filterMap_map]

-- The session is destroyed when the first of two messages has been written.
theorem handlers_invoked_once_run : ∃ s s' as, system.Run {} as s ∧ messages as = [urgent 7, urgent 8] ∧
    s.sending.invoked = [7] ∧ s.next .destroy = some s' ∧ s'.sending.invoked.Perm [7, 8] ∧
    ∃ dropped, dropped.Sublist [] ∧ (dropped ++ (backlogged.on_send false (urgent 9) 2).sending.queue).Perm
      [urgent 7, urgent 8, urgent 9] := by
  obtain ⟨hs, hd⟩ := handlers_invoked_once
  have hr := run_backlog.trans <| System.ofNext_run
    (show [Action.on_write 0 none 5 false].foldlM next backlogged = _ from rfl)
  obtain ⟨s', hn, _, hp⟩ := (hs hr).right.right rfl
  obtain ⟨dropped, hsub, _, _, hperm⟩ := hd backlogged (urgent 9) 2 false
  exact ⟨_, s', _, hr, rfl, rfl, hn, hp, dropped, hsub, hperm⟩

end WebsocketSession
end BeastNetworking
