import InterprocessMemPool.Networking.HttpSession.Basic
import InterprocessMemPool.Networking.WebsocketSession.Basic

namespace BeastNetworking

namespace SendQueue

variable {q : SendQueue} {may_send : SpanAndHandler → Bool} {m : SpanAndHandler} {max_queue_size : SizeT}
variable {queue queue' : List SpanAndHandler}

-- What overflow dropping is to do to a queue. The first message is in flight and stays. Of those that wait,
-- the older ones are dropped unless they are forced, which makes enough room if there are others.
def Sheds (max_queue_size : SizeT) (m : SpanAndHandler) (queue queue' : List SpanAndHandler) : Prop :=
  ∃ older newer, queue.tail = older ++ newer ∧
    queue' = queue.take 1 ++ (older.filter (·.force_send) ++ newer) ++ [m] ∧
    (queue'.length ≤ max max_queue_size.toNat 2 ∨ ∀ w ∈ older.filter (·.force_send) ++ newer, w.force_send)

-- There is no need to drop the message behind the one in flight.
def SecondSpared (max_queue_size : SizeT) (queue : List SpanAndHandler) : Prop :=
  queue.length < max max_queue_size.toNat 2 ∨ ∀ second ∈ queue[1]?, second.force_send

theorem toNat_max_two : (max max_queue_size 2).toNat = max max_queue_size.toNat 2 := by
  have hmax : max max_queue_size 2 = if max_queue_size ≤ 2 then 2 else max_queue_size := rfl
  rw [hmax]
  split
  case isTrue h  => exact (max_eq_right (UInt64.le_iff_toNat_le.mp h)).symm
  case isFalse h => exact (max_eq_left (Nat.le_of_not_le (mt UInt64.le_iff_toNat_le.mpr h))).symm

theorem on_send_queue : (q.on_send may_send m max_queue_size).queue =
    q.queue.take 2 ++ (q.shed max_queue_size).1 ++ [m] := by
  simp only [on_send]
  split
  case isTrue => rfl
  case isFalse =>
    rw [SendQueue.start]
    split <;> rfl

-- The queue after the loop, if there is a message behind the one in flight.
theorem on_send_queue_cons {front second : SpanAndHandler} {rest : List SpanAndHandler}
    (h : q.queue = front :: second :: rest) : (q.on_send may_send m max_queue_size).queue =
      front :: second :: ((Shedding.shed SpanAndHandler.force_send (max max_queue_size.toNat 2)
        (rest.length + 2) rest).1 ++ [m]) := by
  rw [on_send_queue, shed, h, toNat_max_two]
  rfl

theorem sheds_of_spared (h : SecondSpared max_queue_size q.queue) :
    Sheds max_queue_size m q.queue (q.on_send may_send m max_queue_size).queue := by
  rcases hq : q.queue with _ | ⟨front, _ | ⟨second, rest⟩⟩
  · exact ⟨[], [], rfl, by simp [on_send_queue, shed, hq, Shedding.shed], by simp⟩
  · exact ⟨[], [], rfl, by simp [on_send_queue, shed, hq, Shedding.shed], by simp⟩
  · rw [on_send_queue_cons hq]
    rw [hq, SecondSpared] at h
    obtain ⟨older, newer, hrest, hkept, hn⟩ :=
      Shedding.exists_cut SpanAndHandler.force_send (max max_queue_size.toNat 2) (rest.length + 2) rest
    obtain hlt | hforced := h
    · rw [Shedding.shed_of_lt (by simpa using hlt)]
      refine ⟨[], second :: rest, rfl, rfl, .inl ?_⟩
      simp only [List.length_cons, List.length_append, List.length_nil] at hlt ⊢
      omega
    · replace hforced : second.force_send := hforced second rfl
      refine ⟨second :: older, newer, by simp [hrest], ?_, ?_⟩
      · simp [hkept, hforced]
      · rw [List.filter_cons_of_pos hforced]
        have hle := (Shedding.kept_sublist SpanAndHandler.force_send (max max_queue_size.toNat 2)
          (rest.length + 2) rest).length_le
        obtain hn | rfl := hn
        · refine .inl ?_
          simp only [List.length_cons, List.length_append, List.length_nil]
          omega
        · refine .inr fun w hw => ?_
          obtain rfl | ⟨_, hw⟩ : w = second ∨ w ∈ older ∧ w.force_send := by simpa using hw
          · exact hforced
          · exact hw

theorem spared_of_sheds (hn : q.queue.Nodup)
    (h : Sheds max_queue_size m q.queue (q.on_send may_send m max_queue_size).queue) :
    SecondSpared max_queue_size q.queue := by
  by_contra hs
  rcases hq : q.queue with _ | ⟨front, _ | ⟨second, rest⟩⟩
  · simp [SecondSpared, hq] at hs
  · simp [SecondSpared, hq] at hs
  · rw [hq] at h hs hn
    rw [on_send_queue_cons hq] at h
    obtain ⟨older, newer, htail, hqueue, hlen⟩ := h
    simp only [SecondSpared, not_or, not_forall, List.getElem?_cons_succ, List.getElem?_cons_zero,
      Option.mem_def, Option.some.injEq, exists_prop, exists_eq_left'] at hs
    obtain ⟨hfull, hsecond⟩ := hs
    rw [List.tail_cons] at htail
    have hmem : second ∉ rest := (List.nodup_cons.mp (List.nodup_cons.mp hn).right).left
    -- The second message has not been dropped, so nothing has.
    obtain rfl | ⟨older, rfl⟩ : older = [] ∨ ∃ older', older = second :: older' := by
      cases older
      case nil       => exact .inl rfl
      case cons w ws => exact .inr ⟨ws, by rw [(List.cons.inj htail).left]⟩
    case inl =>
      obtain rfl := htail
      obtain hlen | hforced := hlen
      · have := congrArg List.length hqueue
        simp only [List.length_cons, List.length_append, List.length_nil, List.filter_nil,
          List.nil_append, List.take_succ_cons, List.take_zero] at this hlen hfull
        omega
      · exact hsecond (hforced second (by simp))
    case inr =>
      rw [List.filter_cons_of_neg hsecond] at hqueue
      obtain rfl := (List.cons.inj htail).right
      cases hf : older.filter (·.force_send) ++ newer
      case nil =>
        rw [hf] at hqueue
        simpa using congrArg List.length hqueue
      case cons w ws =>
        simp only [hf, List.take_succ_cons, List.take_zero, List.nil_append, List.cons_append,
          List.cons.injEq, true_and] at hqueue
        have hw : w ∈ older.filter (·.force_send) ++ newer := hf ▸ List.mem_cons_self
        refine hmem (hqueue.left ▸ ?_)
        exact (List.Sublist.append List.filter_sublist (.refl _)).subset hw

-- What `on_send` does to the queue of a session is what it is to do, if and only if the second message is
-- not to be dropped. Messages of which nothing tells two apart are dropped in any order.
structure Overflows (m : SpanAndHandler) (max_queue_size : SizeT) (q q' : SendQueue) : Prop where
  sheds : SecondSpared max_queue_size q.queue → Sheds max_queue_size m q.queue q'.queue
  only  : q.queue.Nodup → Sheds max_queue_size m q.queue q'.queue → SecondSpared max_queue_size q.queue

theorem overflows : Overflows m max_queue_size q (q.on_send may_send m max_queue_size) :=
  ⟨sheds_of_spared, spared_of_sheds⟩

end SendQueue

open SendQueue

theorem overflow_sheds_iff (m : SpanAndHandler) (max_queue_size : SizeT) :
    (∀ (s : WebsocketSession) (should_send : Bool),
      Overflows m max_queue_size s.sending (s.on_send should_send m max_queue_size).sending) ∧
    (∀ s : HttpSession, Overflows m max_queue_size s.sending (s.on_send m max_queue_size).sending) :=
  ⟨fun _ _ => overflows, fun _ => overflows⟩

-- Nobody waits for the result of the message with the given address.
def plain (msgPtr : Address) : SpanAndHandler :=
  ⟨msgPtr, 1, none, false⟩

-- The message behind the one in flight is forced, so the third one makes room for the fourth.
theorem overflow_sheds_run :
    let s : WebsocketSession := { sending := { queue := [plain 1, { plain 2 with force_send := true }, plain 3] } }
    Sheds 3 (plain 4) s.sending.queue (s.on_send true (plain 4) 3).sending.queue ∧
      (s.on_send true (plain 4) 3).sending.queue.map (·.msgPtr) = [1, 2, 4] := by
  intro s
  refine ⟨((overflow_sheds_iff (plain 4) 3).left s true).sheds (.inr ?_), by decide⟩
  simp [s]

-- A third message is sent with a limit of two. The second one stays, and the queue gets too long.
theorem not_sheds : ¬∀ (s : WebsocketSession) (should_send : Bool) (m : SpanAndHandler) (max_queue_size : SizeT),
    Sheds max_queue_size m s.sending.queue (s.on_send should_send m max_queue_size).sending.queue := by
  intro h
  have ho := (overflows : Overflows (plain 3) 2 { queue := [plain 1, plain 2] }
    (on_send (WebsocketSession.may_send true) (plain 3) 2 { queue := [plain 1, plain 2] }))
  have hs := ho.only (by decide) (h { sending := { queue := [plain 1, plain 2] } } true (plain 3) 2)
  simp [SecondSpared, plain] at hs

end BeastNetworking
