import InterprocessMemPool.Networking.Lifecycle.Theorems.Life

namespace BeastNetworking

namespace Event

def callback? : Event → Option Callback
  | .callback c   => some c
  | .join | .leave => none

end Event

-- The destructor has begun.
def Phase.ended : Phase → Bool
  | .destroying | .leaving | .destroyed => true
  | _                                   => false

namespace Object

variable {k : Kind} {o o' : Object} {t : List Event} {a : Action} {e : Option Event}

-- Only its destruction gets a session to its end.
theorem ended_of_next (hn : o.next k a = some (o', e)) (he : o'.phase.ended) :
    o.phase.ended ∨ a = .destroy := by
  cases a
  all_goals simp only [next, Option.ite_none_right_eq_some, Option.some.injEq] at hn
  case construct =>
    obtain ⟨_, hn⟩ := hn
    cases k <;> cases hn <;> cases he
  case on_handshake ec =>
    obtain ⟨_, hn⟩ := hn
    simp only [on_handshake] at hn
    split_ifs at hn <;> cases hn
    all_goals simp_all [Phase.ended]
  case callback =>
    split at hn
    case h_1   => cases hn; cases he
    case h_2 h => exact .inl (h ▸ rfl)
    case h_3   => cases hn
  case on_send  => obtain ⟨_, hn⟩ := hn; cases hn; exact .inl he
  case on_write => obtain ⟨_, hn⟩ := hn; cases hn; exact .inl he
  case destroy  => exact .inr rfl
  case destruct => exact .inl (hn.left ▸ rfl)

namespace Life

theorem ordered (h : Life k o t) (hj : k = .https → o.phase = .destroyed → .join ∈ t) :
    t.filterMap Event.callback? <+: [k.opening, k.closing] := by
  cases h
  case departed hk => simpa using hj hk rfl
  all_goals simp [List.filterMap, Event.callback?, List.cons_prefix_cons]

theorem complete (h : Life k o t) (hj : k = .https → o.phase = .destroyed → .join ∈ t)
    (hp : o.phase = .destroyed) : t.filterMap Event.callback? = [] ∨
      t.filterMap Event.callback? = [k.opening, k.closing] := by
  cases h
  case departed hk => simpa using hj hk rfl
  case destroyed   => exact .inr rfl
  case aborted     => exact .inl rfl
  all_goals cases hp

-- A session that has never joined is closed all the same.
theorem not_ordered (h : Life k o t) (hk : k = .https) (hp : o.phase = .destroyed) (hj : .join ∉ t) :
    ¬t.filterMap Event.callback? <+: [k.opening, k.closing] := by
  cases h
  case departed  =>
    simp [Event.callback?, Kind.opening, Kind.closing, hk, Kind.isWebsocket, List.filterMap, List.cons_prefix_cons]
  case destroyed => simp at hj
  case aborted h => simp [hk, Kind.isWebsocket] at h
  all_goals cases hp

theorem join_mem (h : Life k o t) (hp : o.phase = .running) : .join ∈ t := by
  cases h
  case running => simp
  all_goals cases hp

end Life
end Object

namespace Registry

variable {kind : Session → Kind} {s s' : Registry} {w : Session}

-- The callbacks that have been called for a session.
def callbacks (s : Registry) (w : Session) : List Callback :=
  (s.trail w).filterMap Event.callback?

structure Balanced (kind : Session → Kind) (s : Registry) : Prop where
  ordered  : ∀ w, s.callbacks w <+: [(kind w).opening, (kind w).closing]
  complete : ∀ w, (s.objects w).phase = .destroyed →
    s.callbacks w = [] ∨ s.callbacks w = [(kind w).opening, (kind w).closing]
  registry : ∀ w k, w ∈ s.sessions k ↔ kind w = k ∧ Joined (s.trail w)
  nodup    : ∀ k, (s.sessions k).Nodup

-- An HTTP session over TLS is only destroyed once its handshake has succeeded.
def Accepted (kind : Session → Kind) (s : Registry) (a : Action) : Prop :=
  ∀ w, a = .session w .destroy → kind w = .https → (s.objects w).phase = .running

theorem Regular.balanced (h : Regular kind s)
    (hj : ∀ w, kind w = .https → (s.objects w).phase = .destroyed → .join ∈ s.trail w) :
    Balanced kind s where
  ordered w  := (h.life w).ordered (hj w)
  complete w := (h.life w).complete (hj w)
  registry   := h.mem
  nodup      := h.nodup

theorem Regular.balanced_iff (h : Regular kind s) : Balanced kind s ↔
    ∀ w, kind w = .https → (s.objects w).phase = .destroyed → .join ∈ s.trail w := by
  refine ⟨fun hb w hk hp => ?_, h.balanced⟩
  by_contra hj
  exact (h.life w).not_ordered hk hp hj (hb.ordered w)

theorem joined_of_ended (h : ((system kind).restrict (Accepted kind)).Reachable s)
    (hk : kind w = .https) (he : (s.objects w).phase.ended) : .join ∈ s.trail w := by
  induction h
  case init h =>
    obtain rfl : _ = new := h
    cases he
  case step s a s' hr hs ih =>
    refine (trail_of_next hs.right).subset ?_
    obtain ho | ⟨a', e, rfl, ho⟩ := object_of_next (w := w) hs.right
    · exact ih (ho ▸ he)
    · obtain he | rfl := Object.ended_of_next ho he
      · exact ih he
      · exact ((Regular.reachable hr.of_restrict).life w).join_mem (hs.left w rfl hk)

-- The callbacks of all sessions are balanced as long as no TLS session is destroyed without a handshake, and
-- in no state in which one has been.
theorem callbacks_balanced (kind : Session → Kind) :
    (∀ {s}, ((system kind).restrict (Accepted kind)).Reachable s → Balanced kind s) ∧
    (∀ {s}, (system kind).Reachable s → (Balanced kind s ↔
      ∀ w, kind w = .https → (s.objects w).phase = .destroyed → .join ∈ s.trail w)) := by
  refine ⟨fun h => ?_, fun h => (Regular.reachable h).balanced_iff⟩
  refine (Regular.reachable h.of_restrict).balanced fun w hk hp => joined_of_ended h hk ?_
  exact hp ▸ rfl

instance (kind : Session → Kind) (s : Registry) (a : Action) : Decidable (Accepted kind s a) :=
  match a with
  | .session w .destroy => decidable_of_iff (kind w = .https → (s.objects w).phase = .running)
      ⟨fun h _ he => by cases he; exact h, fun h => h w rfl⟩
  | .session _ .construct | .session _ (.on_handshake _) | .session _ .callback
  | .session _ .on_send | .session _ .on_write | .session _ .destruct | .reference _ =>
    .isTrue nofun

-- A TLS session whose handshake succeeds, and the websocket session that it is upgraded to.
theorem callbacks_balanced_run :
    ∃ s, Balanced (fun w => if w = 0 then .https else .wss) s ∧
      s.callbacks 0 = [.callbackAccept, .callbackClose] ∧
      s.callbacks 1 = [.callbackUpgrade, .callbackDowngrade] := by
  obtain ⟨hb, _⟩ := callbacks_balanced fun w => if w = 0 then .https else .wss
  obtain ⟨s, hr, hc⟩ : ∃ s, ((system fun w => if w = 0 then .https else .wss).restrict
      (Accepted fun w => if w = 0 then .https else .wss)).Reachable s ∧
      (s.callbacks 0 = [.callbackAccept, .callbackClose] ∧
        s.callbacks 1 = [.callbackUpgrade, .callbackDowngrade]) :=
    System.exec_reachable rfl <| show Option.any _ (System.exec _ _ _ [
      .session 0 .construct, .session 0 (.on_handshake none), .session 0 .callback,
      .session 1 .construct, .session 1 (.on_handshake none), .session 0 .destroy,
      .session 1 .callback, .session 0 .destruct, .session 1 .on_send, .session 0 .callback,
      .session 1 .destroy, .session 1 .destruct, .session 1 .destruct, .session 1 .callback]) by
      decide +kernel
  exact ⟨s, hb hr, hc⟩

-- A TLS session whose handshake fails.
theorem not_callbacks_balanced :
    ∃ s, (system fun _ => .https).Reachable s ∧ ¬Balanced (fun _ => .https) s := by
  have ⟨s, hr, hc⟩ : ∃ s, ((system fun _ => .https).restrict fun _ _ => True).Reachable s ∧
      s.callbacks 0 = [.callbackClose] :=
    System.exec_reachable rfl <| show Option.any _ (System.exec _ _ _ [
      .session 0 .construct, .session 0 (.on_handshake (some (.other 1))), .session 0 .destroy,
      .session 0 .destruct, .session 0 .callback]) by decide +kernel
  refine ⟨s, hr.of_restrict, fun hb => ?_⟩
  have ho := hb.ordered 0
  rw [hc] at ho
  exact absurd ho (by decide)

end Registry
end BeastNetworking
