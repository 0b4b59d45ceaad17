import InterprocessMemPool.Networking.Lifecycle.Theorems.Life

namespace BeastNetworking

namespace Object

variable {k : Kind} {o o' : Object} {t : List Event} {a : Action} {e : Option Event}

-- The destructor of an upgraded session is under way: its last base has been destroyed.
def Torn (o : Object) : Prop :=
  o.phase = .destroying ∧ o.upgraded = true

instance : DecidablePred Torn :=
  fun _ => inferInstanceAs (Decidable (_ ∧ _))

theorem torn_of_next (hn : o.next k a = some (o', e)) (ht : o'.Torn) :
    o.Torn ∨ a = .destroy ∧ o.upgraded = true := by
  obtain ⟨hp, hu⟩ := ht
  cases a
  all_goals simp only [next, Option.ite_none_right_eq_some, Option.some.injEq] at hn
  case construct =>
    obtain ⟨_, hn⟩ := hn
    cases k <;> cases hn <;> cases hp
  case on_handshake ec =>
    obtain ⟨_, hn⟩ := hn
    simp only [on_handshake] at hn
    split_ifs at hn <;> cases hn
    all_goals simp_all [Torn]
  case callback =>
    split at hn
    case h_1 => cases hn; cases hp
    case h_2 => cases hn; cases hp
    case h_3 => cases hn
  case on_send  => obtain ⟨_, hn⟩ := hn; cases hn; exact .inl ⟨hp, hu⟩
  case on_write => obtain ⟨_, hn⟩ := hn; cases hn; exact .inl ⟨hp, hu⟩
  case destroy  => obtain ⟨_, hn⟩ := hn; cases hn; exact .inr ⟨rfl, hu⟩
  case destruct =>
    obtain ⟨hd, hn⟩ := hn
    simp only [destruct] at hn
    split_ifs at hn <;> cases hn
    · exact .inl ⟨hd, hu⟩
    all_goals cases hp

theorem torn_of_destroy (hn : o.next k .destroy = some (o', e)) (hu : o.upgraded = true) : o'.Torn := by
  simp only [next, Option.ite_none_right_eq_some, Option.some.injEq] at hn
  cases hn.right
  exact ⟨rfl, hu⟩

-- A session that is in a set can be referenced, unless it is a websocket session in its destructor.
theorem Life.weak_this_iff (h : o.Life k t) (hj : Registry.Joined t) : o.weak_this = true ↔ ¬o.Torn := by
  cases h
  case registering => simp [Torn]
  case running     => simp [Torn]
  case destroying  => simp [Torn]
  all_goals simp [Registry.Joined] at hj

theorem Life.joined_of_torn (h : o.Life k t) (ht : o.Torn) : k.isWebsocket ∧ Registry.Joined t := by
  obtain ⟨hp, hu⟩ := ht
  cases h
  case destroying => exact ⟨hu, by simp [Registry.Joined]⟩
  case aborting   => cases hu
  all_goals cases hp

end Object

namespace Registry

variable {kind : Session → Kind} {s s' : Registry} {w : Session} {k : Kind} {a : Action}

-- `weak_from_this` can be called on every pointer in the sets of websocket sessions.
def Referable (s : Registry) : Prop :=
  ∀ w, w ∈ s.sessions .ws ∨ w ∈ s.sessions .wss → (s.objects w).weak_this = true

-- No session is destroyed that has been upgraded.
def Unshared (s : Registry) (a : Action) : Prop :=
  ∀ w, a = .session w .destroy → (s.objects w).upgraded = false

theorem Regular.weak_this_of_mem (h : Regular kind s) (hm : w ∈ s.sessions k) :
    (s.objects w).weak_this = true ↔ ¬(s.objects w).Torn :=
  (h.life w).weak_this_iff ((h.mem w k).mp hm).right

theorem Regular.referable_iff_not_torn (h : Regular kind s) : Referable s ↔ ∀ w, ¬(s.objects w).Torn := by
  constructor
  · intro hr w ht
    obtain ⟨hk, hj⟩ := (h.life w).joined_of_torn ht
    have hm : w ∈ s.sessions (kind w) := (h.mem w _).mpr ⟨rfl, hj⟩
    refine (h.weak_this_of_mem hm).mp (hr w ?_) ht
    cases hw : kind w
    case ws  => exact .inl (hw ▸ hm)
    case wss => exact .inr (hw ▸ hm)
    all_goals simp [hw, Kind.isWebsocket] at hk
  · rintro ht w (hm | hm)
    · exact (h.weak_this_of_mem hm).mpr (ht w)
    · exact (h.weak_this_of_mem hm).mpr (ht w)

-- A step keeps this just if it does not destroy a session that has been upgraded.
theorem Regular.referable_step (h : Regular kind s) (hr : Referable s) (hn : next kind s a = some s') :
    Referable s' ↔ Unshared s a := by
  rw [(h.step hn).referable_iff_not_torn]
  rw [h.referable_iff_not_torn] at hr
  constructor
  · rintro ht w rfl
    obtain ⟨p, ho, rfl⟩ := Option.map_eq_some_iff.mp hn
    by_contra hu
    have hu : (s.objects w).upgraded = true := by simpa using hu
    have ht := ht w
    rw [objects_act, Function.update_self] at ht
    exact ht (Object.torn_of_destroy ho hu)
  · intro hu w ht
    obtain ho | ⟨a', e, rfl, ho⟩ := object_of_next (w := w) hn
    · exact hr w (ho ▸ ht)
    · obtain ht | ⟨rfl, hup⟩ := Object.torn_of_next ho ht
      · exact hr w ht
      · exact Bool.false_ne_true ((hu w rfl).symm.trans hup)

theorem referable_of_reachable (h : ((system kind).restrict Unshared).Reachable s) : Referable s := by
  induction h
  case init h      => simp [show _ = new from h, Referable, new]
  case step hr hs ih => exact ((Regular.reachable hr.of_restrict).referable_step ih hs.right).mpr hs.left

theorem faulted_act {p : Object × Option Event} : (s.act kind w p).faulted = s.faulted := by
  rw [act]
  cases p.2 <;> rfl

theorem not_faulted (h : ((system kind).restrict Unshared).Reachable s) : s.faulted = false := by
  induction h
  case init h => exact h ▸ rfl
  case step s a s' hr hs ih =>
    have hreg := Regular.reachable hr.of_restrict
    have ht := hreg.referable_iff_not_torn.mp (referable_of_reachable hr)
    cases a
    case session w a =>
      obtain ⟨p, _, rfl⟩ := Option.map_eq_some_iff.mp hs.right
      exact faulted_act.trans ih
    case reference selects =>
      cases hs.right
      simp only [reference, ih, Bool.false_or, List.any_eq_false, Bool.and_eq_true, List.any_eq_true]
      rintro k _ ⟨_, w, hw, hf⟩
      simp [(hreg.weak_this_of_mem hw).mpr (ht w)] at hf

-- The sets have no session whose last base has been destroyed as long as no upgraded session is destroyed,
-- and the destruction of one breaks this at once.
theorem referable_iff (kind : Session → Kind) :
    (∀ {s}, ((system kind).restrict Unshared).Reachable s → Referable s ∧ s.faulted = false) ∧
    (∀ {s s' a}, (system kind).Reachable s → Referable s → next kind s a = some s' →
      (Referable s' ↔ Unshared s a)) :=
  ⟨fun h => ⟨referable_of_reachable h, not_faulted h⟩, fun h => (Regular.reachable h).referable_step⟩

instance (s : Registry) (a : Action) : Decidable (Unshared s a) :=
  match a with
  | .session w .destroy => decidable_of_iff ((s.objects w).upgraded = false)
      ⟨fun h _ he => by cases he; exact h, fun h => h w rfl⟩
  | .session _ .construct | .session _ (.on_handshake _) | .session _ .callback
  | .session _ .on_send | .session _ .on_write | .session _ .destruct | .reference _ =>
    .isTrue nofun

-- Of two sessions, the one that is destroyed has not been upgraded.
theorem referable_iff_run : ∃ s, Referable s ∧ s.sessions .ws = [0] ∧
    (s.objects 1).phase = .destroyed ∧ s.faulted = false := by
  obtain ⟨hr, _⟩ := referable_iff fun _ => .ws
  obtain ⟨s, hs, hw, hp⟩ : ∃ s, ((system fun _ => .ws).restrict Unshared).Reachable s ∧
      s.sessions .ws = [0] ∧ (s.objects 1).phase = .destroyed :=
    System.exec_reachable rfl <| show Option.any _ (System.exec _ _ _ [
      .session 0 .construct, .session 1 .construct, .session 0 (.on_handshake none),
      .session 1 (.on_handshake (some .closed)), .session 1 .on_send, .session 0 .callback,
      .session 1 .destroy, .session 1 .destruct, .reference fun _ => true, .session 1 .destruct]) by
      decide +kernel
  exact ⟨s, (hr hs).left, hw, hp, (hr hs).right⟩

-- A session is destroyed with a message in its queue, whose handler calls `sendAsync`.
theorem not_referable :
    ∃ s, (system fun _ => .wss).Reachable s ∧ ¬Referable s ∧ s.faulted = true := by
  obtain ⟨s, hr, hw, hf, hs⟩ : ∃ s, ((system fun _ => .wss).restrict fun _ _ => True).Reachable s ∧
      0 ∈ s.sessions .wss ∧ (s.objects 0).weak_this = false ∧ s.faulted = true :=
    System.exec_reachable rfl <| show Option.any _ (System.exec _ _ _ [
      .session 0 .construct, .session 0 (.on_handshake none), .session 0 .callback,
      .session 0 .on_send, .session 0 .destroy, .session 0 .destruct,
      .reference fun k => k = .ws ∨ k = .wss]) by decide +kernel
  exact ⟨s, hr.of_restrict, fun h => by simp [h 0 (.inr hw)] at hf, hs⟩

end Registry
end BeastNetworking
