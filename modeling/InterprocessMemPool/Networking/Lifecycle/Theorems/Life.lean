import InterprocessMemPool.Networking.Lifecycle.Basic

namespace BeastNetworking

namespace Object

variable {k : Kind} {o o' : Object} {t : List Event} {a : Action} {e : Option Event}

-- The lives that a session can have, with what it has done to the shared state so far. The last four are
-- those of TLS sessions without a handshake and of websocket sessions that have not been upgraded.
inductive Life (k : Kind) : Object → List Event → Prop
  | unborn : Life k {} []
  | connecting {q} : k ≠ .http → Life k ⟨.connecting, true, false, q⟩ []
  | failed {q} : k ≠ .http → Life k ⟨.failed, true, false, q⟩ []
  | registering {q} : Life k ⟨.registering, true, k.isWebsocket, q⟩ [.join]
  | running {q} : Life k ⟨.running, true, k.isWebsocket, q⟩ [.join, .callback k.opening]
  | destroying {q} :
      Life k ⟨.destroying, !k.isWebsocket, k.isWebsocket, q⟩ [.join, .callback k.opening]
  | leaving {q} : Life k ⟨.leaving, !k.isWebsocket, false, q⟩ [.join, .callback k.opening, .leave]
  | destroyed {q} :
      Life k ⟨.destroyed, false, false, q⟩ [.join, .callback k.opening, .leave, .callback k.closing]
  | aborting {q} : k ≠ .http → Life k ⟨.destroying, !k.isWebsocket, false, q⟩ []
  | aborted {q} : k.isWebsocket → Life k ⟨.destroyed, false, false, q⟩ []
  | departing {q} : k = .https → Life k ⟨.leaving, true, false, q⟩ [.leave]
  | departed {q} : k = .https → Life k ⟨.destroyed, false, false, q⟩ [.leave, .callback k.closing]

namespace Life

theorem construct (h : Object.construct k = (o', e)) : Life k o' e.toList := by
  cases k
  case http => cases h; exact .registering
  all_goals cases h; exact .connecting nofun

-- A handshake of a session that has not joined yet.
theorem on_handshake {p : Phase} {q : ℕ} {ec : Option Error} (hk : k ≠ .http)
    (hp : p = .connecting ∨ p = .failed) (h : Object.on_handshake k ec ⟨p, true, false, q⟩ = (o', e)) :
    Life k o' e.toList := by
  cases ec
  case some ec =>
    obtain rfl | rfl := hp
    all_goals cases h; exact .failed hk
  case none =>
    cases k
    case http => contradiction
    all_goals cases h; exact .registering

theorem on_handshake_running {q : ℕ} {ec : Option Error} (hk : k.isWebsocket) :
    Object.on_handshake k ec ⟨.running, true, k.isWebsocket, q⟩ =
      (⟨.running, true, k.isWebsocket, q⟩, none) := by
  cases ec <;> simp [Object.on_handshake, hk]

-- The destructor of a session that has joined.
theorem destruct {q : ℕ} (h : Object.destruct k ⟨.destroying, !k.isWebsocket, k.isWebsocket, q⟩ = (o', e)) :
    Life k o' ([.join, .callback k.opening] ++ e.toList) := by
  have he : Object.destruct k ⟨.destroying, !k.isWebsocket, k.isWebsocket, q⟩ =
      if k.isWebsocket ∧ 0 < q then (⟨.destroying, !k.isWebsocket, k.isWebsocket, q - 1⟩, none)
      else (⟨.leaving, !k.isWebsocket, false, q⟩, some .leave) := by
    cases k <;> cases q <;> simp [Object.destruct, Kind.isWebsocket]
  rw [he] at h
  split at h
  · cases h; exact .destroying
  · cases h; exact .leaving

theorem destruct_aborting {q : ℕ} (hk : k ≠ .http)
    (h : Object.destruct k ⟨.destroying, !k.isWebsocket, false, q⟩ = (o', e)) : Life k o' e.toList := by
  cases k
  case http  => contradiction
  case https => cases h; exact .departing rfl
  case ws | wss =>
    cases q
    case zero   => cases h; exact .aborted rfl
    case succ q => cases h; exact .aborting nofun

theorem queue {q : ℕ} (h : Life k o t) (hi : o.phase.idle) : Life k { o with queue := q } t := by
  cases h
  case connecting hk => exact .connecting hk
  case failed hk     => exact .failed hk
  case running       => exact .running
  all_goals cases hi

theorem step (h : Life k o t) (hn : o.next k a = some (o', e)) : Life k o' (t ++ e.toList) := by
  cases a
  all_goals simp only [next, Option.ite_none_right_eq_some, Option.some.injEq] at hn
  case construct =>
    obtain ⟨hp, hn⟩ := hn
    cases h
    case unborn => exact construct hn
    all_goals cases hp
  case on_handshake ec =>
    obtain ⟨hg, hn⟩ := hn
    cases h
    case connecting hk => exact on_handshake hk (.inl rfl) hn
    case failed hk     => exact on_handshake hk (.inr rfl) hn
    case running       =>
      obtain ⟨_, hp⟩ | ⟨hw, _⟩ := hg
      · cases hp
      · cases (on_handshake_running hw).symm.trans hn
        exact .running
    all_goals obtain ⟨_, hp⟩ | ⟨_, hp⟩ := hg <;> cases hp
  case callback =>
    cases h
    case registering  => cases hn; exact .running
    case leaving      => cases hn; exact .destroyed
    case departing hk => cases hn; exact .departed hk
    all_goals cases hn
  case on_send =>
    obtain ⟨⟨_, hi⟩, hn⟩ := hn
    cases hn
    simpa using h.queue hi
  case on_write =>
    obtain ⟨⟨_, hi, _⟩, hn⟩ := hn
    cases hn
    simpa using h.queue hi
  case destroy =>
    obtain ⟨hi, hn⟩ := hn
    cases h
    case connecting hk => cases hn; exact .aborting hk
    case failed hk     => cases hn; exact .aborting hk
    case running       => cases hn; exact .destroying
    all_goals cases hi
  case destruct =>
    obtain ⟨hp, hn⟩ := hn
    cases h
    case destroying  => exact destruct hn
    case aborting hk => exact destruct_aborting hk hn
    all_goals cases hp

-- A session joins once.
theorem eq_nil_of_join (h : Life k o t) (hn : o.next k a = some (o', some .join)) : t = [] := by
  have h' := h.step hn
  cases h <;> first | rfl | cases h'

end Life
end Object

namespace Registry

variable {kind : Session → Kind} {s s' : Registry} {v w : Session} {a : Action} {k : Kind}

-- What a session has done so far.
def trail (s : Registry) (w : Session) : List Event :=
  s.history.filterMap fun (v, e) => if v = w then some e else none

-- A session has joined, and it has not left.
def Joined (t : List Event) : Prop :=
  .join ∈ t ∧ .leave ∉ t

theorem joined_concat {t : List Event} {e : Event} : Joined (t ++ [e]) ↔
    (.join ∈ t ∨ e = .join) ∧ .leave ∉ t ∧ e ≠ .leave := by
  simp [Joined, eq_comm]

@[simp]
theorem trail_update {f : Session → Object} : { s with objects := f }.trail w = s.trail w :=
  rfl

theorem trail_occur_self {e : Event} : (s.occur kind w e).trail w = s.trail w ++ [e] := by
  simp [trail, occur]

theorem trail_occur_of_ne {e : Event} (h : v ≠ w) : (s.occur kind v e).trail w = s.trail w := by
  simp [trail, occur, h]

theorem mem_sessions_occur_of_ne {e : Event} (h : v ≠ w) :
    w ∈ (s.occur kind v e).sessions k ↔ w ∈ s.sessions k := by
  simp only [occur]
  split
  · rfl
  · cases e
    case join       => simp [h.symm]
    case leave      => exact List.mem_erase_of_ne h.symm
    case callback c => rfl

theorem mem_sessions_occur_self {e : Event} (hn : (s.sessions (kind w)).Nodup) :
    w ∈ (s.occur kind w e).sessions (kind w) ↔
      e = .join ∨ w ∈ s.sessions (kind w) ∧ e ≠ .leave := by
  simp only [occur, ne_eq, not_true_eq_false, if_false]
  cases e
  case join       => simp
  case leave      => simp [hn.mem_erase_iff]
  case callback c => simp

theorem sessions_occur_of_ne {e : Event} (h : k ≠ kind w) :
    (s.occur kind w e).sessions k = s.sessions k := by
  simp [occur, h]

theorem nodup_occur {e : Event} (h : (s.sessions k).Nodup) : ((s.occur kind w e).sessions k).Nodup := by
  simp only [occur]
  split
  · exact h
  · cases e
    case join       => exact h.insert
    case leave      => exact h.erase _
    case callback c => exact h

section Act

variable {p : Object × Option Event}

@[simp]
theorem objects_act : (s.act kind w p).objects = Function.update s.objects w p.1 := by
  rw [act]
  cases p.2 <;> rfl

theorem trail_act_self : (s.act kind w p).trail w = s.trail w ++ p.2.toList := by
  rw [act]
  cases p.2
  case none   => simp
  case some e => exact trail_occur_self

theorem trail_act_of_ne (h : v ≠ w) : (s.act kind v p).trail w = s.trail w := by
  rw [act]
  cases p.2
  case none   => rfl
  case some e => exact trail_occur_of_ne h

end Act

theorem trail_of_next {a : Action} (hn : next kind s a = some s') : s.trail w <+: s'.trail w := by
  cases a
  case reference   => cases hn; exact List.prefix_rfl
  case session v a =>
    obtain ⟨p, _, rfl⟩ := Option.map_eq_some_iff.mp hn
    by_cases hw : v = w
    case pos => rw [← hw, trail_act_self]; exact List.prefix_append ..
    case neg => rw [trail_act_of_ne hw]

theorem object_of_next {a : Action} (hn : next kind s a = some s') : s'.objects w = s.objects w ∨
    ∃ a' e, a = .session w a' ∧ (s.objects w).next (kind w) a' = some (s'.objects w, e) := by
  cases a
  case reference   => cases hn; exact .inl rfl
  case session v a =>
    obtain ⟨p, ho, rfl⟩ := Option.map_eq_some_iff.mp hn
    by_cases hw : w = v
    case pos => exact .inr ⟨a, p.2, by rw [hw], by simpa [hw] using ho⟩
    case neg => exact .inl (by simp [hw])

-- Each session lives one of its lives, and the sets have those that are in.
structure Regular (kind : Session → Kind) (s : Registry) : Prop where
  life  : ∀ w, (s.objects w).Life (kind w) (s.trail w)
  mem   : ∀ w k, w ∈ s.sessions k ↔ kind w = k ∧ Joined (s.trail w)
  nodup : ∀ k, (s.sessions k).Nodup

namespace Regular

theorem occur {e : Event} {o : Object} (h : Regular kind s) (hl : o.Life (kind v) (s.trail v ++ [e]))
    (hj : e = .join → s.trail v = []) : Regular kind (s.act kind v (o, some e)) where
  nodup k  := nodup_occur (h.nodup k)
  life w   := by
    by_cases hw : v = w
    case pos => rw [← hw, trail_act_self]; simpa using hl
    case neg => rw [trail_act_of_ne hw]; simpa [Ne.symm hw] using h.life w
  mem w k  := by
    by_cases hw : v = w
    case neg => rw [trail_act_of_ne hw]; exact (mem_sessions_occur_of_ne hw).trans (h.mem w k)
    case pos =>
      obtain rfl := hw
      rw [trail_act_self]
      by_cases hk : k = kind v
      case neg => simp [act, sessions_occur_of_ne hk, h.mem, Ne.symm hk]
      case pos =>
        obtain rfl := hk
        have hm : v ∈ s.sessions (kind v) ↔ Joined (s.trail v) := (h.mem v _).trans (and_iff_right rfl)
        refine (mem_sessions_occur_self (h.nodup _)).trans ?_
        rw [Option.toList_some, joined_concat, and_iff_right rfl]
        cases e
        case join => simp [hj rfl]
        all_goals simp [hm, Joined]

theorem set_object {o : Object} (h : Regular kind s) (hl : o.Life (kind v) (s.trail v)) :
    Regular kind (s.act kind v (o, none)) where
  nodup  := h.nodup
  mem    := h.mem
  life w := by
    by_cases hw : v = w
    case pos => rw [← hw, trail_act_self]; simpa using hl
    case neg => rw [trail_act_of_ne hw]; simpa [Ne.symm hw] using h.life w

theorem step {a : Action} (h : Regular kind s) (hn : next kind s a = some s') : Regular kind s' := by
  cases a
  case reference selects =>
    cases hn
    exact ⟨h.life, h.mem, h.nodup⟩
  case session v a =>
    obtain ⟨⟨o, e⟩, ho, rfl⟩ := Option.map_eq_some_iff.mp hn
    have hl := (h.life v).step ho
    cases e
    case none   => exact h.set_object (by simpa using hl)
    case some e => exact h.occur hl fun he => (h.life v).eq_nil_of_join (he ▸ ho)

theorem reachable (h : (system kind).Reachable s) : Regular kind s := by
  induction h
  case init h      => exact h ▸ ⟨fun w => .unborn, by simp [new, Joined, trail], by simp [new]⟩
  case step _ hs h => exact h.step hs

end Regular
end Registry
end BeastNetworking
