import InterprocessMemPool.Networking.UDPReceiver.Basic

open BeastNetworking (Error)

namespace UtilsASIO.UDPReceiver

variable {seconds : ℚ} {s s' : UDPReceiver} {a : Action} {ec : Option Error} {bytes : SizeT}

-- There is a wait for the deadline, or one that has found that it has passed.
def Watched (s : UDPReceiver) : Prop :=
  s.timedout = false → 0 < s.receives → 0 < s.timeout.armed

-- No wait is pending when the deadline is set for the next receive.
def NoneCancelled (s : UDPReceiver) : Action → Prop
  | .start | .on_recieve none _ => s.timeout.pending = 0
  | _                           => True

instance : ∀ a, Decidable (NoneCancelled s a)
  | .start               => inferInstanceAs (Decidable (_ = _))
  | .on_recieve none _   => inferInstanceAs (Decidable (_ = _))
  | .on_recieve (some _) _ | .run | .elapse _ | .expire | .check_timeout _ =>
    inferInstanceAs (Decidable True)

-- There is exactly one wait to watch the deadline.
structure Single (s : UDPReceiver) : Prop where
  armed : s.timeout.armed = if s.phase = .idle then 0 else 1
  idle  : s.phase = .idle → s.receives = 0

theorem on_error_eq {e : Error} : ∃ errors, s.on_error e = { s with errors } := by
  rw [on_error]
  split <;> exact ⟨_, rfl⟩

theorem armed_start_recieve (s : UDPReceiver) (seconds : ℚ) :
    (s.start_recieve seconds).timeout.armed + s.timeout.pending = s.timeout.armed :=
  Timer.armed_expireAt _

theorem check_timeout_frame (ec : Option Error) :
    (s.check_timeout ec).phase = s.phase ∧ (s.check_timeout ec).receives = s.receives := by
  rcases ec with _ | _ | _ | _
  case none =>
    simp only [check_timeout]
    split <;> exact ⟨rfl, rfl⟩
  case some.operation_aborted => exact ⟨rfl, rfl⟩
  all_goals
    obtain ⟨_, he⟩ := on_error_eq (s := s)
    simp only [check_timeout]
    rw [he]
    exact ⟨rfl, rfl⟩

theorem armed_check_timeout (h : s.timeout.armed = 0) : (s.check_timeout none).timeout.armed = 1 := by
  simp only [check_timeout]
  split
  case isFalse => simp [h]
  case isTrue  =>
    have he := Timer.armed_expireAt (t := s.timeout) ⊤
    simp only [time_out, Timer.armed_wait]
    omega

namespace Single

theorem step (h : Single s) (hs : s.next seconds a = some s') (ha : NoneCancelled s a) : Single s' := by
  have harmed := h.armed
  cases a
  case run =>
    obtain ⟨hp, hs⟩ := Option.ite_none_right_eq_some.mp hs
    obtain rfl := Option.some.inj hs
    exact ⟨by simp [harmed, hp], by simp⟩
  case start =>
    obtain ⟨hp, hs⟩ := Option.ite_none_right_eq_some.mp hs
    obtain rfl := Option.some.inj hs
    have hl := armed_start_recieve s seconds
    rw [show s.timeout.pending = 0 from ha, harmed, hp] at hl
    exact ⟨by simpa using hl, by simp⟩
  case elapse =>
    obtain rfl := Option.some.inj hs
    exact ⟨h.armed, h.idle⟩
  case expire =>
    obtain ⟨_, hs⟩ := Option.ite_none_right_eq_some.mp hs
    obtain rfl := Option.some.inj hs
    exact ⟨by simpa using harmed, h.idle⟩
  case check_timeout k =>
    obtain ⟨expired, hk, rfl⟩ := Option.map_eq_some_iff.mp hs
    have hh := Timer.armed_handle hk
    obtain ⟨hphase, hreceives⟩ := check_timeout_frame (s := { s with timeout := s.timeout.handle k })
      (if expired then none else some .operation_aborted)
    refine ⟨?_, ?_⟩
    case refine_2 => rw [hphase, hreceives]; exact h.idle
    rw [hphase]
    cases expired
    case false => simpa [check_timeout, harmed] using hh
    case true =>
      have hp : s.phase ≠ .idle := by
        intro hp
        simp [harmed, hp] at hh
      rw [harmed, if_neg hp, if_pos rfl] at hh
      have hz : (s.timeout.handle k).armed = 0 := by omega
      simpa [hp] using armed_check_timeout (s := { s with timeout := s.timeout.handle k }) hz
  case on_recieve ec bytes =>
    obtain ⟨hr, hs⟩ := Option.ite_none_right_eq_some.mp hs
    obtain rfl := Option.some.inj hs
    have hp : s.phase ≠ .idle := fun hp => by simp [h.idle hp] at hr
    cases ec
    case some =>
      simp only [on_recieve]
      obtain ⟨_, he⟩ := on_error_eq (s := { s with receives := s.receives - 1 })
      rw [he]
      exact ⟨harmed, fun hi => absurd hi hp⟩
    case none =>
      have hl := armed_start_recieve
        { s with receives := s.receives - 1, reads := s.reads ++ [bytes] } seconds
      simp only [show s.timeout.pending = 0 from ha, harmed, add_zero] at hl
      exact ⟨hl, fun hi => absurd hi hp⟩

theorem watched (h : Single s) : Watched s := by
  intro _ hr
  rw [h.armed, if_neg fun hp => by simp [h.idle hp] at hr]
  exact Nat.one_pos

-- The wait that is cancelled was the only one.
theorem noneCancelled_of_watched (h : Single s) (hs : s.next seconds a = some s') (hw : Watched s') :
    NoneCancelled s a := by
  cases a
  case start =>
    obtain ⟨hp, hs⟩ := Option.ite_none_right_eq_some.mp hs
    obtain rfl := Option.some.inj hs
    have hl := armed_start_recieve s seconds
    have hw : 0 < (s.start_recieve seconds).timeout.armed := hw rfl (Nat.succ_pos _)
    simp only [h.armed, hp, reduceCtorEq, if_false] at hl
    simp only [NoneCancelled]
    omega
  case on_recieve ec bytes =>
    cases ec
    case some => trivial
    case none =>
      obtain ⟨hr, hs⟩ := Option.ite_none_right_eq_some.mp hs
      obtain rfl := Option.some.inj hs
      have hp : s.phase ≠ .idle := fun hp => by simp [h.idle hp] at hr
      have hl := armed_start_recieve
        { s with receives := s.receives - 1, reads := s.reads ++ [bytes] } seconds
      have hw := hw rfl (Nat.succ_pos _)
      simp only [h.armed, hp, if_false] at hl
      simp only [on_recieve] at hw
      simp only [NoneCancelled]
      omega
  all_goals trivial

end Single

theorem single_of_reachable (h : ((system seconds).restrict NoneCancelled).Reachable s) : Single s := by
  refine System.Invariant.holds ⟨?_, ?_⟩ h
  · rintro _ rfl
    exact ⟨rfl, fun _ => rfl⟩
  · intro s a s' _ h hs
    exact h.step hs.right hs.left

-- No handler of the timer is to run, and no wait of it can complete.
structure Quiet (s : UDPReceiver) : Prop where
  completions : s.timeout.completions = []
  pending     : 0 < s.timeout.pending → s.now < s.timeout.expiry

def Action.isTimer : Action → Bool
  | .elapse _ | .expire | .check_timeout _ => true
  | _                                      => false

-- The deadline stays as it is until there is a time-out.
structure Silent (s s' : UDPReceiver) : Prop where
  phase    : s'.phase = s.phase
  timeouts : s.timeouts ≤ s'.timeouts
  expiry   : s'.timeouts = s.timeouts → s'.timeout.expiry = s.timeout.expiry

theorem Silent.step (hs : s.next seconds a = some s') (ha : a.isTimer) : Silent s s' := by
  cases a
  case elapse =>
    obtain rfl := Option.some.inj hs
    exact ⟨rfl, le_rfl, fun _ => rfl⟩
  case expire =>
    obtain ⟨_, hs⟩ := Option.ite_none_right_eq_some.mp hs
    obtain rfl := Option.some.inj hs
    exact ⟨rfl, le_rfl, fun _ => rfl⟩
  case check_timeout k =>
    obtain ⟨expired, _, rfl⟩ := Option.map_eq_some_iff.mp hs
    cases expired
    case false => exact ⟨rfl, le_rfl, fun _ => rfl⟩
    case true =>
      simp only [check_timeout, if_true]
      split
      case isTrue  => exact ⟨rfl, Nat.le_succ _, fun he => absurd he (Nat.succ_ne_self _)⟩
      case isFalse => exact ⟨rfl, le_rfl, fun _ => rfl⟩
  all_goals simp [Action.isTimer] at ha

theorem Silent.run {as : List Action} (r : (system seconds).Run s as s')
    (ha : ∀ a ∈ as, a.isTimer) : Silent s s' := by
  induction r
  case refl => exact ⟨rfl, le_rfl, fun _ => rfl⟩
  case step hs _ ih =>
    have h  := Silent.step hs (ha _ List.mem_cons_self)
    have ih := ih fun a hm => ha a (List.mem_cons_of_mem _ hm)
    have h₁ := h.timeouts
    have h₂ := ih.timeouts
    refine ⟨ih.phase.trans h.phase, h₁.trans h₂, fun he => ?_⟩
    exact (ih.expiry (by omega)).trans (h.expiry (by omega))

theorem reachable_of_silent {as : List Action} (r : (system seconds).Run s as s')
    (ha : ∀ a ∈ as, a.isTimer) (h : ((system seconds).restrict NoneCancelled).Reachable s) :
    ((system seconds).restrict NoneCancelled).Reachable s' := by
  induction r
  case refl => exact h
  case step s₁ a _ _ _ hs _ ih =>
    have hn : NoneCancelled s₁ a := by
      have ha := ha a List.mem_cons_self
      cases a
      case run                           => trivial
      case start | on_recieve            => simp [Action.isTimer] at ha
      case elapse | expire | check_timeout => trivial
    exact ih (fun a hm => ha a (List.mem_cons_of_mem _ hm)) (h.step ⟨hn, hs⟩)

theorem Single.lt_expiry (h : Single s) (hq : Quiet s) (hp : s.phase ≠ .idle) :
    s.now < s.timeout.expiry := by
  have ha := h.armed
  rw [if_neg hp, Timer.armed, hq.completions, List.count_nil] at ha
  exact hq.pending (by omega)

theorem timed_out_of_silent {as : List Action}
    (h : ((system seconds).restrict NoneCancelled).Reachable s) (r : (system seconds).Run s as s')
    (ha : ∀ a ∈ as, a.isTimer) (hr : 0 < s.receives) (hq : Quiet s')
    (hle : s.timeout.expiry ≤ s'.now) : s.timeouts < s'.timeouts := by
  have hs := Silent.run r ha
  refine hs.timeouts.lt_of_ne' fun he => ?_
  have hp : s.phase ≠ .idle := fun hp => by simp [(single_of_reachable h).idle hp] at hr
  have hlt := (single_of_reachable (reachable_of_silent r ha h)).lt_expiry hq (hs.phase ▸ hp)
  rw [hs.expiry he] at hlt
  exact absurd hle (not_le_of_gt hlt)

-- A handler of the timer has run.
def Action.isCheck : Action → Bool
  | .check_timeout _ => true
  | _                => false

-- When the deadline has passed only the handlers of waits that have been cancelled leave it at that.
theorem timed_out_of_checks {as : List Action} (r : (system seconds).Run s as s')
    (ha : ∀ a ∈ as, a.isTimer) (hle : s.timeout.expiry ≤ s.now)
    (hlt : s.timeout.completions.count false < as.countP Action.isCheck) : s.timeouts < s'.timeouts := by
  induction r
  case refl => simp at hlt
  case step s a s₁ as s' hs r ih =>
    rw [List.forall_mem_cons] at ha
    have hr := (Silent.run r ha.right).timeouts
    replace ih := ih ha.right
    replace ha := ha.left
    cases a
    case run | start | on_recieve => simp [Action.isTimer] at ha
    case elapse n =>
      obtain rfl := Option.some.inj hs
      refine ih (hle.trans ?_) (by simpa [Action.isCheck] using hlt)
      exact WithTop.coe_le_coe.mpr (Nat.le_add_right s.now n)
    case expire =>
      obtain ⟨_, hs⟩ := Option.ite_none_right_eq_some.mp hs
      obtain rfl := Option.some.inj hs
      exact ih hle (by simpa [Timer.expire, List.count_replicate, Action.isCheck] using hlt)
    case check_timeout k =>
      obtain ⟨expired, hk, rfl⟩ := Option.map_eq_some_iff.mp hs
      cases expired
      case true =>
        simp only [check_timeout, if_true] at hr
        rw [if_pos (show (s.timeout.handle k).expiry ≤ s.now from hle)] at hr
        exact Nat.lt_of_lt_of_le (Nat.lt_succ_self _) hr
      case false =>
        refine ih hle ?_
        obtain ⟨hlen, he⟩ := List.getElem?_eq_some_iff.mp hk
        have hp := (List.getElem_cons_eraseIdx_perm hlen).count_eq false
        rw [he, List.count_cons_self] at hp
        rw [List.countP_cons_of_pos (by rfl), ← hp] at hlt
        exact Nat.lt_of_succ_lt_succ hlt

theorem timed_out_of_deadline {s'' : UDPReceiver} {as bs : List Action} (r : (system seconds).Run s as s')
    (r' : (system seconds).Run s' bs s'') (ha : ∀ a ∈ as ++ bs, a.isTimer)
    (hle : s.timeout.expiry ≤ s'.now)
    (hlt : s'.timeout.completions.count false < bs.countP Action.isCheck) : s.timeouts < s''.timeouts := by
  have hs  := Silent.run r fun a hm => ha a (List.mem_append_left _ hm)
  have hbs : ∀ a ∈ bs, a.isTimer := fun a hm => ha a (List.mem_append_right _ hm)
  obtain he | hlt' := hs.timeouts.eq_or_lt
  case inr => exact hlt'.trans_le (Silent.run r' hbs).timeouts
  rw [← hs.expiry he.symm] at hle
  exact hs.timeouts.trans_lt (timed_out_of_checks r' hbs hle hlt)

-- As long as no wait for the deadline is cancelled there is one. A silence that lasts until the deadline ends
-- with a time-out: until then there is always a handler of the timer to run, and the first one that is not of a
-- cancelled wait is enough.
theorem watched_iff (seconds : ℚ) :
    (∀ {s}, ((system seconds).restrict NoneCancelled).Reachable s → Watched s) ∧
    (∀ {s s' a}, ((system seconds).restrict NoneCancelled).Reachable s →
      s.next seconds a = some s' → (Watched s' ↔ NoneCancelled s a)) ∧
    (∀ {s s' as}, ((system seconds).restrict NoneCancelled).Reachable s →
      (system seconds).Run s as s' → (∀ a ∈ as, a.isTimer) → 0 < s.receives → Quiet s' →
        s.timeout.expiry ≤ s'.now → s.timeouts < s'.timeouts) ∧
    (∀ {s s' s'' as bs}, (system seconds).Run s as s' → (system seconds).Run s' bs s'' →
      (∀ a ∈ as ++ bs, a.isTimer) → s.timeout.expiry ≤ s'.now →
        s'.timeout.completions.count false < bs.countP Action.isCheck → s.timeouts < s''.timeouts) := by
  refine ⟨fun h => (single_of_reachable h).watched, fun h hs => ⟨?_, fun ha => ?_⟩, timed_out_of_silent,
    timed_out_of_deadline⟩
  · exact (single_of_reachable h).noneCancelled_of_watched hs
  · exact (single_of_reachable (h.step ⟨ha, hs⟩)).watched

-- The first wait for the timer completes before `run` sets the deadline.
def watching : UDPReceiver where
  phase    := .running
  timeout  := { expiry := (3000000000 : ℕ), completions := [true] }
  receives := 1

-- The wait has been found to be early, and the next one is pending when the deadline passes.
def overdue : UDPReceiver where
  phase    := .running
  now      := 3000000000
  timeout  := { expiry := (3000000000 : ℕ), pending := 1 }
  receives := 1

def timedOut : UDPReceiver where
  phase    := .running
  now      := 3000000000
  timeout  := { expiry := ⊤, pending := 1 }
  timedout := true
  closed   := true
  receives := 1
  timeouts := 1

theorem watched_iff_run : Watched watching ∧
    (∃ s, watching.next 3 (.check_timeout 0) = some s ∧ Watched s) ∧
    watching.timeouts < timedOut.timeouts ∧ overdue.timeouts < timedOut.timeouts := by
  obtain ⟨hw, hi, ht, hd⟩ := watched_iff 3
  have hr : ((system 3).restrict NoneCancelled).Run {} [.run, .expire, .start] watching :=
    System.exec_run (by decide +kernel)
  have hr := hr.reachable (.init rfl)
  have hs : (system 3).Run watching [.check_timeout 0, .elapse 3000000000] overdue :=
    System.ofNext_run (by decide +kernel)
  have hs' : (system 3).Run overdue [.expire, .check_timeout 0] timedOut :=
    System.ofNext_run (by decide +kernel)
  have hc : watching.next 3 (.check_timeout 0) = some _ := rfl
  have hlt := ht hr (hs.trans hs') (by decide) (by decide) ⟨rfl, by decide⟩ (by decide)
  exact ⟨hw hr, ⟨_, hc, (hi hr hc).mpr trivial⟩, hlt, hd .refl hs' (by decide) (by decide) (by decide)⟩

-- The call of `run` alone cancels the wait that it has started.
theorem not_watched : ∃ s, (system 3).Reachable s ∧ ¬Watched s := by
  have ⟨s, hr, ht, hp, ha⟩ : ∃ s, ((system 3).restrict fun _ _ => True).Reachable s ∧
      s.timedout = false ∧ 0 < s.receives ∧ s.timeout.armed = 0 :=
    System.exec_reachable rfl <| show Option.any _ (System.exec _ _ _ [.run, .start]) by decide +kernel
  exact ⟨s, hr.of_restrict, fun hw => by simpa [ha] using hw ht hp⟩

end UtilsASIO.UDPReceiver
