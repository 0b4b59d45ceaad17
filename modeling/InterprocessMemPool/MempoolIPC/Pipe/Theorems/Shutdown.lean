import InterprocessMemPool.MempoolIPC.Pipe.Theorems.Layout

namespace PipeIPC

variable {α : Type*} {p p' : PipeIPC α} {c : Config α} {l l' : Call α} {capacity : SizeT} {x : Bool}

-- A `Receive` that has its wait for `nstored` still ahead.
def Receive.Pending (r : Receive α) : Prop :=
  r.pc = .entered ∨ r.pc = .waiting

instance : DecidablePred (Receive.Pending (α := α)) :=
  fun r => inferInstanceAs (Decidable (r.pc = .entered ∨ r.pc = .waiting))

namespace Call

-- How many tokens of `nstored` a call has yet to acquire.
@[simp]
def seeksStored : Call α → ℕ
  | .receive r | .consumer (.receiving r) => if r.Pending then 1 else 0
  | _                                     => 0

-- Those that it does not give up on.
@[simp]
def insistsStored : Call α → ℕ
  | .receive r | .consumer (.receiving r) => if r.Pending ∧ r.timeout_seconds = 0 then 1 else 0
  | _                                     => 0

-- How many tokens of `nstored` a call will post after a `Shutdown` has begun.
@[simp]
def postsStored : Call α → ℕ
  | .send s     => if s.pc = .storing ∨ s.pc = .posting then 1 else 0
  | .shutdown s => if s = .entered ∨ s = .postingStored then 1 else 0
  | _           => 0

@[simp]
def seeksEmpty : Call α → ℕ
  | .send s => if s.pc = .waiting then 1 else 0
  | _       => 0

@[simp]
def insistsEmpty : Call α → ℕ
  | .send s => if s.pc = .waiting ∧ s.wait = .wait then 1 else 0
  | _       => 0

-- A `Receive` posts `nempty` once it has got a token of `nstored`, and on a pipe without slots it
-- never does.
@[simp]
def postsEmpty (capacity : SizeT) : Call α → ℕ
  | .receive r | .consumer (.receiving r) =>
    if capacity ≠ 0 ∧ (r.pc = .taking ∨ r.pc = .posting ∨ r.Pending ∧ r.timeout_seconds = 0)
    then 1 else 0
  | .shutdown s => if s = .returned then 0 else 1
  | _           => 0

end Call

-- What remains to be acquired, and what remains to be posted, around an atomic step.
structure Passes (p : PipeIPC α) (l : Call α) (p' : PipeIPC α) (l' : Call α) : Prop where
  insistsStored : l'.insistsStored ≤ l.insistsStored
  insistsEmpty  : l'.insistsEmpty ≤ l.insistsEmpty
  stored : p.nstored + l.postsStored + l'.seeksStored ≤ p'.nstored + l'.postsStored + l.seeksStored
  empty  : p.nempty + l.postsEmpty p.capacity + l'.seeksEmpty ≤
    p'.nempty + l'.postsEmpty p.capacity + l.seeksEmpty

theorem Send.step_passes {s s' : Send α} (h : s.step x p = some (p', s')) (hd : p.shutdown)
    (hc : s.pc = .storing → p.capacity ≠ 0) : Passes p (.send s) p' (.send s') := by
  obtain ⟨ptr, mode, t, pc⟩ := s
  cases pc <;> simp only [step, Option.some.injEq, Prod.mk.injEq, reduceCtorEq] at h
  case waiting =>
    obtain ⟨⟨n, ok⟩, hw, h⟩ := Option.map_eq_some_iff.mp h
    obtain ⟨rfl, rfl⟩ := Prod.mk.inj h
    have := Semaphore.Wait.step_cases hw
    constructor <;> simp
    omega
  case storing =>
    rw [if_neg (hc rfl)] at h
    obtain ⟨rfl, rfl⟩ := Prod.mk.inj (Option.some.inj h)
    constructor <;> simp
  all_goals
    obtain ⟨rfl, rfl⟩ := h
    constructor <;> simp [hd]

theorem Receive.step_passes {r r' : Receive α} (h : r.step x p = some (p', r')) :
    Passes p (.receive r) p' (.receive r') := by
  obtain ⟨ptr, t, pc⟩ := r
  cases pc <;> simp only [step, Option.some.injEq, Prod.mk.injEq, reduceCtorEq] at h
  case entered =>
    obtain ⟨rfl, rfl⟩ := h
    constructor <;> simp [Pending]
  case waiting =>
    obtain ⟨⟨n, ok⟩, hw, h⟩ := Option.map_eq_some_iff.mp h
    obtain ⟨rfl, rfl⟩ := Prod.mk.inj h
    obtain ⟨rfl, hn⟩ | ⟨rfl, hn, rfl⟩ := Semaphore.Wait.step_cases hw
    · constructor <;> simp [Pending, hn]
      split <;> simp_all
    · -- Only a `Receive` with a timeout gives up.
      have ht : t ≠ 0 := by
        rintro rfl
        simp [wait, hn, Semaphore.Wait.step] at hw
      constructor <;> simp [Pending, hn, ht]
  case taking =>
    split at h <;> obtain ⟨rfl, rfl⟩ := Prod.mk.inj (Option.some.inj h)
    case isTrue hc  => constructor <;> simp [Pending, hc]
    case isFalse hc => constructor <;> simp [Pending, hc]
  case posting =>
    obtain ⟨rfl, rfl⟩ := h
    constructor <;> simp [Pending]
    split <;> omega

theorem Shutdown.step_passes {s s' : Shutdown} (h : s.step p = some (p', s')) :
    Passes p (.shutdown s) p' (.shutdown s') := by
  cases s <;> simp only [step, Option.some.injEq, Prod.mk.injEq, reduceCtorEq] at h
  all_goals
    obtain ⟨rfl, rfl⟩ := h
    constructor <;> simp

-- The `Receive` that begins with an action: a call of its own, or that of a consumer whose test of the
-- pipe succeeds.
def begun (c : Config α) : Program.Action (Call α) Bool → Option (Receive α)
  | .enter (.receive r) => some r
  | .enter _            => none
  | .run i _            =>
    match c.calls[i]? with
    | some (.consumer (.testingSize t false)) =>
      if 0 < c.shared.size then some { timeout_seconds := t } else none
    | _                                       => none

-- Whatever a consumer does otherwise is as if it called `Receive` itself.
theorem Consumer.step_passes {s s' : Consumer α} (h : s.step x p = some (p', s'))
    (hd : p.shutdown) : Passes p (.consumer s) p' (.consumer s') ∨
      ∃ t, s = .testingSize t false ∧ 0 < p.size ∧ p' = p ∧
        s' = .receiving { timeout_seconds := t } := by
  cases s <;> simp only [step, Option.some.injEq, Prod.mk.injEq, reduceCtorEq] at h
  case testingShutdown =>
    obtain ⟨rfl, rfl⟩ := h
    exact .inl (by constructor <;> simp [hd])
  case testingSize t timedout =>
    obtain ⟨rfl, rfl⟩ := h
    by_cases hs : 0 < p.size ∧ timedout = false
    case pos => exact .inr ⟨t, by simp [hs], hs.left, rfl, by simp [loop, hs]⟩
    case neg =>
      have : loop (α := α) t timedout (0 < p.size) = .ended := by simp_all [loop]
      exact .inl (by rw [this]; constructor <;> simp)
  case receiving r =>
    split at h
    case h_1 hr =>
      obtain ⟨rfl, rfl⟩ := Prod.mk.inj (Option.some.inj h)
      exact .inl (by constructor <;> simp [hr, Receive.Pending])
    case h_2 =>
      obtain ⟨⟨_, r'⟩, hs, h⟩ := Option.map_eq_some_iff.mp h
      obtain ⟨rfl, rfl⟩ := Prod.mk.inj h
      obtain ⟨h₁, h₂, h₃, h₄⟩ := Receive.step_passes hs
      exact .inl ⟨h₁, h₂, h₃, h₄⟩

-- Everybody who waits without a timeout still gets a token, even if everybody else who waits for that
-- semaphore does so first.
structure Enough (c : Config α) : Prop where
  stored : 0 < c.total Call.insistsStored →
    c.total Call.seeksStored ≤ c.shared.nstored + c.total Call.postsStored
  empty  : 0 < c.total Call.insistsEmpty →
    c.total Call.seeksEmpty ≤ c.shared.nempty + c.total (Call.postsEmpty c.shared.capacity)

instance : DecidablePred (Enough (α := α)) := fun _ =>
  decidable_of_iff (_ ∧ _) ⟨fun h => ⟨h.left, h.right⟩, fun h => ⟨h.stored, h.empty⟩⟩

theorem Enough.after {i : ℕ} (h : Enough c) (hl : c.calls[i]? = some l)
    (hp : Passes c.shared l p' l') (hc : p'.capacity = c.shared.capacity) :
    Enough (c.after i l p' l') := by
  have tally (w : Call α → ℕ) := Program.Config.total_after w p' l' hl
  constructor <;> simp only [Program.Config.after_shared, hc]
  case stored =>
    intro hi
    have := tally Call.insistsStored
    have := tally Call.seeksStored
    have := tally Call.postsStored
    have := hp.insistsStored
    have := hp.stored
    have := h.stored (by omega)
    omega
  case empty =>
    intro hi
    have := tally Call.insistsEmpty
    have := tally Call.seeksEmpty
    have := tally (Call.postsEmpty c.shared.capacity)
    have := hp.insistsEmpty
    have := hp.empty
    have := h.empty (by omega)
    omega

-- A consumer that begins to receive counts as a call to `Receive`.
theorem Enough.begin {i : ℕ} {t : SizeT} (hl : c.calls[i]? = some (.consumer (.testingSize t false)))
    (h : Enough (c.enter (.receive { timeout_seconds := t }))) :
    Enough (c.after i (.consumer (.testingSize t false)) c.shared
      (.consumer (.receiving { timeout_seconds := t }))) := by
  have tally (w : Call α → ℕ) :=
    Program.Config.total_after w c.shared (.consumer (.receiving { timeout_seconds := t })) hl
  have h₁ := tally Call.insistsStored
  have h₂ := tally Call.seeksStored
  have h₃ := tally Call.postsStored
  have h₄ := tally Call.insistsEmpty
  have h₅ := tally Call.seeksEmpty
  have h₆ := tally (Call.postsEmpty c.shared.capacity)
  have he := h.stored
  have hf := h.empty
  simp only [Program.Config.total_enter, Program.Config.enter_shared] at he hf
  simp only [Call.insistsStored, Call.seeksStored, Call.postsStored, Call.insistsEmpty,
    Call.seeksEmpty, Call.postsEmpty] at h₁ h₂ h₃ h₄ h₅ h₆ he hf
  constructor <;> simp only [Program.Config.after_shared]
  all_goals omega

theorem Enough.enter (h : Enough c) (hs : l.starts) (hr : ∀ r, l ≠ .receive r) :
    Enough (c.enter l) := by
  have he := h.stored
  have hf := h.empty
  have hl : l.seeksStored = 0 ∧ l.insistsStored = 0 ∧ l.seeksEmpty = 0 ∧ l.insistsEmpty = 0 := by
    cases l <;> simp_all [Call.starts]
    case consumer k => cases k <;> simp_all
  constructor <;> simp only [Program.Config.total_enter, Program.Config.enter_shared, hl]
  all_goals omega

-- The action is the one of a `Shutdown` that shuts the pipe down.
def shuts (c : Config α) : Program.Action (Call α) Bool → Bool
  | .enter _ => false
  | .run i _ => !c.shared.shutdown && c.calls[i]?.any fun
    | .shutdown .entered => true
    | _                  => false

-- When the pipe is shut down, and when a `Receive` begins after that, there are enough tokens for all.
structure Noticed (c : Config α) (a : Program.Action (Call α) Bool) : Prop where
  shuts : shuts c a → Enough c
  begun : c.shared.shutdown → ∀ r ∈ begun c a, Enough (c.enter (.receive r))

instance (c : Config α) (a : Program.Action (Call α) Bool) : Decidable (Noticed c a) :=
  decidable_of_iff (_ ∧ _) ⟨fun h => ⟨h.left, h.right⟩, fun h => ⟨h.shuts, h.begun⟩⟩

theorem step_passes (h : (program α).step x p l = some (p', l')) (hd : !l.isShutdown → p.shutdown)
    (hc : l.phase = .storing → p.capacity ≠ 0) : Passes p l p' l' ∨
      ∃ t, l = .consumer (.testingSize t false) ∧ 0 < p.size ∧ p' = p ∧
        l' = .consumer (.receiving { timeout_seconds := t }) := by
  cases Call.steps h
  case send hs     => exact .inl (Send.step_passes hs (hd rfl) fun hp => hc (by simp [Call.phase, hp]))
  case receive hs  => exact .inl (Receive.step_passes hs)
  case shutdown hs => exact .inl (Shutdown.step_passes hs)
  case consumer hs => simpa using Consumer.step_passes hs (hd rfl)

theorem enough (h : ((system α capacity).restrict Noticed).Reachable c) :
    c.shared.shutdown → Enough c := by
  refine Program.invariant_restrict (I := fun c => c.shared.shutdown → Enough c) ?_ ?_ ?_ |>.holds h
  · rintro _ rfl hd
    simp [new] at hd
  · intro c l _ h hc hs hd
    by_cases hr : ∃ r, l = .receive r
    case pos =>
      obtain ⟨r, rfl⟩ := hr
      exact hc.begun hd r rfl
    case neg => exact (h hd).enter hs (not_exists.mp hr)
  · intro c i x l p' l' hr h hc hl hs hd
    have hcap := (step_transition hs).capacity_eq
    -- A call that is about to store has a slot, so that there are slots.
    have hstore (hp : l.phase = .storing) : c.shared.capacity ≠ 0 := by
      intro hz
      have := length_lt_of_storing hr.of_restrict hl hp
      rw [← (tokens hr.of_restrict).capacity_eq, hz] at this
      exact Nat.not_lt_zero _ this
    have hp := step_passes hs
    cases hsd : c.shared.shutdown
    case false =>
      obtain rfl := eq_entered_of_step hs hsd hd
      have hn : Enough c := hc.shuts (by simp [shuts, hsd, hl])
      obtain hp | ⟨_, he, _⟩ := hp (by simp [Call.isShutdown]) hstore
      · exact hn.after hl hp hcap
      · cases he
    case true =>
      obtain hp | ⟨t, rfl, hz, rfl, rfl⟩ := hp (fun _ => hsd) hstore
      · exact (h hsd).after hl hp hcap
      · exact .begin hl (hc.begun hsd _ (by simp [begun, hl, hz]))

-- The pipe is shut down by a call that has returned, somebody waits for a semaphore of it, and no call
-- can take a step.
structure Asleep (c : Config α) : Prop where
  shutdown : c.shared.shutdown
  returned : .shutdown .returned ∈ c.calls
  blocked  : (∃ s, .send s ∈ c.calls ∧ s.pc = .waiting) ∨
    ∃ r, (.receive r ∈ c.calls ∨ .consumer (.receiving r) ∈ c.calls) ∧ r.pc = .waiting
  stuck    : ∀ l ∈ c.calls, ∀ x, (program α).step x c.shared l = none

theorem Send.insists_of_stuck {s : Send α} (hs : s.step true p = none) (hw : s.pc = .waiting) :
    p.nempty = 0 ∧ (Call.send s).insistsEmpty = 1 ∧ (Call.send s).seeksEmpty = 1 := by
  simp only [step, hw, Option.map_eq_none_iff, Semaphore.Wait.step_eq_none_iff] at hs
  obtain ⟨hn, hs | hs⟩ := hs
  · simp [hn, hs, hw]
  · simp at hs

theorem Receive.insists_of_stuck {r : Receive α} (hs : r.step true p = none) (hw : r.pc = .waiting) :
    p.nstored = 0 ∧ r.timeout_seconds = 0 := by
  simp only [step, hw, Option.map_eq_none_iff, Semaphore.Wait.step_eq_none_iff] at hs
  obtain ⟨hn, hs | hs⟩ := hs
  · refine ⟨hn, ?_⟩
    by_contra ht
    simp [wait, Ne.symm ht] at hs
  · simp at hs

theorem Receive.waiting_of_stuck {r : Receive α} (hs : r.step true p = none) :
    r.pc = .waiting ∨ r.pc = .faulted ∨ ∃ b, r.pc = .returned b := by
  cases hp : r.pc <;> simp only [step, hp, reduceCtorEq] at hs <;> simp_all
  split at hs <;> cases hs

-- A call that can take no step has nothing to post, except for a `Receive` that waits itself.
theorem posts_of_stuck (hs : (program α).step true p l = none) :
    l.postsStored = 0 ∧ l.postsEmpty p.capacity ≤ l.insistsStored := by
  cases l <;> simp only [program, Call.step, Option.map_eq_none_iff] at hs
  case send s =>
    cases hp : s.pc <;> simp_all [Send.step]
    split at hs <;> cases hs
  case receive r =>
    obtain hp | hp | ⟨_, hp⟩ := Receive.waiting_of_stuck hs <;> simp [hp, Receive.Pending]
    split <;> simp_all
  case shutdown s => cases s <;> simp_all [Shutdown.step]
  case consumer k =>
    cases k <;> simp_all [Consumer.step]
    case receiving r =>
      split at hs
      case h_1 => cases hs
      case h_2 hne =>
        obtain hp | hp | ⟨_, hp⟩ := Receive.waiting_of_stuck (Option.map_eq_none_iff.mp hs)
        · simp [hp, Receive.Pending]
          split <;> simp_all
        · simp [hp, Receive.Pending]
        · exact absurd hp (hne _)

theorem Receive.nstored_of_stuck {r : Receive α} (hs : r.step true p = none) (hr : r.Pending) :
    p.nstored = 0 := by
  obtain hp | hp | ⟨_, hp⟩ := Receive.waiting_of_stuck hs
  · exact (Receive.insists_of_stuck hs hp).left
  all_goals simp [Receive.Pending, hp] at hr

theorem nstored_of_stuck (hs : (program α).step true p l = none) (hi : 0 < l.insistsStored) :
    p.nstored = 0 ∧ 0 < l.seeksStored := by
  cases l <;> simp only [program, Call.step, Option.map_eq_none_iff, Call.insistsStored,
    Nat.lt_irrefl] at hs hi
  case receive r =>
    have hr : r.Pending := by
      by_contra hr
      simp [hr] at hi
    exact ⟨Receive.nstored_of_stuck hs hr, by simp [hr]⟩
  case consumer k =>
    cases k <;> simp only [Nat.lt_irrefl] at hi
    case receiving r =>
      have hr : r.Pending := by
        by_contra hr
        simp [hr] at hi
      have hp : r.step true p = none := by
        obtain hp | hp := hr <;> simpa [Consumer.step, hp] using hs
      exact ⟨Receive.nstored_of_stuck hp hr, by simp [hr]⟩

-- As long as a pipe is only shut down with enough tokens for those who wait, nobody is left asleep.
theorem not_asleep (h : ((system α capacity).restrict Noticed).Reachable c) : ¬Asleep c := by
  intro ha
  have he := enough h ha.shutdown
  have hposts {l} (hl : l ∈ c.calls) := posts_of_stuck (ha.stuck l hl true)
  have hp : c.total Call.postsStored = 0 :=
    Program.Config.total_eq_zero_iff.mpr fun l hl => (hposts hl).left
  -- No `Receive` waits, as it would be one too many for the tokens that there are.
  have hr : ∀ l ∈ c.calls, l.insistsStored = 0 := by
    by_contra! hne
    obtain ⟨l, hl, hne⟩ := hne
    obtain ⟨i, hi⟩ := List.mem_iff_getElem?.mp hl
    obtain ⟨hn, hs⟩ := nstored_of_stuck (ha.stuck l hl true) (Nat.pos_of_ne_zero hne)
    have := Program.Config.le_total (w := Call.insistsStored) hi
    have := Program.Config.le_total (w := Call.seeksStored) hi
    have := he.stored (by omega)
    omega
  have hq : c.total (Call.postsEmpty c.shared.capacity) = 0 :=
    Program.Config.total_eq_zero_iff.mpr fun l hl =>
      Nat.le_zero.mp <| (hposts hl).right.trans (hr l hl).le
  obtain ⟨s, hs, hw⟩ | ⟨r, hm, hw⟩ := ha.blocked
  case inl =>
    obtain ⟨i, hi⟩ := List.mem_iff_getElem?.mp hs
    have hst := ha.stuck _ hs true
    simp only [program, Call.step, Option.map_eq_none_iff] at hst
    obtain ⟨hn, h₁, h₂⟩ := Send.insists_of_stuck hst hw
    have := Program.Config.le_total (w := Call.insistsEmpty) hi
    have := Program.Config.le_total (w := Call.seeksEmpty) hi
    have := he.empty (by omega)
    omega
  case inr =>
    obtain hm | hm := hm
    all_goals
      have hst := ha.stuck _ hm true
      have hz := hr _ hm
      simp only [program, Call.step, Consumer.step, hw, Option.map_eq_none_iff] at hst
      simp [Receive.Pending, hw, (Receive.insists_of_stuck hst hw).right] at hz

-- A `Send` without a timeout that is still to be woken by the `Shutdown` that has just returned.
theorem not_asleep_run : ∃ c : Config ℕ, ¬Asleep c ∧ c.shared.shutdown ∧
    .shutdown .returned ∈ c.calls ∧ ∃ s, .send s ∈ c.calls ∧ s.pc = .waiting ∧ s.wait = .wait := by
  obtain ⟨c, h, hd, hc⟩ : ∃ c : Config ℕ, ((system ℕ 1).restrict Noticed).Reachable c ∧
      c.shared.shutdown ∧ c.calls = [
        .send { ptr := some 1, pc := .returned false },
        .send { ptr := some 2, enqueueMode := .waitIfFull, pc := .waiting },
        .shutdown .returned] :=
    Program.exec_reachable (s := new 1) rfl <| show Option.any _ (System.exec _ _ _ [
      .enter (.send { ptr := some 1 }), .run 0 false, .run 0 false, .run 0 false, .run 0 false,
      .run 0 false, .enter (.send { ptr := some 2, enqueueMode := .waitIfFull }), .run 1 false,
      .enter (.shutdown .entered), .run 2 false, .run 2 false, .run 2 false]) by decide +kernel
  exact ⟨c, not_asleep h, hd, by simp [hc], _, by rw [hc]; exact List.mem_of_getElem? (i := 1) rfl, rfl,
    rfl⟩

-- Two of them in a full pipe: the one that is woken keeps the only token that there is.
theorem asleep_after_shutdown : ∃ c : Config ℕ, (system ℕ 1).Reachable c ∧ Asleep c := by
  obtain ⟨c, h, hs, hc⟩ : ∃ c : Config ℕ, ((system ℕ 1).restrict fun _ _ => True).Reachable c ∧
      c.shared = ⟨0, 0, 1, 1, 0, 2, [some 1], true⟩ ∧ c.calls = [
        .send { ptr := some 1, pc := .returned false },
        .send { ptr := some 2, enqueueMode := .waitIfFull, pc := .returned true },
        .send { ptr := some 3, enqueueMode := .waitIfFull, pc := .waiting },
        .shutdown .returned] :=
    Program.exec_reachable (s := new 1) rfl <| show Option.any _ (System.exec _ _ _ [
      .enter (.send { ptr := some 1 }), .run 0 false, .run 0 false, .run 0 false, .run 0 false,
      .run 0 false, .enter (.send { ptr := some 2, enqueueMode := .waitIfFull }), .run 1 false,
      .enter (.send { ptr := some 3, enqueueMode := .waitIfFull }), .run 2 false,
      .enter (.shutdown .entered), .run 3 false, .run 3 false, .run 3 false,
      .run 1 false, .run 1 false]) by decide +kernel
  refine ⟨c, h.of_restrict, by simp [hs], by simp [hc], .inl ?_, ?_⟩
  · exact ⟨_, by rw [hc]; exact List.mem_of_getElem? (i := 2) rfl, rfl⟩
  · rw [hs, hc]
    simp only [List.forall_mem_cons]
    exact ⟨fun _ => rfl, fun _ => rfl, fun _ => rfl, fun _ => rfl, by simp⟩

end PipeIPC
