import InterprocessMemPool.MempoolIPC.Pipe.Basic

namespace PipeIPC

variable {α : Type*} {p p' : PipeIPC α} {c : Config α} {l l' : Call α}

-- What a call currently holds: a token that it has taken from one of the semaphores, or one that it
-- owes to them. A call that has faulted never gives back the token that it went into the lock with.
inductive Phase
  | idle
  | acquired
  | storing
  | faultedStoring
  | postingStored
  | taking
  | faultedTaking
  | postingEmpty
  | notifying
  deriving DecidableEq

def Phase.Faulted (φ : Phase) : Prop :=
  φ = .faultedStoring ∨ φ = .faultedTaking

def Receive.phase (c : Receive α) : Phase :=
  match c.pc with
  | .taking  => .taking
  | .faulted => .faultedTaking
  | .posting => .postingEmpty
  | _        => .idle

def Call.phase : Call α → Phase
  | .send c                                       =>
    match c.pc with
    | .checking true => .acquired
    | .storing       => .storing
    | .faulted       => .faultedStoring
    | .posting       => .postingStored
    | _              => .idle
  | .receive c | .consumer (.receiving c)         => c.phase
  | .shutdown .postingStored                      => .notifying
  | .shutdown .postingEmpty                       => .notifying
  | _                                             => .idle

-- What the step that brought a call into this state has done to the queue. The state in which a
-- semaphore is about to be posted can only be entered through the locked scope before it.
def Call.op : Call α → Option (Fifo.Op (Option α))
  | .send c                               => if c.pc = .posting then some (.enq c.ptr) else none
  | .receive c | .consumer (.receiving c) => if c.pc = .posting then some (.deq c.ptr) else none
  | _                                     => none

-- Everything that an atomic step of a call can do to a pipe.
inductive Transition (p : PipeIPC α) : Phase → PipeIPC α → Phase → Option (Fifo.Op (Option α)) → Prop
  | quiet                                         : Transition p .idle p .idle none
  | acquireEmpty (h : p.nempty = n + 1)           :
    Transition p .idle { p with nempty := n } .acquired none
  | abandon (h : p.shutdown)                      : Transition p .acquired p .idle none
  | pass (h : p.shutdown = false)                 : Transition p .acquired p .storing none
  | store (h : p.capacity ≠ 0)                    :
    Transition p .storing (p.store ptr) .postingStored (some (.enq ptr))
  | postStored                                    :
    Transition p .postingStored { p with nstored := p.nstored + 1 } .idle none
  | acquireStored (h : p.nstored = n + 1)         :
    Transition p .idle { p with nstored := n } .taking none
  | take (h : p.capacity ≠ 0)                     :
    Transition p .taking p.take.2 .postingEmpty (some (.deq p.take.1))
  | postEmpty                                     :
    Transition p .postingEmpty { p with nempty := p.nempty + 1 } .idle none
  | shut                                          :
    Transition p .idle { p with shutdown := true } .notifying none
  | notifyStored                                  :
    Transition p .notifying { p with nstored := p.nstored + 1 } .notifying none
  | notifyEmpty                                   :
    Transition p .notifying { p with nempty := p.nempty + 1 } .idle none
  | faultStoring (h : p.capacity = 0)             : Transition p .storing p .faultedStoring none
  | faultTaking (h : p.capacity = 0)              : Transition p .taking p .faultedTaking none

theorem Send.step_transition {s s' : Send α} {x : Bool} (h : s.step x p = some (p', s')) :
    Transition p (Call.send s).phase p' (Call.send s').phase (Call.send s').op := by
  obtain ⟨ptr, mode, t, pc⟩ := s
  cases pc <;> simp only [step, Option.some.injEq, Prod.mk.injEq, reduceCtorEq] at h
  case entered =>
    obtain ⟨rfl, rfl⟩ := h
    cases h : p.shutdown <;> simpa [Call.phase, Call.op, h] using .quiet
  case waiting =>
    have ⟨⟨n, ok⟩, hw, h⟩ := Option.map_eq_some_iff.mp h
    obtain ⟨rfl, rfl⟩ := Prod.mk.inj h
    obtain ⟨rfl, hn⟩ | ⟨rfl, hn, rfl⟩ := Semaphore.Wait.step_cases hw
    · exact .acquireEmpty hn
    · simpa [Call.phase, Call.op, ← hn] using .quiet
  case checking ok =>
    obtain ⟨rfl, rfl⟩ := h
    cases ok <;> cases h : p.shutdown <;> simp only [Call.phase, Call.op]
    case true.true  => exact .abandon h
    case true.false => exact .pass h
    all_goals exact .quiet
  case storing =>
    split at h <;> obtain ⟨rfl, rfl⟩ := Prod.mk.inj (Option.some.inj h)
    case isTrue hc  => exact .faultStoring hc
    case isFalse hc => exact .store hc
  case posting =>
    obtain ⟨rfl, rfl⟩ := h
    exact .postStored

theorem Receive.step_transition {r r' : Receive α} {x : Bool} (h : r.step x p = some (p', r')) :
    Transition p r.phase p' r'.phase (Call.receive r').op := by
  obtain ⟨ptr, t, pc⟩ := r
  cases pc <;> simp only [step, Option.some.injEq, Prod.mk.injEq, reduceCtorEq] at h
  case entered =>
    obtain ⟨rfl, rfl⟩ := h
    exact .quiet
  case waiting =>
    have ⟨⟨n, ok⟩, hw, h⟩ := Option.map_eq_some_iff.mp h
    obtain ⟨rfl, rfl⟩ := Prod.mk.inj h
    obtain ⟨rfl, hn⟩ | ⟨rfl, hn, rfl⟩ := Semaphore.Wait.step_cases hw
    · exact .acquireStored hn
    · simpa [phase, Call.op, ← hn] using .quiet
  case taking =>
    split at h <;> obtain ⟨rfl, rfl⟩ := Prod.mk.inj (Option.some.inj h)
    case isTrue hc  => exact .faultTaking hc
    case isFalse hc => exact .take hc
  case posting =>
    obtain ⟨rfl, rfl⟩ := h
    exact .postEmpty

theorem Shutdown.step_transition {s s' : Shutdown} (h : s.step p = some (p', s')) :
    Transition p (Call.shutdown (α := α) s).phase p' (Call.shutdown (α := α) s').phase none := by
  cases s <;> simp only [step, Option.some.injEq, Prod.mk.injEq, reduceCtorEq] at h
  all_goals obtain ⟨rfl, rfl⟩ := h
  case entered       => exact .shut
  case postingStored => exact .notifyStored
  case postingEmpty  => exact .notifyEmpty

theorem Consumer.loop_phase {t : SizeT} {timedout pipe : Bool} :
    (Call.consumer (loop (α := α) t timedout pipe)).phase = .idle := by
  simp only [loop]
  split <;> rfl

theorem Consumer.loop_op {t : SizeT} {timedout pipe : Bool} :
    (Call.consumer (loop (α := α) t timedout pipe)).op = none := by
  simp only [loop]
  split <;> rfl

theorem Consumer.step_transition {s s' : Consumer α} {x : Bool} (h : s.step x p = some (p', s')) :
    Transition p (Call.consumer s).phase p' (Call.consumer s').phase (Call.consumer s').op := by
  cases s <;> simp only [step, Option.some.injEq, Prod.mk.injEq, reduceCtorEq] at h
  case testingShutdown =>
    obtain ⟨rfl, rfl⟩ := h
    split
    case isTrue  => exact loop_phase ▸ loop_op ▸ .quiet
    case isFalse => exact .quiet
  case testingSize =>
    obtain ⟨rfl, rfl⟩ := h
    exact loop_phase ▸ loop_op ▸ .quiet
  case receiving r =>
    split at h
    case h_1 hr =>
      obtain ⟨rfl, rfl⟩ := Prod.mk.inj (Option.some.inj h)
      simpa [Call.phase, Receive.phase, hr] using .quiet
    case h_2 =>
      have ⟨⟨_, _⟩, hs, h⟩ := Option.map_eq_some_iff.mp h
      obtain ⟨rfl, rfl⟩ := Prod.mk.inj h
      exact Receive.step_transition hs

-- A step of a call on a pipe is one of the member function that is called, or of the loop.
inductive Call.Steps (x : Bool) (p : PipeIPC α) : Call α → PipeIPC α → Call α → Prop
  | send {s s' p'} (h : Send.step x p s = some (p', s')) : Steps x p (.send s) p' (.send s')
  | receive {s s' p'} (h : Receive.step x p s = some (p', s')) : Steps x p (.receive s) p' (.receive s')
  | shutdown {s s' p'} (h : Shutdown.step p s = some (p', s')) : Steps x p (.shutdown s) p' (.shutdown s')
  | consumer {s s' p'} (h : Consumer.step x p s = some (p', s')) : Steps x p (.consumer s) p' (.consumer s')

theorem Call.steps {x : Bool} (h : (program α).step x p l = some (p', l')) : Call.Steps x p l p' l' := by
  cases l <;> simp only [program, step] at h
  all_goals
    obtain ⟨⟨_, _⟩, hs, h⟩ := Option.map_eq_some_iff.mp h
    obtain ⟨rfl, rfl⟩ := Prod.mk.inj h
  case send     => exact .send hs
  case receive  => exact .receive hs
  case shutdown => exact .shutdown hs
  case consumer => exact .consumer hs

theorem step_transition {x : Bool} (h : (program α).step x p l = some (p', l')) :
    Transition p l.phase p' l'.phase l'.op := by
  cases Call.steps h
  case send hs     => exact Send.step_transition hs
  case receive hs  => exact Receive.step_transition hs
  case shutdown hs => exact Shutdown.step_transition hs
  case consumer hs => exact Consumer.step_transition hs

theorem Call.phase_of_starts (h : l.starts) : l.phase = .idle := by
  cases l <;> simp_all [starts, phase, Receive.phase]
  case consumer c => cases c <;> simp_all

theorem Send.step_ptr {s s' : Send α} {x : Bool} (h : s.step x p = some (p', s')) :
    s'.ptr = s.ptr := by
  obtain ⟨ptr, mode, t, pc⟩ := s
  cases pc <;> simp only [step, Option.some.injEq, Prod.mk.injEq, reduceCtorEq] at h
  case waiting =>
    obtain ⟨_, _, h⟩ := Option.map_eq_some_iff.mp h
    exact (Prod.mk.inj h).right ▸ rfl
  case storing =>
    split at h <;> exact (Prod.mk.inj (Option.some.inj h)).right ▸ rfl
  all_goals exact h.right ▸ rfl

def Call.isShutdown : Call α → Bool
  | .shutdown _ => true
  | _           => false

theorem Call.isShutdown_of_step {x : Bool} (h : (program α).step x p l = some (p', l')) :
    l'.isShutdown = l.isShutdown := by
  cases Call.steps h <;> rfl

theorem Call.isShutdown_of_notifying (h : l.phase = .notifying) : l.isShutdown := by
  cases l <;> simp only [phase] at h
  case send s     => cases hs : s.pc <;> simp_all; split at h <;> simp_all
  case receive r  => cases hr : r.pc <;> simp_all [Receive.phase]
  case shutdown   => rfl
  case consumer k =>
    cases k <;> simp only [reduceCtorEq] at h
    case receiving r => cases hr : r.pc <;> simp_all [Receive.phase]

theorem Transition.shutdown_eq {φ φ' : Phase} {o : Option (Fifo.Op (Option α))}
    (t : Transition p φ p' φ' o) (h : φ' ≠ .notifying) : p'.shutdown = p.shutdown := by
  cases t <;> simp_all

-- Only a call to `Shutdown` shuts a pipe down.
theorem shutdown_eq {x : Bool} (h : (program α).step x p l = some (p', l'))
    (hl : l.isShutdown = false) : p'.shutdown = p.shutdown := by
  have hs := (Call.isShutdown_of_step h).trans hl
  refine (step_transition h).shutdown_eq fun hφ => ?_
  simp [Call.isShutdown_of_notifying hφ] at hs

-- Only the first step of a `Shutdown` sets `shutdown`.
theorem eq_entered_of_step {x : Bool} (h : (program α).step x p l = some (p', l')) (hd : p.shutdown = false)
    (hd' : p'.shutdown) : l = .shutdown .entered := by
  have hi : l.isShutdown := by
    by_contra hi
    simp [shutdown_eq h (Bool.eq_false_iff.mpr hi), hd] at hd'
  cases l <;> simp only [Call.isShutdown, Bool.false_eq_true] at hi
  case shutdown s =>
    obtain ⟨⟨_, _⟩, hs, h⟩ := Option.map_eq_some_iff.mp h
    obtain ⟨rfl, rfl⟩ := Prod.mk.inj h
    cases s <;> simp only [Shutdown.step, Option.some.injEq, Prod.mk.injEq, reduceCtorEq] at hs
    case entered => rfl
    all_goals simp [← hs.left, hd] at hd'

theorem Transition.acquired_of_lt {φ φ' : Phase} {o : Option (Fifo.Op (Option α))}
    (t : Transition p φ p' φ' o) (h : p'.nempty < p.nempty) :
    φ' = .acquired ∧ p.nempty = p'.nempty + 1 := by
  cases t <;> simp_all

theorem Call.checking_of_acquired (h : l.phase = .acquired) : ∃ s, l = .send s ∧ s.pc = .checking true := by
  cases l <;> simp only [phase] at h
  case send s     =>
    refine ⟨s, rfl, ?_⟩
    cases hs : s.pc <;> simp_all
    split at h <;> simp_all
  case receive r  => cases hr : r.pc <;> simp_all [Receive.phase]
  case shutdown s => cases s <;> simp_all
  case consumer k =>
    cases k <;> simp only [reduceCtorEq] at h
    case receiving r => cases hr : r.pc <;> simp_all [Receive.phase]

theorem Send.waiting_of_checking {s s' : Send α} {x ok : Bool} (h : s.step x p = some (p', s'))
    (hs : s'.pc = .checking ok) : s.pc = .waiting := by
  obtain ⟨ptr, mode, t, pc⟩ := s
  cases pc <;> simp only [step, Option.some.injEq, Prod.mk.injEq, reduceCtorEq] at h
  case waiting => rfl
  case storing => split at h <;> simp [← (Prod.mk.inj (Option.some.inj h)).right] at hs
  case posting => simp [← h.right] at hs
  all_goals
    simp only [← h.right] at hs
    split at hs <;> cases hs

-- Only a `Send` takes slots.
theorem waiting_of_nempty {x : Bool} (h : (program α).step x p l = some (p', l')) (hn : p'.nempty < p.nempty) :
    ∃ s, l = .send s ∧ s.pc = .waiting ∧ p.nempty = p'.nempty + 1 := by
  obtain ⟨hφ, he⟩ := (step_transition h).acquired_of_lt hn
  obtain ⟨s', rfl, hs'⟩ := Call.checking_of_acquired hφ
  cases Call.steps h
  case send hs => exact ⟨_, rfl, Send.waiting_of_checking hs hs', he⟩

-- The calls of a process that only receives.
def Call.receives : Call α → Bool
  | .receive _ | .consumer _ => true
  | _                        => false

theorem Call.op_ne_enq {ptr : Option α} (h : l.receives) : l.op ≠ some (.enq ptr) := by
  cases l <;> simp only [receives, Bool.false_eq_true] at h
  case receive    => simp [op]
  case consumer c => cases c <;> simp [op]

theorem Call.receives_of_step {x : Bool} (h : (program α).step x p l = some (p', l')) :
    l'.receives = l.receives := by
  cases Call.steps h <;> rfl

theorem Call.isShutdown_of_receives (h : l.receives) : l.isShutdown = false := by
  cases l <;> simp_all [receives, isShutdown]

end PipeIPC
