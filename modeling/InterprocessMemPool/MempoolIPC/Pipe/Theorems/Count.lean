import InterprocessMemPool.MempoolIPC.Pipe.Theorems.Layout

namespace PipeIPC

variable {α : Type*} {p p' : PipeIPC α} {c c' : Config α} {l l' : Call α} {capacity : SizeT}
variable {os : List (Fifo.Op (Option α))} {o : Option (Fifo.Op (Option α))} {x : Bool}

-- No `Receive` takes from the pipe while there is nothing in it.
def TakesStored (c : Config α) (a : Program.Action (Call α) Bool) : Prop :=
  At .taking c a → queue c ≠ []

instance [DecidableEq α] {a : Program.Action (Call α) Bool} : Decidable (TakesStored c a) :=
  inferInstanceAs (Decidable (At .taking c a → queue c ≠ []))

structure Count (p : PipeIPC α) (os : List (Fifo.Op (Option α))) : Prop where
  size   : p.size.toNat = (Fifo.log os).queue.length
  misses : (Fifo.log os).misses = 0

theorem Count.after {φ φ' : Phase} (h : Count p os) (t : Transition p φ p' φ' o)
    (hs : φ = .storing → (Fifo.log os).queue.length < p.capacity.toNat)
    (ht : φ = .taking → (Fifo.log os).queue ≠ []) : Count p' (os ++ o.toList) := by
  have hz := h.size
  have hm := h.misses
  cases t <;> simp only [Option.toList, List.append_nil]
  case store =>
    have := hs rfl
    have := p.capacity.toNat_lt
    constructor <;> simp only [Fifo.log_concat, Fifo.Log.apply_enq_misses, PipeIPC.store, hm]
    case size =>
      rw [SizeT.toNat_succ (by omega)]
      simp [hz]
  case take =>
    have hq := List.length_pos_iff.mpr (ht rfl)
    have := (Fifo.log os).apply_deq_misses (a := p.take.1)
    constructor <;> simp only [Fifo.log_concat, PipeIPC.take]
    case size   =>
      rw [SizeT.toNat_pred (by omega)]
      simp [hz]
    case misses =>
      simp only [List.length_tail, PipeIPC.take] at this
      omega
  all_goals exact ⟨hz, hm⟩

theorem count (h : ((system α capacity).restrict TakesStored).Reachable c) :
    Count c.shared (ops c) := by
  refine Program.invariant_restrict (I := fun c => Count c.shared (ops c)) ?_ ?_ ?_ |>.holds h
  · rintro _ rfl
    exact ⟨rfl, rfl⟩
  · intro _ _ _ h _ _
    exact h
  · intro c i x l p' l' hr h ht hl hp
    have hc := (tokens hr.of_restrict).capacity_eq
    rw [ops_after]
    refine h.after (step_transition hp) (fun hφ => ?_) (fun hφ => ht ((at_run hl).mpr hφ))
    exact hc ▸ length_lt_of_storing hr.of_restrict hl hφ

-- As long as no take finds the pipe empty, the two ring indices remain in step.
theorem storesInStep_of_takesStored (h : ((system α capacity).restrict TakesStored).Reachable c) :
    ((system α capacity).restrict StoresInStep).Reachable c :=
  h.restrict_mono fun hr _ _ => (count hr).misses ▸ dvd_zero _

theorem size_add_dequeued (h : Count p os) :
    p.size.toNat + (Fifo.dequeued os).length = (Fifo.enqueued os).length := by
  have := Fifo.length_dequeued_add_queue os
  rw [h.misses, ← h.size] at this
  omega

theorem not_faulted (h : ((system α capacity).restrict TakesStored).Reachable c) :
    ∀ {i : ℕ} {l}, c.calls[i]? = some l → ¬l.phase.Faulted := by
  refine Program.invariant_restrict
    (I := fun c => ∀ {i : ℕ} {l : Call α}, c.calls[i]? = some l → ¬l.phase.Faulted) ?_ ?_ ?_ |>.holds h
  · intro _ _ _ _ hl
    simp at hl
  · intro c l _ h _ hs i l' hl'
    cases Program.Config.enter_calls_get? hl'
    case inl hl => exact h hl
    case inr hl => simp [hl.right, Call.phase_of_starts hs, Phase.Faulted]
  · intro c i x l p' l' hr h ht hl hp j l₁ hj hf
    obtain ⟨rfl, rfl⟩ | ⟨_, hj⟩ := Program.Config.after_calls_get? hj
    case inr => exact h hj hf
    obtain ⟨hz, hφ⟩ := (step_transition hp).capacity_eq_zero hf
    have hroom := (tokens hr.of_restrict).room
    have hz : capacity.toNat = 0 := by simp [← (tokens hr.of_restrict).capacity_eq, hz]
    cases hφ
    case inl hφ =>
      have := length_lt_of_storing hr.of_restrict hl hφ
      omega
    case inr hφ =>
      have := List.length_pos_iff.mpr <| ht ((at_run hl).mpr hφ)
      omega

def Call.sending : Call α → Bool
  | .send c =>
    match c.pc with
    | .returned _ => false
    | _           => true
  | _       => false

-- A pipe that is shut down and has been emptied, with no `Send` left that could refill it.
structure Drained (c : Config α) : Prop where
  shutdown : c.shared.shutdown
  sends    : ∀ l ∈ c.calls, l.sending = false
  queue    : queue c = []

instance : Decidable (Drained c) :=
  decidable_of_iff (c.shared.shutdown ∧ (∀ l ∈ c.calls, l.sending = false) ∧ PipeIPC.queue c = [])
    ⟨fun ⟨hd, hs, hq⟩ => ⟨hd, hs, hq⟩, fun ⟨hd, hs, hq⟩ => ⟨hd, hs, hq⟩⟩

-- What is left of `Drained` once further calls are made: a new `Send` does not get past its first
-- check of `shutdown`.
structure Dry (c : Config α) : Prop where
  shutdown : c.shared.shutdown
  empty    : inFlight c Phase.stores + (PipeIPC.queue c).length = 0

theorem Call.stores_eq_zero (l : Call α) (h : l.sending = false) : l.phase.stores = 0 := by
  cases l <;> simp only [phase]
  case send s     =>
    obtain ⟨_, _, _, pc⟩ := s
    cases pc <;> simp_all [sending, Phase.stores]
  case receive r  => cases hr : r.pc <;> simp [Receive.phase, Phase.stores, hr]
  case shutdown s => cases s <;> rfl
  case consumer k =>
    cases k <;> try rfl
    case receiving r => cases hr : r.pc <;> simp [Receive.phase, Phase.stores, hr]

theorem Drained.dry (h : Drained c) : Dry c where
  shutdown := h.shutdown
  empty    := by
    simp only [h.queue, List.length_nil, Nat.add_zero]
    refine Program.Config.total_eq_zero_iff.mpr fun l hl => ?_
    exact l.stores_eq_zero (h.sends l hl)

theorem Dry.next {a : Program.Action (Call α) Bool} (h : Dry c)
    (hn : (program α).next c a = some c') : Dry c' := by
  obtain ⟨l, rfl, hl, rfl⟩ | ⟨i, x, l, p', l', rfl, hl, hp, rfl⟩ := Program.next_cases hn
  · refine ⟨h.shutdown, ?_⟩
    simpa [Call.phase_of_starts hl, Phase.stores] using h.empty
  · have t := step_transition hp
    have hs := t.shutdown_of_shutdown h.shutdown
    have h₁ := t.stores_le hs (queue c).length
    have h₂ := inFlight_after Phase.stores p' l' hl
    have h₃ := queue_after_length c i l p' l'
    have h₄ := h.empty
    have h₅ : l.phase.stores ≤ inFlight c Phase.stores := inFlight_le hl
    exact ⟨hs, by omega⟩

theorem Dry.size_eq_zero (h : Dry c) (hc : Count c.shared (ops c)) : c.shared.size = 0 := by
  have hz := h.empty
  have hs := hc.size
  simp only [queue] at hz
  exact UInt64.toNat_inj.mp (by simp; omega)

theorem Dry.operatorBool_eq_false (h : Dry c) (hc : Count c.shared (ops c)) :
    c.shared.operatorBool = false := by
  simp [operatorBool, h.shutdown, h.size_eq_zero hc]

-- The number of steps that a consumer is away from leaving its loop if it finds the pipe drained at
-- the next test.
def Receive.rank (c : Receive α) : ℕ :=
  match c.pc with
  | .entered                => 7
  | .waiting                => 6
  | .taking                 => 5
  | .posting                => 4
  | .returned _ | .faulted  => 3

def Consumer.rank : Consumer α → ℕ
  | .receiving c         => c.rank
  | .testingShutdown _ _ => 2
  | .testingSize _ _     => 1
  | .ended               => 0

theorem Receive.rank_lt {r r' : Receive α} (h : r.step x p = some (p', r')) : r'.rank < r.rank := by
  obtain ⟨ptr, t, pc⟩ := r
  cases pc <;> simp only [step, Option.some.injEq, Prod.mk.injEq, reduceCtorEq] at h
  case waiting =>
    obtain ⟨⟨_, ok⟩, _, h⟩ := Option.map_eq_some_iff.mp h
    obtain ⟨rfl, rfl⟩ := Prod.mk.inj h
    cases ok <;> simp [rank]
  case taking => split at h <;> obtain ⟨rfl, rfl⟩ := Prod.mk.inj (Option.some.inj h) <;> simp [rank]
  all_goals
    obtain ⟨rfl, rfl⟩ := h
    simp [rank]

theorem Consumer.rank_lt {k k' : Consumer α} (h : k.step x p = some (p', k'))
    (hd : p.shutdown) (hz : p.size = 0) : k'.rank < k.rank := by
  cases k <;> simp only [step, Option.some.injEq, Prod.mk.injEq, reduceCtorEq] at h
  case testingShutdown =>
    obtain ⟨rfl, rfl⟩ := h
    simp [hd, rank]
  case testingSize =>
    obtain ⟨rfl, rfl⟩ := h
    simp [hz, loop, rank]
  case receiving r =>
    split at h
    case h_1 hr =>
      obtain ⟨rfl, rfl⟩ := Prod.mk.inj (Option.some.inj h)
      simp [rank, Receive.rank, hr]
    case h_2 =>
      obtain ⟨⟨_, _⟩, hs, h⟩ := Option.map_eq_some_iff.mp h
      obtain ⟨rfl, rfl⟩ := Prod.mk.inj h
      exact Receive.rank_lt hs

theorem Dry.consumer_next {a : Program.Action (Call α) Bool} {i : ℕ} {k : Consumer α} (h : Dry c)
    (hc : Count c.shared (ops c)) (hk : c.calls[i]? = some (.consumer k))
    (hn : (program α).next c a = some c') :
    ∃ k', c'.calls[i]? = some (.consumer k') ∧ k'.rank + (if a.by i then 1 else 0) ≤ k.rank := by
  obtain ⟨hi, _⟩ := List.getElem?_eq_some_iff.mp hk
  obtain ⟨l, rfl, _, rfl⟩ | ⟨j, x, l, p', l', rfl, hl, hp, rfl⟩ := Program.next_cases hn
  · refine ⟨k, ?_, by simp [Program.Action.by]⟩
    simpa [Program.Config.enter, List.getElem?_append_left hi] using hk
  · by_cases he : j = i
    case neg =>
      refine ⟨k, ?_, by simp [Program.Action.by, he]⟩
      simpa [Program.Config.after, List.getElem?_set_ne he] using hk
    case pos =>
      obtain rfl := he
      obtain rfl := Option.some.inj (hl.symm.trans hk)
      obtain ⟨⟨_, k'⟩, hs, hl'⟩ := Option.map_eq_some_iff.mp hp
      obtain ⟨rfl, rfl⟩ := Prod.mk.inj hl'
      have := Consumer.rank_lt hs h.shutdown (h.size_eq_zero hc)
      exact ⟨k', by simp [Program.Config.after, hi], by simp [Program.Action.by]; omega⟩

theorem Dry.run {as : List (Program.Action (Call α) Bool)}
    (r : ((system α capacity).restrict TakesStored).Run c as c') (h : Dry c) : Dry c' := by
  induction r
  case refl         => exact h
  case step hs _ ih => exact ih (h.next hs.right)

-- Once the pipe is drained a consumer only takes so many more steps.
theorem Dry.consumer_run {as : List (Program.Action (Call α) Bool)} {i : ℕ} {k : Consumer α}
    (r : ((system α capacity).restrict TakesStored).Run c as c')
    (hr : ((system α capacity).restrict TakesStored).Reachable c) (h : Dry c)
    (hk : c.calls[i]? = some (.consumer k)) :
    ∃ k', c'.calls[i]? = some (.consumer k') ∧ k'.rank + as.countP (·.by i) ≤ k.rank := by
  induction r generalizing k
  case refl => exact ⟨k, hk, by simp⟩
  case step hs _ ih =>
    have ⟨_, hk₁, h₁⟩ := h.consumer_next (count hr) hk hs.right
    have ⟨k', hk₂, h₂⟩ := ih (hr.step hs) (h.next hs.right) hk₁
    refine ⟨k', hk₂, ?_⟩
    rw [List.countP_cons]
    omega

-- The tokens of `nstored` that a call has acquired and not made use of, or has yet to post.
def Call.owes (l : Call α) : ℕ :=
  l.phase.stored + match l with
    | .shutdown .postingStored => 1
    | _                        => 0

theorem Call.owes_of_starts (h : l.starts) : l.owes = 0 := by
  have := phase_of_starts h
  cases l <;> simp_all [owes, Phase.stored, starts]

theorem Call.owes_of_isShutdown (h : l.isShutdown = false) : l.owes = l.phase.stored := by
  cases l <;> simp_all [owes, isShutdown]

theorem inFlight_stored_le : inFlight c Phase.stored ≤ c.total Call.owes :=
  List.sum_le_sum fun _ _ => Nat.le_add_right ..

-- A take that finds a pointer uses up the token of that pointer.
theorem Transition.item_le_of_pos {φ φ' : Phase} {n : ℕ} (t : Transition p φ p' φ' o) (h : φ = .taking → 0 < n) :
    lengthAfter n o + p.nstored + φ.stored ≤ n + p'.nstored + φ'.stored := by
  cases t <;> simp [Phase.stored, lengthAfter]
  case take =>
    have := h rfl
    omega
  all_goals omega

theorem Call.owes_after {n : ℕ} (h : (program α).step x p l = some (p', l'))
    (ht : l.phase = .taking → 0 < n) :
    lengthAfter n l'.op + p.nstored + l.owes ≤ n + p'.nstored + l'.owes := by
  cases hl : l.isShutdown
  case false =>
    rw [owes_of_isShutdown hl, owes_of_isShutdown ((isShutdown_of_step h).trans hl)]
    exact (step_transition h).item_le_of_pos ht
  case true =>
    cases l <;> simp only [isShutdown, Bool.false_eq_true] at hl
    case shutdown s =>
      obtain ⟨⟨_, _⟩, hs, h⟩ := Option.map_eq_some_iff.mp h
      obtain ⟨rfl, rfl⟩ := Prod.mk.inj h
      cases s <;> simp only [Shutdown.step, Option.some.injEq, Prod.mk.injEq, reduceCtorEq] at hs
      all_goals
        obtain ⟨rfl, rfl⟩ := hs
        simp [owes, phase, Phase.stored, op, lengthAfter]
        try omega

-- Once the pipe is shut down there is one more token, or one that is on its way, than there are pointers.
theorem length_lt_of_shutdown (h : ((system α capacity).restrict TakesStored).Reachable c) :
    c.shared.shutdown → (queue c).length < c.shared.nstored + c.total Call.owes := by
  refine Program.invariant_restrict
    (I := fun c => c.shared.shutdown → (queue c).length < c.shared.nstored + c.total Call.owes) ?_ ?_ ?_ |>.holds h
  · rintro _ rfl hd
    simp [new] at hd
  · intro c l _ h _ hs hd
    simpa [Call.owes_of_starts hs] using h hd
  · intro c i x l p' l' hr h ht hl hs hd
    have htally := Program.Config.total_after Call.owes p' l' hl
    have hq := queue_after_length c i l p' l'
    simp only [Program.Config.after_shared] at hd ⊢
    cases hsd : c.shared.shutdown
    case false =>
      obtain rfl := eq_entered_of_step hs hsd hd
      have hi := (tokens hr.of_restrict).item
      have hle := inFlight_stored_le (c := c)
      obtain ⟨rfl, rfl⟩ : p' = { c.shared with shutdown := true } ∧ l' = .shutdown .postingStored := by
        simpa [program, Call.step, Shutdown.step, eq_comm] using hs
      simp only [Call.owes, Call.phase, Phase.stored, Call.op, lengthAfter] at htally hq ⊢
      omega
    case true =>
      have hlt := h hsd
      have hle := Call.owes_after (n := (queue c).length) hs
        fun hφ => List.length_pos_iff.mpr (ht ((at_run hl).mpr hφ))
      omega

-- No call can take a step.
def Halted (c : Config α) : Prop :=
  ∀ l ∈ c.calls, ∀ x, (program α).step x c.shared l = none

theorem Receive.phase_of_halted {r : Receive α} (hs : r.step x p = none) :
    r.phase = .idle ∨ r.phase = .faultedTaking := by
  cases hp : r.pc <;> simp_all [step, phase]
  split at hs <;> cases hs

theorem Call.owes_of_halted (hs : (program α).step x p l = none) (hf : ¬l.phase.Faulted) : l.owes = 0 := by
  cases l <;> simp only [program, step, Option.map_eq_none_iff] at hs
  case send s =>
    cases hp : s.pc <;> simp_all [owes, phase, Phase.stored, Send.step]
  case receive r =>
    have := Receive.phase_of_halted hs
    simp_all [owes, phase, Phase.stored, Phase.Faulted]
  case shutdown s => cases s <;> simp_all [owes, phase, Phase.stored, Shutdown.step]
  case consumer k =>
    cases k <;> try rfl
    case receiving r =>
      simp only [Consumer.step] at hs
      split at hs
      case h_1 => cases hs
      case h_2 =>
        have := Receive.phase_of_halted (Option.map_eq_none_iff.mp hs)
        simp_all [owes, phase, Phase.stored, Phase.Faulted]

-- A consumer is only blocked while there is no token for it.
theorem Consumer.ended_of_halted {k : Consumer α} (hs : k.step true p = none) (hn : 0 < p.nstored)
    (hf : ¬(Call.consumer k).phase.Faulted) : k = .ended := by
  cases k <;> simp only [step, reduceCtorEq] at hs ⊢
  case receiving r =>
    split at hs
    case h_1 => cases hs
    case h_2 hne =>
      replace hs := Option.map_eq_none_iff.mp hs
      cases hp : r.pc <;> simp only [Receive.step, hp, reduceCtorEq] at hs
      case waiting =>
        have := (Semaphore.Wait.step_eq_none_iff.mp (Option.map_eq_none_iff.mp hs)).left
        omega
      case taking     => split at hs <;> cases hs
      case returned b => exact hne b hp
      case faulted    => simp [Call.phase, Receive.phase, hp, Phase.Faulted] at hf

-- The token of the `Shutdown` is there for whoever waits, as nobody has taken it for a pointer.
theorem Dry.ended_of_halted {k : Consumer α} {i : ℕ} (h : ((system α capacity).restrict TakesStored).Reachable c)
    (hd : Dry c) (hh : Halted c) (hk : c.calls[i]? = some (.consumer k)) : k = .ended := by
  have howes : c.total Call.owes = 0 := Program.Config.total_eq_zero_iff.mpr fun l hl =>
    have ⟨_, hi⟩ := List.getElem?_of_mem hl
    Call.owes_of_halted (hh l hl true) (not_faulted h hi)
  have hlt := length_lt_of_shutdown h hd.shutdown
  have hs := hh _ (List.mem_of_getElem? hk) true
  simp only [program, Call.step, Option.map_eq_none_iff] at hs
  exact Consumer.ended_of_halted hs (by omega) (not_faulted h hk)

-- The number of steps that a call is away from its end once the pipe is drained.
def Send.rank (c : Send α) : ℕ :=
  match c.pc with
  | .entered               => 5
  | .waiting               => 4
  | .checking _            => 3
  | .storing               => 2
  | .posting               => 1
  | .returned _ | .faulted => 0

def Shutdown.rank : Shutdown → ℕ
  | .entered       => 3
  | .postingStored => 2
  | .postingEmpty  => 1
  | .returned      => 0

def Call.rank : Call α → ℕ
  | .send c     => c.rank
  | .receive c  => c.rank
  | .shutdown c => c.rank
  | .consumer c => c.rank

theorem Send.rank_lt {s s' : Send α} (h : s.step x p = some (p', s')) : s'.rank < s.rank := by
  obtain ⟨ptr, mode, t, pc⟩ := s
  cases pc <;> simp only [step, Option.some.injEq, Prod.mk.injEq, reduceCtorEq] at h
  case waiting =>
    obtain ⟨_, _, h⟩ := Option.map_eq_some_iff.mp h
    obtain ⟨rfl, rfl⟩ := Prod.mk.inj h
    simp [rank]
  case storing => split at h <;> obtain ⟨rfl, rfl⟩ := Prod.mk.inj (Option.some.inj h) <;> simp [rank]
  case entered =>
    obtain ⟨rfl, rfl⟩ := h
    cases p.shutdown <;> simp [rank]
  case checking ok =>
    obtain ⟨rfl, rfl⟩ := h
    cases ok <;> cases p.shutdown <;> simp [rank]
  case posting =>
    obtain ⟨rfl, rfl⟩ := h
    simp [rank]

theorem Shutdown.rank_lt {s s' : Shutdown} (h : s.step p = some (p', s')) : s'.rank < s.rank := by
  cases s <;> simp only [step, Option.some.injEq, Prod.mk.injEq, reduceCtorEq] at h
  all_goals
    obtain ⟨rfl, rfl⟩ := h
    simp [rank]

theorem Call.rank_lt (h : (program α).step x p l = some (p', l')) (hd : p.shutdown) (hz : p.size = 0) :
    l'.rank < l.rank := by
  cases Call.steps h
  case send hs     => exact Send.rank_lt hs
  case receive hs  => exact Receive.rank_lt hs
  case shutdown hs => exact Shutdown.rank_lt hs
  case consumer hs => exact Consumer.rank_lt hs hd hz

-- Once the pipe is drained, a run in which no further calls are made comes to an end.
theorem Dry.length_le {as : List (Program.Action (Call α) Bool)}
    (r : ((system α capacity).restrict TakesStored).Run c as c')
    (hr : ((system α capacity).restrict TakesStored).Reachable c) (h : Dry c) (he : ∀ l, .enter l ∉ as) :
    as.length + c'.total Call.rank ≤ c.total Call.rank := by
  induction r
  case refl => simp
  case step hs _ ih =>
    have hle := ih (hr.step hs) (h.next hs.right) fun l hl => he l (.tail _ hl)
    obtain ⟨l, rfl, _⟩ | ⟨i, x, l, p', l', rfl, hl, hp, rfl⟩ := Program.next_cases hs.right
    case inl => exact absurd (.head _) (he l)
    case inr =>
      have := Program.Config.total_after Call.rank p' l' hl
      have := Call.rank_lt hp h.shutdown (h.size_eq_zero (count hr))
      rw [List.length_cons]
      omega

-- While every `Receive` finds a pointer, `size` is exact. So the test of a consumer's loop fails for
-- good once the pipe is drained: all calls come to a stop after a bounded number of steps, and none of
-- them leaves a consumer behind that has not reached its end.
theorem size_exact_of_takesStored (h : ((system α capacity).restrict TakesStored).Reachable c) :
    c.shared.size.toNat + (Fifo.dequeued (ops c)).length = (Fifo.enqueued (ops c)).length ∧
    (∀ l ∈ c.calls, ¬l.phase.Faulted) ∧
    (Drained c → ∀ as c₁, ((system α capacity).restrict TakesStored).Run c as c₁ →
      c₁.shared.operatorBool = false ∧
      ∀ bs c₂, ((system α capacity).restrict TakesStored).Run c₁ bs c₂ →
        ((∀ l, .enter l ∉ bs) → bs.length ≤ c₁.total Call.rank) ∧
        ∀ (i : ℕ) k, c₁.calls[i]? = some (.consumer k) →
          ∃ k', c₂.calls[i]? = some (.consumer k') ∧ k'.rank + bs.countP (·.by i) ≤ k.rank ∧
            (Halted c₂ → k' = .ended)) := by
  refine ⟨size_add_dequeued (count h), fun l hl => ?_, fun hd as c₁ r => ?_⟩
  · have ⟨_, hi⟩ := List.getElem?_of_mem hl
    exact not_faulted h hi
  · have h₁ := hd.dry.run r
    have hr₁ := r.reachable h
    refine ⟨h₁.operatorBool_eq_false (count hr₁), fun bs c₂ r₂ => ⟨fun he => ?_, fun i k hk => ?_⟩⟩
    · exact Nat.le_of_add_right_le (h₁.length_le r₂ hr₁ he)
    · have ⟨k', hk', hle⟩ := h₁.consumer_run r₂ hr₁ hk
      exact ⟨k', hk', hle, fun hh => (h₁.run r₂).ended_of_halted (r₂.reachable hr₁) hh hk'⟩

-- The consumer has still to return from its last `Receive` when the pipe is shut down.
theorem size_exact_of_takesStored_run : ∃ c, ((system ℕ 1).restrict TakesStored).Reachable c ∧
    (Drained c ∧ Fifo.enqueued (ops c) = [some 7]) ∧
    c.shared.size.toNat + (Fifo.dequeued (ops c)).length = (Fifo.enqueued (ops c)).length ∧
    c.shared.operatorBool = false ∧
    ∃ bs c₂, ((system ℕ 1).restrict TakesStored).Run c bs c₂ ∧ bs.length = 6 ∧ Halted c₂ ∧
      c₂.calls[0]? = some (.consumer .ended) := by
  let bs : List (Program.Action (Call ℕ) Bool) :=
    [.run 0 false, .run 0 false, .run 0 false, .run 0 false, .run 2 false, .run 2 false]
  obtain ⟨c, hr, ⟨hd, he, hk⟩, hx⟩ : ∃ c, ((system ℕ 1).restrict TakesStored).Reachable c ∧
      (Drained c ∧ Fifo.enqueued (ops c) = [some 7] ∧
        c.calls[0]? = some (.consumer (.receiving { ptr := some 7, timeout_seconds := 5, pc := .posting }))) ∧
      (System.exec (program ℕ).next TakesStored c bs).any fun c₂ =>
        c₂.calls = [.consumer .ended, .send { ptr := some 7, pc := .returned false }, .shutdown .returned] :=
    Program.exec_reachable (s := new 1) rfl <| show Option.any _ (System.exec _ _ _ [
      .enter (.consumer (.testingShutdown 5 false)), .run 0 false, .run 0 false,
      .enter (.send { ptr := some 7 }), .run 1 false, .run 1 false, .run 1 false, .run 1 false,
      .run 1 false, .run 0 false, .run 0 false,
      .enter (.shutdown .entered), .run 2 false]) by decide +kernel
  obtain ⟨c₂, hx, hc⟩ := (Option.any_eq_true ..).mp hx
  replace hc := of_decide_eq_true hc
  have hh : Halted c₂ := by
    rw [Halted, hc]
    simp only [List.forall_mem_cons]
    exact ⟨fun _ => rfl, fun _ => rfl, fun _ => rfl, by simp⟩
  have ⟨hs, _, hdr⟩ := size_exact_of_takesStored hr
  have ⟨hb, hrun⟩ := hdr hd [] c .refl
  have ⟨_, hk₂, _, hend⟩ := (hrun bs c₂ (System.exec_run hx)).right 0 _ hk
  exact ⟨c, hr, ⟨hd, he⟩, hs, hb, bs, c₂, System.exec_run hx, rfl, hh, hend hh ▸ hk₂⟩

-- A blocked `Receive` that is woken up by a `Shutdown` takes the wake-up for a pointer.
theorem shutdown_wraps_size : ∃ c, (system ℕ 1).Reachable c ∧ Drained c ∧
    Fifo.enqueued (ops c) = [] ∧ Fifo.dequeued (ops c) = [none] ∧
    c.shared.size.toNat = 2 ^ 64 - 1 ∧ c.shared.operatorBool = true := by
  rw [← System.restrict_true (S := system ℕ 1)]
  exact Program.exec_reachable (s := new 1) rfl <| show Option.any _ (System.exec _ _ _ [
    .enter (.receive {}), .run 0 false, .enter (.shutdown .entered), .run 1 false, .run 1 false,
    .run 1 false, .run 0 false, .run 0 false, .run 0 false]) by decide +kernel

end PipeIPC
