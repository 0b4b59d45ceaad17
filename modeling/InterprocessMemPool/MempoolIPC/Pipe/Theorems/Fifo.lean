import InterprocessMemPool.MempoolIPC.Pipe.Theorems.Count

namespace PipeIPC

variable {α : Type*} {p p' : PipeIPC α} {c c' : Config α} {l l' : Call α} {capacity : SizeT}
variable {x : Bool}

theorem ops_prefix {S : Config α → Program.Action (Call α) Bool → Prop}
    {as : List (Program.Action (Call α) Bool)}
    (r : ((system α capacity).restrict S).Run c as c') : ops c <+: ops c' := by
  induction r
  case refl => exact List.prefix_rfl
  case step hs _ ih =>
    refine List.IsPrefix.trans ?_ ih
    obtain ⟨_, rfl, _, rfl⟩ | ⟨_, _, _, _, _, rfl, _, _, rfl⟩ := Program.next_cases hs.right
    · exact List.prefix_rfl
    · rw [ops_after]
      exact List.prefix_append ..

-- Whatever is in the pipe is returned before all that is stored later, and in the order in which it
-- was stored.
theorem returned_in_order {as : List (Program.Action (Call α) Bool)} (hc : 0 < capacity)
    (h : ((system α capacity).restrict StoresInStep).Reachable c)
    (r : ((system α capacity).restrict StoresInStep).Run c as c') :
    ∃ taken stored, (Fifo.log (ops c')).hits = (Fifo.log (ops c)).hits ++ taken ∧
      queue c ++ stored = taken ++ queue c' := by
  have ⟨os, ho⟩ := ops_prefix r
  have ⟨taken, ht⟩ := Fifo.hits_prefix (ops c) os
  have h₁ := (layout hc h).hits
  have h₂ := (layout hc (r.reachable h)).hits
  rw [← ho, Fifo.enqueued_append, h₁, ← ht, List.append_assoc, List.append_assoc,
    List.append_cancel_left_eq, ho] at h₂
  exact ⟨taken, Fifo.enqueued os, ho ▸ ht.symm, h₂⟩

theorem kept_of_storesInStep (hc : 0 < capacity)
    (h : ((system α capacity).restrict StoresInStep).Reachable c) :
    (∀ j < (queue c).length,
      c.shared.items[(c.shared.indexPop.toNat + j) % capacity.toNat]? = (queue c)[j]?) ∧
    Fifo.enqueued (ops c) = (Fifo.log (ops c)).hits ++ queue c ∧
    (queue c).length ≤ c.shared.nstored + inFlight c Phase.stored ∧
    ∀ as c', ((system α capacity).restrict StoresInStep).Run c as c' →
      ∃ taken stored, (Fifo.log (ops c')).hits = (Fifo.log (ops c)).hits ++ taken ∧
        queue c ++ stored = taken ++ queue c' := by
  have hl := layout hc h
  refine ⟨?_, hl.hits, (tokens h.of_restrict).item, fun _ _ => returned_in_order hc h⟩
  exact hl.items_length ▸ hl.holds.window

theorem kept_of_storesInStep_run : ∃ c, ((system ℕ 2).restrict StoresInStep).Reachable c ∧
    (queue c = [some 8] ∧ c.shared.shutdown ∧ Fifo.dequeued (ops c) = [none, none, some 7]) ∧
    (∀ j < (queue c).length, c.shared.items[(c.shared.indexPop.toNat + j) % 2]? = (queue c)[j]?) ∧
    Fifo.enqueued (ops c) = (Fifo.log (ops c)).hits ++ queue c := by
  have ⟨c, hr, hq⟩ : ∃ c, ((system ℕ 2).restrict StoresInStep).Reachable c ∧
      queue c = [some 8] ∧ c.shared.shutdown ∧ Fifo.dequeued (ops c) = [none, none, some 7] :=
    Program.exec_reachable (s := new 2) rfl <| show Option.any _ (System.exec _ _ _ [
      .enter (.send { ptr := some 7 }), .run 0 false, .run 0 false, .run 0 false,
      .enter (.send { ptr := some 8 }), .run 1 false, .run 1 false, .run 1 false,
      .enter (.shutdown .entered), .run 2 false, .run 2 false, .run 2 false,
      .enter (.shutdown .entered), .run 3 false, .run 3 false, .run 3 false,
      .enter (.receive {}), .run 4 false, .run 4 false, .run 4 false,
      .enter (.receive {}), .run 5 false, .run 5 false, .run 5 false,
      .run 0 false, .run 1 false, .run 0 false, .run 1 false,
      .enter (.receive {}), .run 6 false, .run 6 false, .run 6 false]) by decide +kernel
  have ⟨hw, hh, _⟩ := kept_of_storesInStep (by decide) hr
  exact ⟨c, hr, hq, hw, hh⟩

-- A `Send` that has passed its checks stores behind the back of the `Receive` that was woken up by
-- the `Shutdown` in between.
theorem shutdown_skips_pointer : ∃ c, (system ℕ 2).Reachable c ∧
    (∀ l ∈ c.calls, l.phase = .idle) ∧ Fifo.enqueued (ops c) = [some 7] ∧
    Fifo.dequeued (ops c) = [none] ∧ c.shared.items = [some 7, none] ∧ c.shared.indexPop = 1 := by
  rw [← System.restrict_true (S := system ℕ 2)]
  exact Program.exec_reachable (s := new 2) rfl <| show Option.any _ (System.exec _ _ _ [
    .enter (.send { ptr := some 7 }), .run 0 false, .run 0 false, .run 0 false,
    .enter (.shutdown .entered), .run 1 false, .run 1 false, .run 1 false,
    .enter (.receive {}), .run 2 false, .run 2 false, .run 2 false, .run 2 false,
    .run 0 false, .run 0 false]) by decide +kernel

def NoShutdown (_ : Config α) : Program.Action (Call α) Bool → Prop
  | .enter (.shutdown _) => False
  | _                    => True

instance : DecidablePred (NoShutdown c)
  | .enter (.shutdown _) => inferInstanceAs (Decidable False)
  | .enter (.send _)     => inferInstanceAs (Decidable True)
  | .enter (.receive _)  => inferInstanceAs (Decidable True)
  | .enter (.consumer _) => inferInstanceAs (Decidable True)
  | .run _ _             => inferInstanceAs (Decidable True)

-- What it means for a pipe that no call has been made to `Shutdown`.
structure Open (c : Config α) : Prop where
  shutdown : c.shared.shutdown = false
  calls    : ∀ {i : ℕ} {l}, c.calls[i]? = some l → l.isShutdown = false
  history  : ∀ r ∈ c.history, r.pre.1.shutdown = false

theorem isOpen (h : ((system α capacity).restrict NoShutdown).Reachable c) : Open c := by
  refine Program.invariant_restrict (I := Open) ?_ ?_ ?_ |>.holds h
  · rintro _ rfl
    exact ⟨rfl, by simp, by simp⟩
  · intro c l _ h hn _
    refine ⟨h.shutdown, fun hl => ?_, h.history⟩
    cases Program.Config.enter_calls_get? hl
    case inl hl => exact h.calls hl
    case inr hl => rw [hl.right]; cases l <;> simp_all [NoShutdown, Call.isShutdown]
  · intro c i x l p' l' _ h _ hl hp
    refine ⟨(shutdown_eq hp (h.calls hl)).trans h.shutdown, fun hj => ?_, fun r hr => ?_⟩
    · obtain ⟨rfl, rfl⟩ | ⟨_, hj⟩ := Program.Config.after_calls_get? hj
      · exact (Call.isShutdown_of_step hp).trans (h.calls hl)
      · exact h.calls hj
    · simp only [Program.Config.after_history, List.mem_append, List.mem_singleton] at hr
      cases hr
      case inl hr => exact h.history r hr
      case inr hr => exact hr ▸ h.shutdown

-- Without a `Shutdown` there are no tokens but those that stand for a stored pointer.
theorem queue_ne_nil_of_taking {i : ℕ} (h : ((system α capacity).restrict NoShutdown).Reachable c)
    (hl : c.calls[i]? = some l) (hφ : l.phase = .taking) : queue c ≠ [] := by
  have h₁ := (tokens h.of_restrict).stored (isOpen h).shutdown
  have h₂ : l.phase.stored ≤ inFlight c Phase.stored := inFlight_le hl
  simp only [hφ, Phase.stored] at h₂
  exact List.length_pos_iff.mp (by omega)

theorem takesStored_of_noShutdown (h : ((system α capacity).restrict NoShutdown).Reachable c) :
    ((system α capacity).restrict TakesStored).Reachable c := by
  refine h.restrict_mono fun {c a} hr _ ht => ?_
  cases a
  case enter => exact ht.elim
  case run i x =>
    have ⟨_, hl, hφ⟩ := Option.map_eq_some_iff.mp ht
    exact queue_ne_nil_of_taking hr hl hφ

theorem layout_of_noShutdown (hc : 0 < capacity)
    (h : ((system α capacity).restrict NoShutdown).Reachable c) :
    Layout capacity c.shared (ops c) :=
  layout hc <| storesInStep_of_takesStored <| takesStored_of_noShutdown h

theorem Layout.run {φ φ' : Phase} {os : List (Fifo.Op (Option α))} {o : Option (Fifo.Op (Option α))}
    (h : Layout capacity p os) (t : Transition p φ p' φ' o)
    (hs : φ = .storing → (Fifo.log os).queue.length < capacity.toNat)
    (ht : φ = .taking → (Fifo.log os).queue ≠ []) :
    (Fifo.bounded (Option α) capacity.toNat).Run (Fifo.log os).queue o.toList
      (Fifo.log (os ++ o.toList)).queue := by
  cases t <;> simp only [Option.toList, List.append_nil]
  case store => exact .single ⟨hs rfl, by simp⟩
  case take  =>
    refine .single ?_
    have ⟨_, _, hq⟩ := List.exists_cons_of_ne_nil (ht rfl)
    simp [Fifo.bounded, h.take_eq_headD, hq]
  all_goals exact .refl

theorem refines (hc : 0 < capacity) : ((system α capacity).restrict NoShutdown).Refines
    (Fifo.bounded (Option α) capacity.toNat) (fun c q => q = queue c) ops where
  init {c} h := by
    have ⟨_, _, hh⟩ := h
    exact ⟨[], rfl, by simp [queue, ops, hh], by simp [ops, hh]⟩
  step {c a c' q} hr hq hs := by
    obtain ⟨_, rfl, _, rfl⟩ | ⟨i, x, l, p', l', rfl, hl, hp, rfl⟩ := Program.next_cases hs.right
    · exact ⟨[], q, .refl, hq, by simp⟩
    · refine ⟨l'.op.toList, _, hq ▸ ?_, rfl, ops_after⟩
      rw [queue, queue, ops_after]
      exact (layout_of_noShutdown hc hr).run (step_transition hp)
        (length_lt_of_storing hr.of_restrict hl) (queue_ne_nil_of_taking hr hl)

-- The steps of a call that has gone without effect so far.
def Quiet (rs : List (Program.Record (PipeIPC α) (Call α))) : Prop :=
  ∀ r ∈ rs, r.post.1 = r.pre.1

theorem Quiet.concat {rs : List (Program.Record (PipeIPC α) (Call α))} {i : ℕ} (h : Quiet rs) :
    Quiet (rs ++ [⟨i, (p, l), (p, l')⟩]) := by
  intro r hr
  simp only [List.mem_append, List.mem_singleton] at hr
  cases hr
  case inl hr => exact h r hr
  case inr hr => rw [hr]

-- A `Send` or a `Receive` that has returned with an error, or because it has timed out.
def Call.gaveUp : Call α → Prop
  | .send s    => s.pc = .returned true
  | .receive r => r.pc = .returned true
  | _          => False

instance : DecidablePred (Call.gaveUp (α := α))
  | .send s     => inferInstanceAs (Decidable (s.pc = .returned true))
  | .receive r  => inferInstanceAs (Decidable (r.pc = .returned true))
  | .shutdown _ => inferInstanceAs (Decidable False)
  | .consumer _ => inferInstanceAs (Decidable False)

-- Which steps of a call are without effect, given how far it has got.
def Call.Trace (l : Call α) (rs : List (Program.Record (PipeIPC α) (Call α))) : Prop :=
  match l with
  | .send s    =>
    match s.pc with
    | .entered | .waiting | .checking false => Quiet rs
    | .returned true                        => Quiet rs ∨ ∃ r ∈ rs, r.pre.1.shutdown
    | _                                     => True
  | .receive r =>
    match r.pc with
    | .entered | .waiting | .returned true => Quiet rs
    | _                                    => True
  | _          => True

theorem Call.trace_of_starts (h : l.starts) : l.Trace [] := by
  cases l <;> simp_all [starts, Trace, Quiet]

theorem Send.trace_step {s s' : Send α} {i : ℕ}
    {rs : List (Program.Record (PipeIPC α) (Call α))} (ht : (Call.send s).Trace rs)
    (h : s.step x p = some (p', s')) :
    (Call.send s').Trace (rs ++ [⟨i, (p, .send s), (p', .send s')⟩]) := by
  obtain ⟨ptr, mode, t, pc⟩ := s
  cases pc <;> simp only [step, Option.some.injEq, Prod.mk.injEq, reduceCtorEq] at h
  case entered =>
    obtain ⟨rfl, rfl⟩ := h
    cases hd : p.shutdown <;> simp_all [Call.Trace, Quiet.concat]
  case waiting =>
    obtain ⟨⟨n, ok⟩, hw, h⟩ := Option.map_eq_some_iff.mp h
    obtain ⟨rfl, rfl⟩ := Prod.mk.inj h
    obtain ⟨rfl, _⟩ | ⟨rfl, hn, rfl⟩ := Semaphore.Wait.step_cases hw
    · trivial
    · simpa [Call.Trace, ← hn] using Quiet.concat ht
  case checking ok =>
    obtain ⟨rfl, rfl⟩ := h
    cases ok <;> cases hd : p.shutdown <;> simp_all [Call.Trace, Quiet.concat]
  case storing =>
    split at h <;> obtain ⟨rfl, rfl⟩ := Prod.mk.inj (Option.some.inj h) <;> trivial
  case posting =>
    obtain ⟨rfl, rfl⟩ := h
    trivial

theorem Receive.trace_step {r r' : Receive α} {i : ℕ}
    {rs : List (Program.Record (PipeIPC α) (Call α))} (ht : (Call.receive r).Trace rs)
    (h : r.step x p = some (p', r')) :
    (Call.receive r').Trace (rs ++ [⟨i, (p, .receive r), (p', .receive r')⟩]) := by
  obtain ⟨ptr, t, pc⟩ := r
  cases pc <;> simp only [step, Option.some.injEq, Prod.mk.injEq, reduceCtorEq] at h
  case entered =>
    obtain ⟨rfl, rfl⟩ := h
    exact Quiet.concat ht
  case waiting =>
    obtain ⟨⟨n, ok⟩, hw, h⟩ := Option.map_eq_some_iff.mp h
    obtain ⟨rfl, rfl⟩ := Prod.mk.inj h
    obtain ⟨rfl, _⟩ | ⟨rfl, hn, rfl⟩ := Semaphore.Wait.step_cases hw
    · trivial
    · simpa [Call.Trace, ← hn] using Quiet.concat ht
  case taking =>
    split at h <;> obtain ⟨rfl, rfl⟩ := Prod.mk.inj (Option.some.inj h) <;> trivial
  case posting =>
    obtain ⟨rfl, rfl⟩ := h
    trivial

theorem Call.trace_step {i : ℕ} {rs : List (Program.Record (PipeIPC α) (Call α))}
    (ht : l.Trace rs) (h : (program α).step x p l = some (p', l')) :
    l'.Trace (rs ++ [⟨i, (p, l), (p', l')⟩]) := by
  cases Call.steps h
  case send hs    => exact Send.trace_step ht hs
  case receive hs => exact Receive.trace_step ht hs
  case shutdown   => trivial
  case consumer   => trivial

theorem unchanged_of_gaveUp {i : ℕ} (h : ((system α capacity).restrict NoShutdown).Reachable c)
    (hl : c.calls[i]? = some l) (hg : l.gaveUp) : Quiet (c.recordsOf i) := by
  have ht : l.Trace (c.recordsOf i) :=
    Program.local_invariant Call.trace_of_starts Call.trace_step h.of_restrict hl
  cases l <;> simp only [Call.gaveUp] at hg
  case receive r => simpa [Call.Trace, hg] using ht
  case send s    =>
    simp only [Call.Trace, hg] at ht
    refine ht.resolve_right fun ⟨r, hr, hd⟩ => ?_
    simp [(isOpen h).history r (List.mem_of_mem_filter hr)] at hd

-- What the pipe looks like from the outside, in terms of the pointers that have been stored in it and
-- taken from it so far.
structure IsFifo (capacity : SizeT) (c : Config α) : Prop where
  refines      : (Fifo.bounded (Option α) capacity.toNat).Run [] (ops c) (queue c)
  in_order     : Fifo.dequeued (ops c) <+: Fifo.enqueued (ops c)
  size_eq      : c.shared.size.toNat + (Fifo.dequeued (ops c)).length =
    (Fifo.enqueued (ops c)).length
  size_le      : c.shared.size ≤ capacity
  stored       : ∀ j < c.shared.size.toNat,
    c.shared.items[(c.shared.indexPop.toNat + j) % capacity.toNat]? =
      (Fifo.enqueued (ops c))[(Fifo.dequeued (ops c)).length + j]?
  free         : ∀ k < capacity.toNat,
    (∀ j < c.shared.size.toNat, (c.shared.indexPop.toNat + j) % capacity.toNat ≠ k) →
      c.shared.items[k]? = some none
  no_overwrite : ∀ s, .send s ∈ c.calls → s.pc = .storing → ∀ j < c.shared.size.toNat,
    (c.shared.indexPop.toNat + j) % capacity.toNat ≠ c.shared.indexPush.toNat
  unchanged    : ∀ (i : ℕ) l, c.calls[i]? = some l → l.gaveUp → Quiet (c.recordsOf i)

theorem isFifo_of_noShutdown (hc : 0 < capacity)
    (h : ((system α capacity).restrict NoShutdown).Reachable c) : IsFifo capacity c := by
  have hk := count (takesStored_of_noShutdown h)
  have hy := layout_of_noShutdown hc h
  obtain ⟨_, _, h₀, hrun, hq⟩ := (refines hc).run h
  subst h₀ hq
  have hb := Fifo.bounded_run_eq hrun
  constructor
  case refines      => exact hrun
  case in_order     => exact Fifo.bounded_run_dequeued_prefix hrun
  case size_eq      => exact size_add_dequeued hk
  case size_le      =>
    have := Fifo.bounded_run_length_le hrun (Nat.zero_le _)
    exact UInt64.le_iff_toNat_le.mpr (hk.size ▸ this)
  case stored       =>
    intro j hj
    rw [hk.size] at hj
    rw [← hy.items_length, hy.holds.window j hj, ← List.nil_append (Fifo.enqueued _), hb,
      List.getElem?_append_right (Nat.le_add_right ..), Nat.add_sub_cancel_left, queue]
  case free         => rw [← hy.items_length, hk.size]; exact hy.holds.null
  case no_overwrite =>
    intro s hs hpc
    obtain ⟨_, hi⟩ := List.getElem?_of_mem hs
    have hlt := length_lt_of_storing h.of_restrict hi (by simp [Call.phase, hpc])
    have hp := hy.push_eq_iff.mpr (hk.misses ▸ dvd_zero _)
    rw [hp, hk.size, hy.items_length]
    exact Ring.index_ne_push hlt
  case unchanged    => exact fun _ _ hl hg => unchanged_of_gaveUp h hl hg

theorem isFifo_of_noShutdown_run : ∃ c, ((system ℕ 1).restrict NoShutdown).Reachable c ∧
    (Fifo.enqueued (ops c) = [some 7, some 8] ∧ Fifo.dequeued (ops c) = [some 7] ∧
      ∃ l, c.calls[1]? = some l ∧ l.gaveUp) ∧ IsFifo 1 c := by
  have ⟨c, hr, hq⟩ : ∃ c, ((system ℕ 1).restrict NoShutdown).Reachable c ∧
      Fifo.enqueued (ops c) = [some 7, some 8] ∧ Fifo.dequeued (ops c) = [some 7] ∧
        c.calls[1]?.any (·.gaveUp) :=
    Program.exec_reachable (s := new 1) rfl <| show Option.any _ (System.exec _ _ _ [
      .enter (.send { ptr := some 7 }), .enter (.send { ptr := some 9 }),
      .enter (.send { ptr := some 8, enqueueMode := .waitIfFull }), .enter (.receive {}),
      .run 0 false, .run 0 false, .run 1 false, .run 1 false, .run 0 false, .run 0 false,
      .run 2 false, .run 0 false, .run 1 false, .run 3 false, .run 3 false, .run 3 false,
      .run 3 false, .run 2 false, .run 2 false, .run 2 false]) by decide +kernel
  have ⟨l, hl, hg⟩ := (Option.any_eq_true ..).mp hq.right.right
  exact ⟨c, hr, ⟨hq.left, hq.right.left, l, hl, of_decide_eq_true hg⟩,
    isFifo_of_noShutdown (by decide) hr⟩

end PipeIPC
