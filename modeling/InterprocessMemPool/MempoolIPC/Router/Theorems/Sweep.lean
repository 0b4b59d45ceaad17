import InterprocessMemPool.MempoolIPC.Router.Theorems.Effect

namespace RouterIPC

variable {α : Type*} {r r' : RouterIPC α} {c : Config α} {l l' : Call α} {x : Choice α}
variable {pipes : List ℕ} {i j k n : ℕ}

-- Popping a dead pipe keeps all others, and does not move those that come before it.
theorem swapPop_perm (h : i < pipes.length) : (swapPop pipes i).Perm (pipes.eraseIdx i) := by
  rcases pipes.eq_nil_or_concat' with rfl | ⟨init, last, rfl⟩
  case inl => simp at h
  case inr =>
    simp only [List.length_append, List.length_singleton] at h
    simp only [swapPop, List.getLast?_concat, Option.getD_some]
    by_cases hi : i < init.length
    case pos =>
      rw [List.set_append_left _ _ hi, List.dropLast_concat, List.eraseIdx_append_of_lt_length hi]
      exact (List.set_perm_cons_eraseIdx hi last).trans (List.perm_append_singleton ..).symm
    case neg =>
      obtain rfl : i = init.length := by omega
      simp [List.set_append_right, List.eraseIdx_append_of_length_le]

theorem swapPop_length (h : i < pipes.length) : (swapPop pipes i).length + 1 = pipes.length := by
  simp [swapPop]
  omega

theorem swapPop_take (h : i < pipes.length) : (swapPop pipes i).take i = pipes.take i := by
  simp only [swapPop, List.dropLast_eq_take, List.take_take, List.length_set]
  rw [Nat.min_eq_left (by omega), List.take_set_of_le (Nat.le_refl i)]

-- The state in which a router is between calls.
structure WellFormed (r : RouterIPC α) : Prop where
  mutex : r.mutex = false
  nodup : r.pipes.Nodup
  lt    : ∀ k ∈ r.pipes, k < r.segment.length

theorem WellFormed.new : WellFormed (new (α := α)) :=
  ⟨rfl, List.nodup_nil, by simp [RouterIPC.new]⟩

-- No pipe is in the vector twice.
structure Registered (c : Config α) : Prop where
  nodup   : c.shared.pipes.Nodup
  lt      : ∀ k ∈ c.shared.pipes, k < c.shared.segment.length
  pushing : ∀ {i : ℕ} {k}, c.calls[i]? = some (.receiver (.pushing k)) →
    k < c.shared.segment.length ∧ k ∉ c.shared.pipes
  unique  : ∀ {i j : ℕ} {k}, c.calls[i]? = some (.receiver (.pushing k)) →
    c.calls[j]? = some (.receiver (.pushing k)) → i = j

namespace Registered

theorem enter (h : Registered c) (hs : l.starts) : Registered (c.enter l) := by
  have hne (k : ℕ) : l ≠ .receiver (.pushing k) := by
    rintro rfl
    simp [Call.starts] at hs
  have old {i k} (hi : (c.enter l).calls[i]? = some (.receiver (.pushing k))) :=
    Program.Config.enter_calls_get? hi |>.resolve_right fun hl => hne k hl.right.symm
  exact ⟨h.nodup, h.lt, fun hi => h.pushing (old hi), fun hi hj => h.unique (old hi) (old hj)⟩

-- The step of a call that is not about to push a pipe afterwards.
theorem after (h : Registered c) (hn : r'.pipes.Nodup) (hs : ∀ k ∈ r'.pipes, k < r'.segment.length)
    (hlen : c.shared.segment.length ≤ r'.segment.length)
    (hp : ∀ {j k}, j ≠ i → c.calls[j]? = some (.receiver (.pushing k)) → k ∉ r'.pipes)
    (hk : ∀ k, l' = .receiver (.pushing k) → k = c.shared.segment.length ∧
      k < r'.segment.length ∧ k ∉ r'.pipes) : Registered (c.after i l r' l') := by
  refine ⟨hn, hs, fun {j k} hj => ?_, fun {j₁ j₂ k} hj₁ hj₂ => ?_⟩
  · obtain ⟨rfl, rfl⟩ | ⟨hne, hj⟩ := Program.Config.after_calls_get? hj
    · exact (hk _ rfl).right
    · exact ⟨(h.pushing hj).left.trans_le hlen, hp hne hj⟩
  · obtain ⟨h₁, he₁⟩ | ⟨_, h₁⟩ := Program.Config.after_calls_get? hj₁ <;>
    obtain ⟨h₂, he₂⟩ | ⟨_, h₂⟩ := Program.Config.after_calls_get? hj₂
    · exact h₁.trans h₂.symm
    · exact absurd (hk _ he₁.symm).left (h.pushing h₂).left.ne
    · exact absurd (hk _ he₂.symm).left (h.pushing h₁).left.ne
    · exact h.unique h₁ h₂

theorem step (h : Registered c) (hl : c.calls[i]? = some l) (e : Effect c.shared l r' l') :
    Registered (c.after i l r' l') := by
  have hp {j : ℕ} {k} (hj : c.calls[j]? = some (.receiver (.pushing k))) := (h.pushing hj).right
  cases e
  case quiet s _ hk =>
    refine h.after ?_ ?_ s.length.ge (fun _ hj => ?_) (fun k he => (hk k he).elim)
    · exact s.pipes ▸ h.nodup
    · exact s.pipes ▸ s.length ▸ h.lt
    · exact s.pipes ▸ hp hj
  case acquire h' hr =>
    refine hr ▸ h.after h.nodup h.lt le_rfl (fun _ hj => hp hj) fun k he => ?_
    simp [he, Call.holds] at h'
  case letGo _ hk hr =>
    exact hr ▸ h.after h.nodup h.lt le_rfl (fun _ hj => hp hj) fun k he => (hk k he).elim
  case swapPop i' hi _ h' hr =>
    have hm {k} (hk : k ∈ RouterIPC.swapPop c.shared.pipes i') : k ∈ c.shared.pipes :=
      List.mem_of_mem_eraseIdx <| (swapPop_perm hi).mem_iff.mp hk
    refine hr ▸ h.after ?_ (fun k hk => h.lt k (hm hk)) le_rfl (fun _ hj hk => hp hj (hm hk)) ?_
    · exact (swapPop_perm hi).nodup_iff.mpr (h.nodup.eraseIdx i')
    · intro k he
      simp [he, Call.holds] at h'
  case construct hr hk =>
    subst hr
    refine h.after h.nodup (fun k hk => ?_) (by simp) (fun _ hj => hp hj) fun k he => ?_
    · have := h.lt k hk
      simp only [List.length_append]
      omega
    · obtain rfl : c.shared.segment.length = k := by simpa using hk.symm.trans he
      exact ⟨rfl, by simp, fun hk => (h.lt _ hk).false⟩
  case push k hr hk hk' =>
    subst hr hk
    obtain ⟨hlt, hmem⟩ := h.pushing hl
    refine h.after ?_ ?_ le_rfl (fun hne hj hk => ?_) (by simp [hk'])
    · refine List.nodup_append.mpr ⟨h.nodup, by simp, fun a ha b hb he => hmem ?_⟩
      exact List.mem_singleton.mp hb ▸ he ▸ ha
    · simpa [or_imp, forall_and] using ⟨h.lt, hlt⟩
    · simp only [List.mem_append, List.mem_singleton] at hk
      cases hk
      case inl hk => exact hp hj hk
      case inr hk => exact hne <| h.unique hj (hk ▸ hl)

end Registered

theorem registered (h : ((program α).system WellFormed).Reachable c) : Registered c := by
  refine Program.invariant (I := Registered) ?_ ?_ ?_ |>.holds h
  · intro _ h
    exact ⟨h.nodup, h.lt, by simp, by simp⟩
  · intro _ _ _ h hs
    exact h.enter hs
  · intro _ _ _ _ _ _ _ h hl hs
    exact h.step hl (effect hs)

-- The pipe that a `Send` has just found to be alive.
def Send.visit (s : Send α) : Option ℕ :=
  match s.pc with
  | .sending _ _ k c => if c.pc = .entered then some k else none
  | _                => none

-- The pipe that a `Send` has just stored the pointer in.
def Send.stored (s : Send α) : Option ℕ :=
  match s.pc with
  | .sending _ _ k c => if c.pc = .posting then some k else none
  | _                => none

def Call.send? : Call α → Option (Send α)
  | .send s => some s
  | _       => none

abbrev Records (α : Type*) := List (Program.Record (RouterIPC α) (Call α))

-- The pipes that were alive when their turn came, in that order.
def visits (rs : Records α) : List ℕ :=
  rs.filterMap fun r => r.post.2.send?.bind Send.visit

def stores (rs : Records α) : List ℕ :=
  rs.filterMap fun r => r.post.2.send?.bind Send.stored

-- The pipes that were already shut down when the pointer was to be sent to them.
def refusals (rs : Records α) : List ℕ :=
  rs.filterMap fun r => (r.pre.2.send?.bind Send.visit).filter fun k =>
    r.pre.1.segment[k]?.any (·.pipe.shutdown)

-- Of the first `m` pipes in the vector, `n` have reported an error. All others have either got the
-- pointer or refused it silently.
structure Tally (pipes : List ℕ) (m n : ℕ) (rs : Records α) : Prop where
  sublist : (stores rs).Sublist (pipes.take m)
  eq      : m = (stores rs).length + (refusals rs).length + n

-- Whether the fate of the pointer in the pipe that it is being sent to is settled.
def settled (c : PipeIPC.Send α) : ℕ :=
  if c.pc = .posting ∨ c.pc = .returned false then 1 else 0

def Send.Swept (s : Send α) (pipes : List ℕ) (rs : Records α) : Prop :=
  match s.pc with
  | .entered         => rs = []
  | .sweeping i n    => i ≤ pipes.length ∧ visits rs = pipes.take i ∧ Tally pipes i n rs
  | .sending i n k c => pipes[i]? = some k ∧ visits rs = pipes.take (i + 1) ∧
    Tally pipes (i + settled c) n rs
  | .returned n      => ∃ last ∈ rs.getLast?, last.pre.1.pipes.Nodup ∧
    SizeT.toInt last.pre.1.pipes.length ≤ (visits rs).length ∧
    visits rs = last.pre.1.pipes.take (visits rs).length ∧
    Tally last.pre.1.pipes (visits rs).length n rs

theorem visits_concat {t : Program.Record (RouterIPC α) (Call α)} {rs : Records α} :
    visits (rs ++ [t]) = visits rs ++ (t.post.2.send?.bind Send.visit).toList := by
  cases h : t.post.2.send?.bind Send.visit <;> simp [visits, h]

theorem stores_concat {t : Program.Record (RouterIPC α) (Call α)} {rs : Records α} :
    stores (rs ++ [t]) = stores rs ++ (t.post.2.send?.bind Send.stored).toList := by
  cases h : t.post.2.send?.bind Send.stored <;> simp [stores, h]

theorem refusals_concat {t : Program.Record (RouterIPC α) (Call α)} {rs : Records α} :
    refusals (rs ++ [t]) = refusals rs ++ ((t.pre.2.send?.bind Send.visit).filter fun k =>
      t.pre.1.segment[k]?.any (·.pipe.shutdown)).toList := by
  cases h : (t.pre.2.send?.bind Send.visit).filter fun k =>
    t.pre.1.segment[k]?.any (·.pipe.shutdown) <;> simp [refusals, h]

theorem Tally.congr {pipes' : List ℕ} {m : ℕ} {rs rs' : Records α} (h : Tally pipes m n rs)
    (hp : pipes'.take m = pipes.take m) (hs : stores rs' = stores rs)
    (hr : refusals rs' = refusals rs) : Tally pipes' m n rs' :=
  ⟨hp ▸ hs ▸ h.sublist, hs ▸ hr ▸ h.eq⟩

theorem Tally.store {m : ℕ} {rs rs' : Records α} (h : Tally pipes m n rs) (hk : pipes[m]? = some k)
    (hs : stores rs' = stores rs ++ [k]) (hr : refusals rs' = refusals rs) :
    Tally pipes (m + 1) n rs' where
  sublist := by
    rw [hs, List.take_add_one, hk]
    exact h.sublist.append_right [k]
  eq      := by
    have := h.eq
    simp only [hs, hr, List.length_append, List.length_singleton]
    omega

theorem Tally.refuse {m : ℕ} {rs rs' : Records α} (h : Tally pipes m n rs)
    (hs : stores rs' = stores rs) (hr : refusals rs' = refusals rs ++ [k]) :
    Tally pipes (m + 1) n rs' where
  sublist := hs ▸ h.sublist.trans (List.take_sublist_take_left (Nat.le_succ m))
  eq      := by
    have := h.eq
    simp only [hs, hr, List.length_append, List.length_singleton]
    omega

-- The steps of a `Send` on a pipe that decide over the pointer, and those that do not.
theorem settled_cases {p p' : PipeIPC α} {s s' : PipeIPC.Send α} {b : Bool}
    (h : s.step b p = some (p', s')) :
    s'.pc ≠ .entered ∧
      (s.pc = .entered ∧ p.shutdown ∧ s'.pc = .returned false ∨
      s.pc = .storing ∧ s'.pc = .posting ∨
      s.pc = .posting ∧ s'.pc = .returned false ∨
      settled s = 0 ∧ settled s' = 0 ∧ (s.pc = .entered → p.shutdown = false)) := by
  obtain ⟨ptr, mode, t, pc⟩ := s
  cases pc <;> simp only [PipeIPC.Send.step, Option.some.injEq, Prod.mk.injEq, reduceCtorEq] at h
  case entered =>
    obtain ⟨rfl, rfl⟩ := h
    cases hd : p.shutdown <;> simp [settled]
  case waiting =>
    have ⟨_, _, h⟩ := Option.map_eq_some_iff.mp h
    obtain ⟨rfl, rfl⟩ := Prod.mk.inj h
    simp [settled]
  case checking ok =>
    obtain ⟨rfl, rfl⟩ := h
    cases ok <;> cases p.shutdown <;> simp [settled]
  case storing =>
    split at h <;> obtain ⟨rfl, rfl⟩ := Prod.mk.inj (Option.some.inj h) <;> simp [settled]
  case posting =>
    obtain ⟨rfl, rfl⟩ := h
    simp

theorem Send.swept_step {s s' : Send α} {b : Bool} {rs : Records α} (hs : s.Swept r.pipes rs)
    (hn : r.pipes.Nodup) (h : s.step b r = some (r', s')) :
    s'.Swept r'.pipes (rs ++ [⟨i, (r, .send s), (r', .send s')⟩]) := by
  obtain ⟨ptr, mode, t, pc⟩ := s
  cases pc <;> simp only [step, reduceCtorEq] at h
  case entered =>
    simp only [Option.ite_none_left_eq_some, Option.some.injEq, Prod.mk.injEq] at h
    obtain ⟨hm, rfl, rfl⟩ := h
    simp only [Swept] at hs
    subst hs
    exact ⟨Nat.zero_le _, rfl, ⟨by simp [stores, Call.send?, stored], rfl⟩⟩
  case sweeping j n =>
    obtain ⟨hj, hv, ht⟩ := hs
    split at h
    case isFalse hlt =>
      obtain ⟨rfl, rfl⟩ := Prod.mk.inj (Option.some.inj h)
      have hl : (visits rs).length = j := by simp [hv, hj]
      refine ⟨_, List.getLast?_concat, hn, ?_⟩
      simp only [visits_concat, Call.send?, visit, Option.bind_some, Option.toList, List.append_nil, hl]
      refine ⟨by omega, hv, ht.congr rfl ?_ ?_⟩
      · simp [stores_concat, Call.send?, stored]
      · simp [refusals_concat, Call.send?, visit]
    case isTrue =>
      obtain ⟨k, hk, h⟩ := Option.map_eq_some_iff.mp h
      obtain ⟨hi, _⟩ := List.getElem?_eq_some_iff.mp hk
      split at h <;> obtain ⟨rfl, rfl⟩ := Prod.mk.inj h
      case h_1 =>
        have := swapPop_length hi
        refine ⟨by simp only; omega, ?_, ht.congr (swapPop_take hi) ?_ ?_⟩
        · simp [visits_concat, Call.send?, visit, swapPop_take hi, hv]
        · simp [stores_concat, Call.send?, stored]
        · simp [refusals_concat, Call.send?, visit]
      case h_2 =>
        have hp := (Same.lock ‹r.lock k = _›).pipes
        refine ⟨hp ▸ hk, ?_, ht.congr (by rw [hp]) ?_ ?_⟩
        · simp [visits_concat, Call.send?, visit, args, hp, hv, List.take_add_one, hk]
        · simp [stores_concat, Call.send?, stored, args]
        · simp [refusals_concat, Call.send?, visit]
  case sending j n k c =>
    obtain ⟨hk, hv, ht⟩ := hs
    obtain ⟨hj, _⟩ := List.getElem?_eq_some_iff.mp hk
    split at h
    case h_1 hadError hc =>
      obtain ⟨rfl, rfl⟩ := Prod.mk.inj (Option.some.inj h)
      have hsub := ht.sublist
      have heq := ht.eq
      refine ⟨hj, ?_, ?_, ?_⟩
      · simp [visits_concat, Call.send?, visit, hv, release]
      · simp only [stores_concat, Call.send?, stored, Option.bind_some, Option.toList, List.append_nil]
        refine hsub.trans <| List.take_sublist_take_left ?_
        simp only [settled]
        split <;> omega
      · cases hadError <;> simp [stores_concat, refusals_concat, Call.send?, stored, visit, hc]
        all_goals simp [settled, hc] at heq; omega
    case h_2 =>
      obtain ⟨e, p, c', he, hst, rfl, rfl⟩ := through_eq_some h
      obtain ⟨hne, hcases⟩ := settled_cases hst
      refine ⟨hk, by simp [visits_concat, Call.send?, visit, hv, hne], ?_⟩
      obtain ⟨hc, hd, hc'⟩ | ⟨hc, hc'⟩ | ⟨hc, hc'⟩ | ⟨hz, hz', hd⟩ := hcases
      · have h₀ : settled c = 0 := by simp [settled, hc]
        have h₁ : settled c' = 1 := by simp [settled, hc']
        rw [h₀] at ht
        rw [h₁]
        refine ht.refuse (k := k) ?_ ?_
        · simp [stores_concat, Call.send?, stored, hc']
        · simp [refusals_concat, Call.send?, visit, hc, he, hd]
      · have h₀ : settled c = 0 := by simp [settled, hc]
        have h₁ : settled c' = 1 := by simp [settled, hc']
        rw [h₀] at ht
        rw [h₁]
        refine ht.store hk ?_ ?_
        · simp [stores_concat, Call.send?, stored, hc']
        · simp [refusals_concat, Call.send?, visit, hc]
      · have h₀ : settled c = settled c' := by simp [settled, hc, hc']
        refine h₀ ▸ ht.congr rfl ?_ ?_
        · simp [stores_concat, Call.send?, stored, hc']
        · simp [refusals_concat, Call.send?, visit, hc]
      · refine hz' ▸ (hz ▸ ht).congr rfl ?_ ?_
        · have : c'.pc ≠ .posting := fun h => by simp [settled, h] at hz'
          simp [stores_concat, Call.send?, stored, this]
        · by_cases hc : c.pc = .entered
          · simp [refusals_concat, Call.send?, visit, hc, he, hd hc]
          · simp [refusals_concat, Call.send?, visit, hc]

theorem Send.swept_of_holds {s : Send α} {pipes' : List ℕ} {rs : Records α} (hs : s.Swept pipes rs)
    (hp : (Call.send s).holds → pipes' = pipes) : s.Swept pipes' rs := by
  obtain ⟨_, _, _, pc⟩ := s
  cases pc
  case sweeping | sending => exact hp rfl ▸ hs
  all_goals exact hs

-- While a call has the mutex, nobody else changes the vector.
theorem pipes_of_holds {Init : RouterIPC α → Prop} {l₁ : Call α} (hm : ∀ {r}, Init r → r.mutex = false)
    (h : ((program α).system Init).Reachable c) (hj : c.calls[j]? = some l₁) (hh : l₁.holds)
    (hl : c.calls[i]? = some l) (hne : j ≠ i) (hs : (program α).step x c.shared l = some (r', l')) :
    r'.pipes = c.shared.pipes := by
  have hm {r : RouterIPC α} (h : Init r) : (mutexProtocol α).locked r = false := hm h
  have hlocked : c.shared.mutex = true := (mutexProtocol α).locked_of_holds hm h hj hh
  have hothers (hl' : l.holds) : False := hne <| (mutexProtocol α).unique hm h hj hl hh hl'
  cases effect hs
  case quiet s _ _     => exact s.pipes
  case acquire hr      => exact hr ▸ rfl
  case letGo hh' _ _ _ => exact (hothers hh').elim
  case swapPop hh' _ _ => exact (hothers hh').elim
  case construct hr _  => exact hr ▸ rfl
  case push hm _ _ _   => simp [hm] at hlocked

-- What holds of a `Send`, the vector of pipes and the steps that it has taken.
theorem Send.invariant {Init : RouterIPC α → Prop} {J : Send α → List ℕ → Records α → Prop}
    (hm : ∀ {r}, Init r → r.mutex = false) (start : ∀ {s pipes}, s.pc = .entered → J s pipes [])
    (frame : ∀ {s pipes pipes' rs}, J s pipes rs → ((Call.send s).holds → pipes' = pipes) → J s pipes' rs)
    (step : ∀ {c : Config α} {i b s s' r'}, ((program α).system Init).Reachable c →
      J s c.shared.pipes (c.recordsOf i) → s.step b c.shared = some (r', s') →
      J s' r'.pipes (c.recordsOf i ++ [⟨i, (c.shared, .send s), (r', .send s')⟩]))
    (h : ((program α).system Init).Reachable c) {s : Send α} (hs : c.calls[i]? = some (.send s)) :
    J s c.shared.pipes (c.recordsOf i) := by
  refine Program.invariant (I := fun c => ∀ {i : ℕ} {s : Send α}, c.calls[i]? = some (.send s) →
    J s c.shared.pipes (c.recordsOf i)) ?_ ?_ ?_ |>.holds h hs
  · intro _ _ _ _ hl
    simp at hl
  · intro c l hr h hs i s hl
    cases Program.Config.enter_calls_get? hl
    case inl hl => exact h hl
    case inr hl =>
      rw [Program.Config.recordsOf_enter,
        Program.recordsOf_eq_nil_of_length_le hr i hl.left.ge]
      rw [← hl.right] at hs
      obtain ⟨_, _, _, pc⟩ := s
      cases pc <;> simp [program, Call.starts] at hs
      exact start rfl
  · intro c i x l r' l' hr h hl hp j s hj
    obtain ⟨rfl, rfl⟩ | ⟨hne, hj⟩ := Program.Config.after_calls_get? hj
    case inl =>
      rw [Program.Config.recordsOf_after_self]
      cases Call.steps hp
      case send hp => exact step hr (h hl) hp
    case inr =>
      rw [Program.Config.recordsOf_after_ne hne]
      exact frame (h hj) fun hh => pipes_of_holds hm hr hj hh hl hne hp

theorem swept (h : ((program α).system WellFormed).Reachable c) {s : Send α}
    (hs : c.calls[i]? = some (.send s)) : s.Swept c.shared.pipes (c.recordsOf i) := by
  refine Send.invariant (J := Send.Swept) WellFormed.mutex (fun {s _} he => ?_) Send.swept_of_holds
    (fun hr hs hp => Send.swept_step hs (registered hr).nodup hp) h hs
  obtain ⟨_, _, _, pc⟩ := s
  obtain rfl : pc = .entered := he
  rfl

theorem length_filter_not_mem {l l' : List ℕ} (h : l.Sublist l') (hn : l'.Nodup) :
    (l'.filter (· ∉ l)).length + l.length = l'.length := by
  have hp : (l'.filter (· ∈ l)).Perm l := by
    refine (List.perm_ext_iff_of_nodup (hn.filter _) (hn.sublist h)).mpr fun a => ?_
    simpa using fun ha => h.subset ha
  have := (List.filter_append_perm (· ∈ l) l').length_eq
  simp only [List.length_append, hp.length_eq] at this
  simp only [decide_not]
  omega

end RouterIPC
