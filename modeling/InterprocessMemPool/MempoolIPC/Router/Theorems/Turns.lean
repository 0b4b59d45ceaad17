import InterprocessMemPool.MempoolIPC.Router.Theorems.Sweep

namespace RouterIPC

variable {α : Type*} {r r' : RouterIPC α} {c : Config α} {s s' : Send α} {pipes pipes' first : List ℕ}
variable {i k m n o o' : ℕ} {b : Bool} {rs : Records α}

-- The entry of the vector that the loop has got to, and whether its pipe is alive.
def Send.turn (r : RouterIPC α) (s : Send α) : Option (ℕ × Bool) :=
  match s.pc with
  | .sweeping i _ =>
    if i < SizeT.toInt r.pipes.length then r.pipes[i]?.map fun k => (k, r.alive k) else none
  | _             => none

-- The pipe whose `Send` has returned, and whether that was with an error.
def Send.result (s : Send α) : Option (ℕ × Bool) :=
  match s.pc with
  | .sending _ _ k c =>
    match c.pc with
    | .returned hadError => some (k, hadError)
    | _                  => none
  | _                => none

-- The next step is one of the router's `Send`, and not of that of a pipe.
def Send.own (s : Send α) : Bool :=
  match s.pc with
  | .entered         => true
  | .sweeping _ _    => true
  | .sending _ _ _ c =>
    match c.pc with
    | .returned _ => true
    | _           => false
  | .returned _      => false

-- The entries in the order in which the loop has got to them.
def turns (rs : Records α) : List (ℕ × Bool) :=
  rs.filterMap fun t => t.pre.2.send?.bind (Send.turn t.pre.1)

def livingTurns (rs : Records α) : List ℕ :=
  ((turns rs).filter (·.2)).map (·.1)

def results (rs : Records α) : List (ℕ × Bool) :=
  rs.filterMap fun t => t.pre.2.send?.bind Send.result

def ownSteps (rs : Records α) : ℕ :=
  rs.countP fun t => t.pre.2.send?.any Send.own

variable {t : Program.Record (RouterIPC α) (Call α)}

theorem turns_concat : turns (rs ++ [t]) = turns rs ++ (t.pre.2.send?.bind (Send.turn t.pre.1)).toList := by
  cases h : t.pre.2.send?.bind (Send.turn t.pre.1) <;> simp [turns, h]

theorem livingTurns_concat : livingTurns (rs ++ [t]) = livingTurns rs ++
    ((t.pre.2.send?.bind (Send.turn t.pre.1)).toList.filter (·.2)).map (·.1) := by
  rw [livingTurns, turns_concat, List.filter_append, List.map_append, livingTurns]

theorem results_concat : results (rs ++ [t]) = results rs ++ (t.pre.2.send?.bind Send.result).toList := by
  cases h : t.pre.2.send?.bind Send.result <;> simp [results, h]

theorem ownSteps_concat : ownSteps (rs ++ [t]) = ownSteps rs + (t.pre.2.send?.any Send.own).toNat := by
  cases h : t.pre.2.send?.any Send.own <;> simp [ownSteps, h]

-- The loop has got to the first `m` entries of the vector, and to others that have been popped. `n` of the
-- results are errors. The loop has taken a step for each entry and each result, and there have been `o` others.
structure Turns (first pipes : List ℕ) (m n o : ℕ) (rs : Records α) : Prop where
  le      : m ≤ pipes.length
  int     : m < 2 ^ 31
  visited : visits rs = pipes.take m
  living  : livingTurns rs = visits rs
  perm    : ((turns rs).map (·.1) ++ pipes.drop m).Perm first
  large   : 2 ^ 31 ≤ first.length → 2 ^ 31 ≤ pipes.length
  errors  : n = (results rs).countP (·.2)
  own     : ownSteps rs = (turns rs).length + (results rs).length + o

-- The vector as it was when the `Send` got hold of the mutex.
def entered (rs : Records α) : List ℕ :=
  rs.head?.elim [] (·.post.1.pipes)

-- The vector as the last step of the `Send` has left it.
def left (rs : Records α) : List ℕ :=
  rs.getLast?.elim [] (·.post.1.pipes)

def Send.Turned (s : Send α) (pipes : List ℕ) (rs : Records α) : Prop :=
  match s.pc with
  | .entered         => rs = []
  | .sweeping i n    => rs ≠ [] ∧ Turns (entered rs) pipes i n 1 rs ∧ (results rs).map Prod.fst = visits rs
  | .sending i n k _ => rs ≠ [] ∧ Turns (entered rs) pipes (i + 1) n 1 rs ∧
    (results rs).map Prod.fst ++ [k] = visits rs
  | .returned n      => ∃ m : ℕ, SizeT.toInt (left rs).length ≤ m ∧ Turns (entered rs) (left rs) m n 2 rs ∧
    (results rs).map Prod.fst = visits rs

theorem Send.turn_eq (hp : t.pre = (r, .send s)) (hs : s.pc = .sweeping i n)
    (hi : i < SizeT.toInt r.pipes.length) (hk : r.pipes[i]? = some k) :
    t.pre.2.send?.bind (Send.turn t.pre.1) = some (k, r.alive k) := by
  simp only [hp, Call.send?, Option.bind_some, turn, hs, if_pos hi, hk, Option.map_some]

-- The loop ends where the size of the vector is, as an `int`.
theorem Send.turn_eq_none (hp : t.pre = (r, .send s)) (hs : s.pc = .sweeping i n)
    (hi : ¬i < SizeT.toInt r.pipes.length) : t.pre.2.send?.bind (Send.turn t.pre.1) = none := by
  simp only [hp, Call.send?, Option.bind_some, turn, hs, if_neg hi]

theorem entered_concat (h : rs ≠ []) : entered (rs ++ [t]) = entered rs := by
  obtain ⟨t', rs, rfl⟩ := List.exists_cons_of_ne_nil h
  rfl

theorem toInt_lt (n : ℕ) : SizeT.toInt n < 2 ^ 31 := by
  have h := Int.bmod_lt (x := (n : ℤ)) (Nat.two_pow_pos 32)
  exact h

theorem toInt_two_pow_neg : SizeT.toInt (2 ^ 31) < 0 := by
  decide

-- A dead pipe is popped, which takes its entry out of those that are still to come.
theorem drop_swapPop_perm (hk : pipes[i]? = some k) :
    (k :: (swapPop pipes i).drop i).Perm (pipes.drop i) := by
  obtain ⟨hi, rfl⟩ := List.getElem?_eq_some_iff.mp hk
  rw [List.drop_eq_getElem_cons hi]
  refine .cons _ ((List.perm_append_left_iff (pipes.take i)).mp ?_)
  have hp : (pipes.take i ++ (swapPop pipes i).drop i).Perm (pipes.eraseIdx i) := by
    rw [← swapPop_take hi, List.take_append_drop]
    exact swapPop_perm hi
  exact List.eraseIdx_eq_take_drop_succ pipes i ▸ hp

theorem Turns.start (hv : visits rs = []) (ht : turns rs = []) (hr : results rs = []) (ho : ownSteps rs = 1) :
    Turns pipes pipes 0 0 1 rs := by
  constructor <;> simp [livingTurns, hv, ht, hr, ho]

-- A step that has nothing to do with an entry.
theorem Turns.quiet (h : Turns first pipes m n o rs) (hv : visits (rs ++ [t]) = visits rs)
    (ht : t.pre.2.send?.bind (Send.turn t.pre.1) = none) (hr : t.pre.2.send?.bind Send.result = none)
    (ho : o' = o + (t.pre.2.send?.any Send.own).toNat) : Turns first pipes m n o' (rs ++ [t]) := by
  have hturns : turns (rs ++ [t]) = turns rs := by simp [turns_concat, ht]
  have hresults : results (rs ++ [t]) = results rs := by simp [results_concat, hr]
  constructor
  case le      => exact h.le
  case int     => exact h.int
  case visited => exact hv.trans h.visited
  case living  => rw [livingTurns, hturns, hv, ← h.living, livingTurns]
  case perm    => exact hturns ▸ h.perm
  case large   => exact h.large
  case errors  => exact hresults ▸ h.errors
  case own     => rw [ownSteps_concat, hturns, hresults, h.own, ho, Nat.add_assoc]

-- The loop finds a dead pipe.
theorem Turns.pop (h : Turns first pipes m n o rs) (hk : pipes[m]? = some k)
    (hi : m < SizeT.toInt pipes.length) (hv : visits (rs ++ [t]) = visits rs)
    (ht : t.pre.2.send?.bind (Send.turn t.pre.1) = some (k, false))
    (hr : t.pre.2.send?.bind Send.result = none) (ho : t.pre.2.send?.any Send.own = true) :
    Turns first (swapPop pipes m) m n o (rs ++ [t]) := by
  obtain ⟨hm, _⟩ := List.getElem?_eq_some_iff.mp hk
  have hlen := swapPop_length hm
  have hturns : turns (rs ++ [t]) = turns rs ++ [(k, false)] := by simp [turns_concat, ht]
  have hresults : results (rs ++ [t]) = results rs := by simp [results_concat, hr]
  constructor
  case le      => omega
  case int     => exact h.int
  case visited => rw [hv, h.visited, swapPop_take hm]
  case living  => simp [livingTurns_concat, ht, hv, h.living]
  case perm    =>
    rw [hturns, List.map_append, List.append_assoc]
    exact ((drop_swapPop_perm hk).append_left _).trans h.perm
  case large   =>
    intro hl
    have hne : pipes.length ≠ 2 ^ 31 := fun he => by
      rw [he] at hi
      have := toInt_two_pow_neg
      omega
    have := h.large hl
    omega
  case errors  => exact hresults ▸ h.errors
  case own     =>
    have := h.own
    simp only [ownSteps_concat, ho, hturns, hresults, List.length_append, List.length_singleton, Bool.toNat_true]
    omega

-- The loop finds a pipe that is alive.
theorem Turns.visit (h : Turns first pipes m n o rs) (hk : pipes[m]? = some k)
    (hi : m < SizeT.toInt pipes.length) (hv : visits (rs ++ [t]) = visits rs ++ [k])
    (ht : t.pre.2.send?.bind (Send.turn t.pre.1) = some (k, true))
    (hr : t.pre.2.send?.bind Send.result = none) (ho : t.pre.2.send?.any Send.own = true) :
    Turns first pipes (m + 1) n o (rs ++ [t]) := by
  obtain ⟨hm, hk'⟩ := List.getElem?_eq_some_iff.mp hk
  have hlt := toInt_lt pipes.length
  have hturns : turns (rs ++ [t]) = turns rs ++ [(k, true)] := by simp [turns_concat, ht]
  have hresults : results (rs ++ [t]) = results rs := by simp [results_concat, hr]
  constructor
  case le      => omega
  case int     => omega
  case visited => rw [hv, h.visited, List.take_add_one, hk, Option.toList_some]
  case living  => simp [livingTurns_concat, ht, hv, h.living]
  case perm    =>
    have := h.perm
    rw [List.drop_eq_getElem_cons hm, hk'] at this
    simpa [hturns] using this
  case large   => exact h.large
  case errors  => exact hresults ▸ h.errors
  case own     =>
    have := h.own
    simp only [ownSteps_concat, ho, hturns, hresults, List.length_append, List.length_singleton, Bool.toNat_true]
    omega

-- The `Send` of a pipe has returned.
theorem Turns.report {hadError : Bool} (h : Turns first pipes m n o rs) (hv : visits (rs ++ [t]) = visits rs)
    (ht : t.pre.2.send?.bind (Send.turn t.pre.1) = none)
    (hr : t.pre.2.send?.bind Send.result = some (k, hadError)) (ho : t.pre.2.send?.any Send.own = true) :
    Turns first pipes m (if hadError then n + 1 else n) o (rs ++ [t]) := by
  have hturns : turns (rs ++ [t]) = turns rs := by simp [turns_concat, ht]
  have hresults : results (rs ++ [t]) = results rs ++ [(k, hadError)] := by simp [results_concat, hr]
  constructor
  case le      => exact h.le
  case int     => exact h.int
  case visited => exact hv.trans h.visited
  case living  => rw [livingTurns, hturns, hv, ← h.living, livingTurns]
  case perm    => exact hturns ▸ h.perm
  case large   => exact h.large
  case errors  =>
    rw [hresults, List.countP_append, ← h.errors]
    cases hadError <;> simp
  case own     =>
    have := h.own
    simp only [ownSteps_concat, ho, hturns, hresults, List.length_append, List.length_singleton, Bool.toNat_true]
    omega

theorem Send.turned_step (hs : s.Turned r.pipes rs) (h : s.step b r = some (r', s')) :
    s'.Turned r'.pipes (rs ++ [⟨i, (r, .send s), (r', .send s')⟩]) := by
  obtain ⟨ptr, mode, timeout, pc⟩ := s
  cases pc <;> simp only [step, reduceCtorEq] at h
  case entered =>
    simp only [Option.ite_none_left_eq_some, Option.some.injEq, Prod.mk.injEq] at h
    obtain ⟨_, rfl, rfl⟩ := h
    simp only [Turned] at hs
    subst hs
    exact ⟨List.cons_ne_nil _ _, .start rfl rfl rfl rfl, rfl⟩
  case sweeping j n =>
    obtain ⟨hne, ht, hres⟩ := hs
    split at h
    case isFalse hlt =>
      obtain ⟨rfl, rfl⟩ := Prod.mk.inj (Option.some.inj h)
      refine ⟨j, ?_, ?_, ?_⟩
      · simpa [left] using hlt
      · rw [entered_concat hne, left, List.getLast?_concat]
        refine ht.quiet ?_ (turn_eq_none rfl rfl hlt) rfl rfl
        simp [visits_concat, Call.send?, visit]
      · simp [results_concat, visits_concat, Call.send?, result, visit, hres]
    case isTrue hlt =>
      obtain ⟨k, hk, h⟩ := Option.map_eq_some_iff.mp h
      split at h <;> obtain ⟨rfl, rfl⟩ := Prod.mk.inj h
      case h_1 =>
        refine ⟨List.append_ne_nil_of_left_ne_nil hne _, ?_, ?_⟩
        · rw [entered_concat hne]
          refine ht.pop hk hlt ?_ ?_ rfl rfl
          · simp [visits_concat, Call.send?, visit]
          · rw [turn_eq rfl rfl hlt hk, lock_eq_none.mp ‹r.lock k = none›]
        · simp [results_concat, visits_concat, Call.send?, result, visit, hres]
      case h_2 =>
        have hl : r.lock k = some _ := ‹r.lock k = _›
        refine ⟨List.append_ne_nil_of_left_ne_nil hne _, ?_, ?_⟩
        · rw [entered_concat hne, (Same.lock hl).pipes]
          refine ht.visit hk hlt ?_ ?_ rfl rfl
          · simp [visits_concat, Call.send?, visit, args]
          · rw [turn_eq rfl rfl hlt hk, alive_of_lock hl]
        · simp [results_concat, visits_concat, Call.send?, result, visit, args, hres]
  case sending j n k c =>
    obtain ⟨hne, ht, hres⟩ := hs
    split at h
    case h_1 hadError hc =>
      obtain ⟨rfl, rfl⟩ := Prod.mk.inj (Option.some.inj h)
      refine ⟨List.append_ne_nil_of_left_ne_nil hne _, ?_, ?_⟩
      · rw [entered_concat hne]
        refine ht.report (k := k) ?_ rfl ?_ ?_
        · simp [visits_concat, Call.send?, visit]
        · simp [Call.send?, result, hc]
        · simp [Call.send?, own, hc]
      · simp [results_concat, visits_concat, Call.send?, result, visit, hc, hres]
    case h_2 hc =>
      obtain ⟨e, p, c', he, hst, rfl, rfl⟩ := through_eq_some h
      have hne' := (settled_cases hst).left
      have hr : (⟨ptr, mode, timeout, .sending j n k c⟩ : Send α).result = none := by
        simp only [result]
      have ho : (⟨ptr, mode, timeout, .sending j n k c⟩ : Send α).own = false := by
        simp only [own]
      refine ⟨List.append_ne_nil_of_left_ne_nil hne _, ?_, ?_⟩
      · rw [entered_concat hne]
        refine ht.quiet ?_ rfl hr ?_
        · simp [visits_concat, Call.send?, visit, hne']
        · simp [Call.send?, ho]
      · simp [results_concat, visits_concat, hr, Call.send?, visit, hne', hres]

theorem turned (h : ((program α).system (·.mutex = false)).Reachable c) (hs : c.calls[i]? = some (.send s)) :
    s.Turned c.shared.pipes (c.recordsOf i) := by
  refine Send.invariant (J := Send.Turned) id (fun {s _} he => ?_) (fun {s _ _ _} hs hp => ?_)
    (fun _ hs hp => Send.turned_step hs hp) h hs
  all_goals obtain ⟨_, _, _, pc⟩ := s
  · obtain rfl : pc = .entered := he
    rfl
  · cases pc
    case sweeping | sending => exact hp rfl ▸ hs
    all_goals exact hs

theorem Turns.results_le (h : Turns first pipes m n o rs) (hr : (results rs).length ≤ (visits rs).length) :
    ownSteps rs ≤ 2 * first.length + o := by
  have hlen := h.perm.length_eq
  have hown := h.own
  have hle : (visits rs).length ≤ (turns rs).length := by
    rw [← h.living, livingTurns, List.length_map]
    exact List.length_filter_le ..
  simp only [List.length_append, List.length_map] at hlen
  omega

theorem Send.Turned.ownSteps_le (h : s.Turned pipes rs) : ownSteps rs ≤ 2 * (entered rs).length + 2 := by
  obtain ⟨_, _, _, pc⟩ := s
  cases pc
  case entered =>
    obtain rfl : rs = [] := h
    exact Nat.zero_le _
  case sweeping =>
    obtain ⟨_, ht, hres⟩ := h
    have := ht.results_le (by simp [← hres])
    omega
  case sending =>
    obtain ⟨_, ht, hres⟩ := h
    have := ht.results_le (by simp [← hres])
    omega
  case returned =>
    obtain ⟨m, _, ht, hres⟩ := h
    exact ht.results_le (by simp [← hres])

-- Once it has the mutex, a `Send` only ever waits for that of a pipe.
theorem Send.isSome_step_of_own (ho : s.own) (hs : s.pc ≠ .entered) : (s.step b r).isSome := by
  obtain ⟨ptr, mode, timeout, pc⟩ := s
  cases pc
  case entered  => exact absurd rfl hs
  case returned => cases ho
  case sweeping j n =>
    simp only [step]
    split
    case isFalse  => rfl
    case isTrue hlt =>
      have := SizeT.toInt_le r.pipes.length
      have hj : j < r.pipes.length := by omega
      rw [List.getElem?_eq_getElem hj]
      rfl
  case sending j n k c =>
    simp only [own] at ho
    split at ho
    case h_1 hc => simp [step, hc]
    case h_2    => cases ho

-- The loop gets to each entry that the vector had once, and to no other. It calls `Send` once for each of
-- them that is alive then, and leaves just these in the vector. `n` is the number of errors.
structure Sweeps (n : ℕ) (rs : Records α) : Prop where
  reached : ((turns rs).map (·.1)).Perm (entered rs)
  sent    : visits rs = livingTurns rs
  results : (results rs).map Prod.fst = visits rs
  left    : (left rs).Perm (visits rs)
  errors  : n = (RouterIPC.results rs).countP (·.2)

-- Whatever is in the vector, the loop ends. It has done all of its work just if the size of the vector fits
-- into an `int`.
theorem sweeps_iff (h : ((program α).system (·.mutex = false)).Reachable c)
    (hs : c.calls[i]? = some (.send s)) :
    (ownSteps (c.recordsOf i) ≤ 2 * (entered (c.recordsOf i)).length + 2 ∧
      (s.own → s.pc ≠ .entered → ∀ b, (s.step b c.shared).isSome)) ∧
    ∀ n, s.pc = .returned n →
      (Sweeps n (c.recordsOf i) ↔ (entered (c.recordsOf i)).length < 2 ^ 31) := by
  have ht := turned h hs
  refine ⟨⟨ht.ownSteps_le, fun ho hne _ => Send.isSome_step_of_own ho hne⟩, fun n hr => ?_⟩
  simp only [Send.Turned, hr] at ht
  obtain ⟨m, hm, ht, hres⟩ := ht
  generalize c.recordsOf i = rs at *
  have hlen := ht.perm.length_eq
  have hvis := congrArg List.length ht.visited
  have hle : (visits rs).length ≤ (turns rs).length := by
    rw [← ht.living, livingTurns, List.length_map]
    exact List.length_filter_le ..
  simp only [List.length_append, List.length_map, List.length_drop, List.length_take] at hlen hvis
  have hint := ht.int
  have hml := ht.le
  constructor
  · intro hsw
    have := hsw.left.length_eq
    by_contra hlarge
    have := ht.large (not_lt.mp hlarge)
    omega
  · intro hsmall
    rw [SizeT.toInt_of_lt (by omega)] at hm
    have hall : (left rs).length ≤ m := Int.ofNat_le.mp hm
    have hp := ht.perm
    rw [List.drop_eq_nil_of_le hall, List.append_nil] at hp
    have hv := ht.visited
    rw [List.take_of_length_le hall] at hv
    exact ⟨hp, ht.living.symm, hres, hv ▸ .refl _, ht.errors⟩

theorem sweeps_iff_run : ∃ c : Config ℕ, c.calls[2]? = some (.send { ptr := some 8, pc := .returned 1 }) ∧
    Sweeps 1 (c.recordsOf 2) := by
  obtain ⟨c, hc, hs, hl⟩ : ∃ c : Config ℕ,
      (((program ℕ).system (·.mutex = false)).restrict fun _ _ => True).Reachable c ∧
      c.calls[2]? = some (.send { ptr := some 8, pc := .returned 1 }) ∧
      (entered (c.recordsOf 2)).length < 2 ^ 31 :=
    Program.exec_reachable (s := new) rfl <| show Option.any _ (System.exec _ _ _ [
      .enter (.receiver (.registering 1)), .run 0 {}, .run 0 {},
      .enter (.send { ptr := some 7 }), .run 1 {}, .run 1 {}, .run 1 {}, .run 1 {}, .run 1 {},
      .run 1 {}, .run 1 {}, .run 1 {}, .run 1 {},
      .enter (.send { ptr := some 8 }), .run 2 {}, .run 2 {}, .run 2 {}, .run 2 {}, .run 2 {},
      .run 2 {}, .run 2 {}]) by decide +kernel
  exact ⟨c, hs, ((sweeps_iff hc.of_restrict hs).right 1 rfl).mpr hl⟩

theorem Send.step_of_idle (hs : s.pc = .sweeping 0 n) (hl : ¬((0 : ℕ) : ℤ) < SizeT.toInt r.pipes.length) :
    s.step b r = some ({ r with mutex := false }, { s with pc := .returned n }) := by
  simp only [step, hs]
  exact if_neg hl

-- A `Send` that gets to no entry as the size of the vector is negative.
theorem exists_idle (hm : r.mutex = false) (hl : ¬((0 : ℕ) : ℤ) < SizeT.toInt r.pipes.length) (ptr : Option α) :
    ∃ c, ((program α).system (·.mutex = false)).Reachable c ∧
      c.calls[0]? = some (.send { ptr, pc := .returned 0 }) ∧ left (c.recordsOf 0) = r.pipes ∧
      visits (c.recordsOf 0) = [] := by
  have h₀ : ((program α).system (·.mutex = false)).Reachable ⟨r, [], []⟩ := .init ⟨hm, rfl, rfl⟩
  have h₁ : (program α).next ⟨r, [], []⟩ (.enter (.send { ptr })) = some ⟨r, [.send { ptr }], []⟩ := rfl
  have h₂ : (program α).step {} r (.send { ptr }) =
      some ({ r with mutex := true }, .send { ptr, pc := .sweeping 0 0 }) := by
    simp [program, Call.step, Send.step, hm]
  have h₃ : (program α).step {} { r with mutex := true } (.send { ptr, pc := .sweeping 0 0 }) =
      some ({ r with mutex := false }, .send { ptr, pc := .returned 0 }) := by
    have hs : Send.step false { r with mutex := true } ⟨ptr, .softFailIfFull, 0, .sweeping 0 0⟩ =
        some ({ r with mutex := false }, ⟨ptr, .softFailIfFull, 0, .returned 0⟩) := Send.step_of_idle rfl hl
    simp only [program, Call.step]
    rw [hs]
    rfl
  exact ⟨_, ((h₀.step h₁).step (Program.next_run (i := 0) rfl h₂)).step (Program.next_run (i := 0) rfl h₃),
    rfl, rfl, rfl⟩

-- More entries than an `int` can count, all of them for one pipe that is alive.
def crowded : RouterIPC ℕ where
  segment := [⟨.new 1, 1⟩]
  mutex   := false
  pipes   := List.replicate (2 ^ 31) 0

theorem crowded_length : crowded.pipes.length = 2 ^ 31 :=
  List.length_replicate

-- The pipe is not sent anything.
theorem not_sweeps : ∃ c : Config ℕ, ((program ℕ).system (·.mutex = false)).Reachable c ∧
    c.calls[0]? = some (.send { ptr := some 7, pc := .returned 0 }) ∧ ¬Sweeps 0 (c.recordsOf 0) := by
  have hl : ¬((0 : ℕ) : ℤ) < SizeT.toInt crowded.pipes.length := by
    have := toInt_two_pow_neg
    rw [crowded_length]
    omega
  have ⟨c, hc, hs, hleft, hvisits⟩ := exists_idle rfl hl (some 7)
  refine ⟨c, hc, hs, fun h => ?_⟩
  have hlen := h.left.length_eq
  rw [hleft, hvisits, crowded_length] at hlen
  exact absurd hlen (by decide)

end RouterIPC
