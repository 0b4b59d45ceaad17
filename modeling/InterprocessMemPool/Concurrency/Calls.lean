import InterprocessMemPool.Concurrency.System

-- A program that any number of concurrent calls execute over one shared state. A call is its local
-- state, that is, its program counter and its variables. `step` is one atomic step of a call. It is
-- partial, as a call can be blocked, and takes a choice for whatever the shared state does not
-- determine.
structure Program (σ ℓ χ : Type*) where
  starts : ℓ → Bool
  step : χ → σ → ℓ → Option (σ × ℓ)

namespace Program

variable {σ ℓ χ : Type*}

-- An atomic step that was taken by the call with index `call`.
structure Record (σ ℓ : Type*) where
  call : ℕ
  pre : σ × ℓ
  post : σ × ℓ

-- Calls are identified by their position in `calls`. They are never removed from that list, so a
-- call that has returned can still be asked for its result.
structure Config (σ ℓ : Type*) where
  shared : σ
  calls : List ℓ
  history : List (Record σ ℓ)

inductive Action (ℓ χ : Type*)
  | enter (l : ℓ)
  | run (i : ℕ) (x : χ)

-- The action is a step of the call with index `i`.
def Action.by (a : Action ℓ χ) (i : ℕ) : Bool :=
  match a with
  | .enter _ => false
  | .run j _ => j = i

namespace Config

variable {c : Config σ ℓ} {l l' : ℓ} {s' : σ} {i j : ℕ} {w : ℓ → ℕ}

def enter (c : Config σ ℓ) (l : ℓ) : Config σ ℓ :=
  { c with calls := c.calls ++ [l] }

def after (c : Config σ ℓ) (i : ℕ) (l : ℓ) (s' : σ) (l' : ℓ) : Config σ ℓ where
  shared  := s'
  calls   := c.calls.set i l'
  history := c.history ++ [⟨i, (c.shared, l), (s', l')⟩]

@[simp]
theorem enter_shared : (c.enter l).shared = c.shared :=
  rfl

@[simp]
theorem enter_history : (c.enter l).history = c.history :=
  rfl

@[simp]
theorem after_shared : (c.after i l s' l').shared = s' :=
  rfl

@[simp]
theorem after_history :
    (c.after i l s' l').history = c.history ++ [⟨i, (c.shared, l), (s', l')⟩] :=
  rfl

theorem enter_calls_get? (h : (c.enter l).calls[j]? = some l') :
    (c.calls[j]? = some l') ∨ (j = c.calls.length ∧ l' = l) := by
  simp only [enter, List.getElem?_append] at h
  split at h
  case isTrue  => exact .inl h
  case isFalse hj =>
    have ⟨hj', hl⟩ := List.getElem?_eq_some_iff.mp h
    simp only [List.length_singleton] at hj'
    exact .inr ⟨by omega, by simp [← hl]⟩

theorem after_calls_get? (h : (c.after i l s' l').calls[j]? = some l₁) :
    (j = i ∧ l₁ = l') ∨ (j ≠ i ∧ c.calls[j]? = some l₁) := by
  simp only [after, List.getElem?_set] at h
  split at h
  case isTrue hj =>
    split at h <;> simp_all
  case isFalse hj => exact .inr ⟨Ne.symm hj, h⟩

-- The sum over all calls of a weight, for example the number of calls that are at a given place.
def total (c : Config σ ℓ) (w : ℓ → ℕ) : ℕ :=
  (c.calls.map w).sum

@[simp]
theorem total_enter : (c.enter l).total w = c.total w + w l := by
  simp [total, enter]

theorem total_after (w : ℓ → ℕ) (s' : σ) (l' : ℓ) (h : c.calls[i]? = some l) :
    (c.after i l s' l').total w + w l = c.total w + w l' := by
  have ⟨hi, hl⟩ := List.getElem?_eq_some_iff.mp h
  have h₁ : c.calls = c.calls.take i ++ l :: c.calls.drop (i + 1) := by simp [← hl]
  have h₂ : c.calls.set i l' = c.calls.take i ++ l' :: c.calls.drop (i + 1) :=
    List.set_eq_take_append_cons_drop .. |>.trans (by simp [hi])
  have ht := congrArg (fun cs => (cs.map w).sum) h₁
  simp only [List.map_append, List.map_cons, List.sum_append, List.sum_cons] at ht
  simp only [total, after, h₂, List.map_append, List.map_cons, List.sum_append, List.sum_cons]
  omega

theorem le_total (h : c.calls[i]? = some l) : w l ≤ c.total w :=
  List.single_le_sum (fun _ _ => Nat.zero_le _) _ <|
    List.mem_map_of_mem <| List.mem_of_getElem? h

theorem total_eq_zero_iff : c.total w = 0 ↔ ∀ l ∈ c.calls, w l = 0 := by
  simp [total, List.sum_eq_zero_iff_forall_eq_nat]

-- The steps that one call has taken so far, oldest first.
def recordsOf (c : Config σ ℓ) (i : ℕ) : List (Record σ ℓ) :=
  c.history.filter (·.call = i)

theorem recordsOf_enter : (c.enter l).recordsOf i = c.recordsOf i :=
  rfl

theorem recordsOf_after_self :
    (c.after i l s' l').recordsOf i = c.recordsOf i ++ [⟨i, (c.shared, l), (s', l')⟩] := by
  simp [recordsOf]

theorem recordsOf_after_ne (h : j ≠ i) : (c.after i l s' l').recordsOf j = c.recordsOf j := by
  simp [recordsOf, Ne.symm h]

end Config

variable {P : Program σ ℓ χ} {Init : σ → Prop} {c c' : Config σ ℓ} {a : Action ℓ χ}

def next (P : Program σ ℓ χ) (c : Config σ ℓ) : Action ℓ χ → Option (Config σ ℓ)
  | .enter l => if P.starts l then some (c.enter l) else none
  | .run i x =>
    c.calls[i]?.bind fun l => (P.step x c.shared l).map fun r => c.after i l r.1 r.2

theorem next_cases (h : P.next c a = some c') :
    (∃ l, a = .enter l ∧ P.starts l ∧ c' = c.enter l) ∨
    (∃ i x l s' l', a = .run i x ∧ c.calls[i]? = some l ∧ P.step x c.shared l = some (s', l') ∧
      c' = c.after i l s' l') := by
  cases a
  case enter l =>
    simp only [next, Option.ite_none_right_eq_some, Option.some.injEq] at h
    exact .inl ⟨l, rfl, h.left, h.right.symm⟩
  case run i x =>
    simp only [next, Option.bind_eq_some_iff, Option.map_eq_some_iff] at h
    have ⟨l, hl, ⟨s', l'⟩, hs, h⟩ := h
    exact .inr ⟨i, x, l, s', l', rfl, hl, hs, h.symm⟩

theorem next_run {i : ℕ} {x : χ} {l l' : ℓ} {s' : σ} (hl : c.calls[i]? = some l)
    (hs : P.step x c.shared l = some (s', l')) : P.next c (.run i x) = some (c.after i l s' l') := by
  simp only [next, hl, Option.bind_some, hs, Option.map_some]

-- All interleavings of the program's calls.
def system (P : Program σ ℓ χ) (Init : σ → Prop) : System (Config σ ℓ) (Action ℓ χ) :=
  .ofNext (fun c => Init c.shared ∧ c.calls = [] ∧ c.history = []) P.next

-- An invariant has to survive a call being made, and a call taking an atomic step.
theorem invariant_restrict {C : Config σ ℓ → Action ℓ χ → Prop} {I : Config σ ℓ → Prop}
    (init : ∀ {s}, Init s → I ⟨s, [], []⟩)
    (enter : ∀ {c l}, ((P.system Init).restrict C).Reachable c → I c → C c (.enter l) → P.starts l →
      I (c.enter l))
    (run : ∀ {c i x l s' l'}, ((P.system Init).restrict C).Reachable c → I c → C c (.run i x) →
      c.calls[i]? = some l → P.step x c.shared l = some (s', l') → I (c.after i l s' l')) :
    ((P.system Init).restrict C).Invariant I where
  init {c} h := by
    have ⟨hi, hc, hh⟩ := h
    cases c
    simp only at hc hh hi
    exact hc ▸ hh ▸ init hi
  step hr h hs := by
    obtain ⟨l, rfl, hl, rfl⟩ | ⟨i, x, l, s', l', rfl, hl, hp, rfl⟩ := next_cases hs.right
    · exact enter hr h hs.left hl
    · exact run hr h hs.left hl hp

theorem invariant {I : Config σ ℓ → Prop}
    (init : ∀ {s}, Init s → I ⟨s, [], []⟩)
    (enter : ∀ {c l}, (P.system Init).Reachable c → I c → P.starts l → I (c.enter l))
    (run : ∀ {c i x l s' l'}, (P.system Init).Reachable c → I c → c.calls[i]? = some l →
      P.step x c.shared l = some (s', l') → I (c.after i l s' l')) :
    (P.system Init).Invariant I := by
  rw [← System.restrict_true (S := P.system Init)]
  refine invariant_restrict init (fun hr h _ => enter ?_ h) (fun hr h _ => run ?_ h)
  all_goals exact hr.of_restrict

theorem reachable_mono {Init' : σ → Prop} (hi : ∀ {s}, Init s → Init' s)
    (h : (P.system Init).Reachable c) : (P.system Init').Reachable c := by
  induction h
  case init h      => exact .init ⟨hi h.left, h.right⟩
  case step hs ih  => exact ih.step hs

theorem recordsOf_eq_nil_of_length_le (h : (P.system Init).Reachable c) :
    ∀ i, c.calls.length ≤ i → c.recordsOf i = [] := by
  refine invariant (I := fun c => ∀ i, c.calls.length ≤ i → c.recordsOf i = []) ?_ ?_ ?_ |>.holds h
  · intros
    rfl
  · intro c l _ ih _ i hi
    simp only [Config.enter, List.length_append] at hi
    exact ih i (by omega)
  · intro c i x l s' l' _ ih hl _ j hj
    have ⟨hi, _⟩ := List.getElem?_eq_some_iff.mp hl
    simp only [Config.after, List.length_set] at hj
    rw [Config.recordsOf_after_ne (by omega)]
    exact ih j hj

-- What holds of a call whatever all others do: `J` relates the local state of a call to the steps
-- that the call has taken. Nothing is assumed of the shared state between those steps.
theorem local_invariant {J : ℓ → List (Record σ ℓ) → Prop}
    (start : ∀ {l}, P.starts l → J l [])
    (step : ∀ {i x s l s' l' rs}, J l rs → P.step x s l = some (s', l') →
      J l' (rs ++ [⟨i, (s, l), (s', l')⟩]))
    (h : (P.system Init).Reachable c) {i : ℕ} {l : ℓ} (hl : c.calls[i]? = some l) :
    J l (c.recordsOf i) := by
  refine invariant (I := fun c => ∀ {i l}, c.calls[i]? = some l → J l (c.recordsOf i))
    ?_ ?_ ?_ |>.holds h hl
  · intro _ _ _ _ hl
    simp at hl
  · intro c l hr ih hs j l' hl
    cases Config.enter_calls_get? hl
    case inl h => exact ih h
    case inr h =>
      rw [h.right, Config.recordsOf_enter, recordsOf_eq_nil_of_length_le hr j h.left.ge]
      exact start hs
  · intro c i x l s' l' _ ih hl hs j l₁ hj
    obtain ⟨rfl, rfl⟩ | ⟨hne, hj⟩ := Config.after_calls_get? hj
    · rw [Config.recordsOf_after_self]
      exact step (ih hl) hs
    · rw [Config.recordsOf_after_ne hne]
      exact ih hj

variable {C : Config σ ℓ → Action ℓ χ → Prop} [∀ c a, Decidable (C c a)]

theorem exec_reachable {s : σ} {as : List (Action ℓ χ)} {Q : Config σ ℓ → Prop} [DecidablePred Q]
    (hi : Init s) (h : (System.exec P.next C ⟨s, [], []⟩ as).any (Q ·)) :
    ∃ c, ((P.system Init).restrict C).Reachable c ∧ Q c :=
  System.exec_reachable ⟨hi, rfl, rfl⟩ h

theorem exec_reachable_of_eq {s : σ} {as : List (Action ℓ χ)} {Q : Config σ ℓ → Prop} [DecidablePred Q]
    (h : (System.exec P.next C ⟨s, [], []⟩ as).any (Q ·)) :
    ∃ c, ((P.system (· = s)).restrict C).Reachable c ∧ Q c :=
  P.exec_reachable rfl h

end Program
