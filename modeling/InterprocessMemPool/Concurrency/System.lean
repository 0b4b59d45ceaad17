import Mathlib

-- A labelled transition system: the states in which a run may begin, and the steps it may take.
structure System (σ ι : Type*) where
  Init : σ → Prop
  Step : σ → ι → σ → Prop

namespace System

variable {σ ι τ κ : Type*}

inductive Reachable (S : System σ ι) : σ → Prop
  | init {s} : S.Init s → Reachable S s
  | step {s₁ a s₂} : Reachable S s₁ → S.Step s₁ a s₂ → Reachable S s₂

-- The runs from one state to another, with the labels of their steps in order.
inductive Run (S : System σ ι) : σ → List ι → σ → Prop
  | refl {s} : Run S s [] s
  | step {s₁ a s₂ as s₃} : S.Step s₁ a s₂ → Run S s₂ as s₃ → Run S s₁ (a :: as) s₃

variable {S : System σ ι} {s s₁ s₂ s₃ : σ} {a : ι}

namespace Run

theorem single (h : S.Step s₁ a s₂) : S.Run s₁ [a] s₂ :=
  .step h .refl

theorem trans {as bs : List ι} (r₁ : S.Run s₁ as s₂) (r₂ : S.Run s₂ bs s₃) :
    S.Run s₁ (as ++ bs) s₃ := by
  induction r₁
  case refl        => exact r₂
  case step h _ ih => exact .step h (ih r₂)

theorem reachable {as : List ι} (r : S.Run s₁ as s₂) (h : S.Reachable s₁) : S.Reachable s₂ := by
  induction r
  case refl          => exact h
  case step hs _ ih  => exact ih (h.step hs)

-- A property that every step from a reachable state keeps is kept by every run.
theorem preserves {as : List ι} {I : σ → Prop} (r : S.Run s₁ as s₂) (hr : S.Reachable s₁)
    (hs : ∀ {s a s'}, S.Reachable s → I s → S.Step s a s' → I s') (h : I s₁) : I s₂ := by
  induction r
  case refl           => exact h
  case step st _ ih => exact ih (hr.step st) (hs hr h st)

end Run

-- An inductive invariant. The reachability of the state before the step is given to the step case,
-- so that an invariant can build on ones that are already established.
structure Invariant (S : System σ ι) (I : σ → Prop) : Prop where
  init : ∀ {s}, S.Init s → I s
  step : ∀ {s a s'}, S.Reachable s → I s → S.Step s a s' → I s'

theorem Invariant.holds {I : σ → Prop} (inv : S.Invariant I) (h : S.Reachable s) : I s := by
  induction h
  case init h       => exact inv.init h
  case step hr h ih => exact inv.step hr ih h

theorem Reachable.exists_run (h : S.Reachable s) : ∃ s₀ as, S.Init s₀ ∧ S.Run s₀ as s := by
  induction h
  case init s h      => exact ⟨s, [], h, .refl⟩
  case step hs ih =>
    have ⟨s₀, as, hi, hr⟩ := ih
    exact ⟨s₀, _, hi, hr.trans (.single hs)⟩

-- If there never is a choice, then of two states that are reached one is reached from the other.
theorem Reachable.run_or_run (hi : ∀ {s t}, S.Init s → S.Init t → s = t)
    (hd : ∀ {s a t b u}, S.Step s a t → S.Step s b u → t = u) (h₁ : S.Reachable s₁) (h₂ : S.Reachable s₂) :
    (∃ as, S.Run s₁ as s₂) ∨ ∃ as, S.Run s₂ as s₁ := by
  induction h₁
  case init h =>
    have ⟨s₀, as, h₀, hr⟩ := h₂.exists_run
    exact .inl ⟨as, hi h h₀ ▸ hr⟩
  case step hs ih =>
    obtain ⟨_, hr⟩ | ⟨_, hr⟩ := ih
    case inr => exact .inr ⟨_, hr.trans (.single hs)⟩
    case inl =>
      cases hr
      case refl       => exact .inr ⟨_, .single hs⟩
      case step hs' hr => exact .inl ⟨_, hd hs' hs ▸ hr⟩

-- The system whose runs are those runs of `S` in which every step meets `C`.
def restrict (S : System σ ι) (C : σ → ι → Prop) : System σ ι where
  Init       := S.Init
  Step s a t := C s a ∧ S.Step s a t

@[simp]
theorem restrict_true : S.restrict (fun _ _ => True) = S := by
  simp [restrict]

theorem Reachable.of_restrict {C : σ → ι → Prop} (h : (S.restrict C).Reachable s) :
    S.Reachable s := by
  induction h
  case init h      => exact .init h
  case step h₁ h₂  => exact h₂.step h₁.right

theorem Reachable.restrict_mono {C D : σ → ι → Prop} (h : (S.restrict C).Reachable s)
    (hi : ∀ {s a}, (S.restrict C).Reachable s → C s a → D s a) : (S.restrict D).Reachable s := by
  induction h
  case init h       => exact .init h
  case step hr hs h => exact h.step ⟨hi hr hs.left, hs.right⟩

-- A system in which every action has at most one outcome.
def ofNext (Init : σ → Prop) (next : σ → ι → Option σ) : System σ ι where
  Init       := Init
  Step s a t := next s a = some t

theorem ofNext_run {Init : σ → Prop} {next : σ → ι → Option σ} {as : List ι}
    (h : as.foldlM next s = some s₁) : (ofNext Init next).Run s as s₁ := by
  induction as generalizing s
  case nil          => exact Option.some.inj h ▸ .refl
  case cons a as ih =>
    rw [List.foldlM_cons] at h
    have ⟨_, hn, he⟩ := Option.bind_eq_some_iff.mp h
    exact .step hn (ih he)

-- Runs that are given by their actions, and whose steps all meet a condition.
def exec (next : σ → ι → Option σ) (C : σ → ι → Prop) [∀ s a, Decidable (C s a)] (s : σ) :
    List ι → Option σ
  | []      => some s
  | a :: as => if C s a then (next s a).bind (exec next C · as) else none

section

variable {Init : σ → Prop} {next : σ → ι → Option σ} {C : σ → ι → Prop} [∀ s a, Decidable (C s a)]

theorem exec_run {as : List ι} (h : exec next C s as = some s₁) :
    ((ofNext Init next).restrict C).Run s as s₁ := by
  induction as generalizing s
  case nil => exact Option.some.inj h ▸ .refl
  case cons ih =>
    rw [exec, Option.ite_none_right_eq_some] at h
    have ⟨_, hn, he⟩ := Option.bind_eq_some_iff.mp h.right
    exact .step ⟨h.left, hn⟩ (ih he)

-- For runs that are evaluated.
theorem exec_reachable {as : List ι} {Q : σ → Prop} [DecidablePred Q] (hi : Init s)
    (h : (exec next C s as).any (Q ·)) :
    ∃ t, ((ofNext Init next).restrict C).Reachable t ∧ Q t := by
  have ⟨t, ht, hq⟩ := (Option.any_eq_true ..).mp h
  exact ⟨t, (exec_run ht).reachable (.init hi), of_decide_eq_true hq⟩

end

-- A forward simulation that tracks what has been observed so far: every step of `S` is matched by
-- a (possibly empty) run of `A`, whose labels are what the step adds to the observation.
structure Refines (S : System σ ι) (A : System τ κ) (abs : σ → τ → Prop) (obs : σ → List κ) where
  init : ∀ {s}, S.Init s → ∃ t, A.Init t ∧ abs s t ∧ obs s = []
  step : ∀ {s a s' t}, S.Reachable s → abs s t → S.Step s a s' →
    ∃ ks t', A.Run t ks t' ∧ abs s' t' ∧ obs s' = obs s ++ ks

theorem Refines.run {A : System τ κ} {abs : σ → τ → Prop} {obs : σ → List κ}
    (rf : S.Refines A abs obs) (h : S.Reachable s) :
    ∃ t₀ t, A.Init t₀ ∧ A.Run t₀ (obs s) t ∧ abs s t := by
  induction h
  case init h =>
    have ⟨t, ht, ha, ho⟩ := rf.init h
    exact ⟨t, t, ht, ho ▸ .refl, ha⟩
  case step hr hs ih =>
    have ⟨t₀, t, ht₀, ht, ha⟩ := ih
    have ⟨ks, t', ht', ha', ho⟩ := rf.step hr ha hs
    exact ⟨t₀, t', ht₀, ho ▸ ht.trans ht', ha'⟩

end System
