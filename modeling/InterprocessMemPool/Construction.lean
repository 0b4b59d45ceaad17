import InterprocessMemPool.Machine

variable {Args T : Type*}

-- A constructor gets the index of the element that it is called for, and the arguments, of which it may
-- move. There is no result if it throws.
abbrev Constructor (Args T : Type*) :=
  ℕ → Args → Option (T × Args)

-- The elements that a loop has constructed, and whether a constructor has thrown.
structure Constructed (T : Type*) where
  elements : List T
  threw    : Bool

-- The loop over the elements from the given index on, `n` of which are still to be constructed.
def construct (new : Constructor Args T) (i : ℕ) (args : Args) : (n : ℕ) → Constructed T
  | 0     => ⟨[], false⟩
  | n + 1 =>
    match new i args with
    | none            => ⟨[], true⟩
    | some (t, args') =>
      let rest := construct new (i + 1) args' n
      ⟨t :: rest.elements, rest.threw⟩

namespace construct

variable {new : Constructor Args T} {i n : ℕ} {args args' : Args} {t : T}

theorem succ_of_none (h : new i args = none) : construct new i args (n + 1) = ⟨[], true⟩ := by
  simp [construct, h]

theorem succ_of_some (h : new i args = some (t, args')) : construct new i args (n + 1) =
    ⟨t :: (construct new (i + 1) args' n).elements, (construct new (i + 1) args' n).threw⟩ := by
  simp [construct, h]

-- The constructor that has thrown is that of the element behind those that have been constructed.
theorem length_lt_of_threw (h : (construct new i args n).threw) :
    (construct new i args n).elements.length < n := by
  induction n generalizing i args
  case zero      => cases h
  case succ n ih =>
    obtain hn | ⟨⟨t, args'⟩, hn⟩ := Option.eq_none_or_eq_some (new i args)
    case inl =>
      rw [succ_of_none hn]
      exact n.succ_pos
    case inr =>
      rw [succ_of_some hn] at h ⊢
      exact Nat.succ_lt_succ (ih h)

end construct

-- An element, and the arguments that its constructor was given.
structure Forwarded (Args T : Type*) where
  element : T
  given   : Args
  deriving DecidableEq

-- A constructor that does not throw, and returns the element and what it has made of the arguments.
def forwarding (new : Args → T × Args) : Constructor Args (Forwarded Args T) := fun _ args =>
  some (⟨(new args).1, args⟩, (new args).2)

namespace forwarding

variable {new : Args → T × Args} {i n : ℕ} {args : Args}

-- Each constructor is given what those before it have left of the arguments.
theorem construct_eq : construct (forwarding new) i args n =
    ⟨(List.iterate (fun args => (new args).2) args n).map fun args => ⟨(new args).1, args⟩, false⟩ := by
  induction n generalizing i args
  case zero      => rfl
  case succ n ih => rw [construct.succ_of_some rfl, ih, List.iterate, List.map_cons]

-- All constructors are given the same arguments if the first one leaves them as they are. If it does not, then
-- there must be no second one.
theorem all_given_iff : (∀ x ∈ (construct (forwarding new) i args n).elements, x = ⟨(new args).1, args⟩) ↔
    n ≤ 1 ∨ (new args).2 = args := by
  rw [construct_eq]
  constructor
  · intro h
    refine (Nat.lt_or_ge 1 n).symm.imp_right fun hn => ?_
    have hm : (new args).2 ∈ List.iterate (fun args => (new args).2) args n := List.mem_iterate.mpr ⟨1, hn, rfl⟩
    exact congrArg Forwarded.given (h _ (List.mem_map_of_mem hm))
  · intro h x hx
    obtain ⟨args', hm, rfl⟩ := List.mem_map.mp hx
    obtain ⟨k, hk, rfl⟩ := List.mem_iterate.mp hm
    suffices hfix : (fun args => (new args).2)^[k] args = args by rw [hfix]
    cases h
    case inl h =>
      obtain rfl : k = 0 := by omega
      rfl
    case inr h => exact Function.iterate_fixed h k

end forwarding
