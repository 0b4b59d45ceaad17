import Mathlib

-- `size_t` of the 64-bit targets, so all of its arithmetic wraps around at 2⁶⁴.
abbrev SizeT := UInt64

-- An address is a number, and `nullptr` is 0.
abbrev Address := SizeT

-- A text is a list of characters, one for each of its bytes.
abbrev Text := List Char

-- What ends a call other than its return.
inductive Fault
  | bad_alloc
  | bad_function_call
  | undefinedBehavior
  deriving DecidableEq

namespace Except

variable {α β ε : Type*} {e : Except ε α} {f : α → β} {a : α} {b : β}

theorem toOption_eq_some : e.toOption = some a ↔ e = .ok a := by
  cases e <;> simp [Except.toOption]

theorem map_eq_ok : e.map f = .ok b ↔ ∃ a, e = .ok a ∧ f a = b := by
  cases e <;> simp [Except.map]

end Except

namespace SizeT

theorem toNat_lt (n : SizeT) : n.toNat < 2 ^ 64 :=
  UInt64.toNat_lt n

theorem toNat_pos_iff {n : SizeT} : 0 < n.toNat ↔ 0 < n := by
  simp [UInt64.lt_iff_toNat_lt]

theorem toNat_succ {n : SizeT} (h : n.toNat + 1 < 2 ^ 64) : (n + 1).toNat = n.toNat + 1 := by
  rw [UInt64.toNat_add]
  exact Nat.mod_eq_of_lt h

theorem toNat_pred {n : SizeT} (h : 0 < n.toNat) : (n - 1).toNat = n.toNat - 1 := by
  rw [UInt64.toNat_sub_of_le] <;> simp [UInt64.le_iff_toNat_le]
  omega

-- The successor of a ring index never wraps around at 2⁶⁴, as the index is below the capacity.
theorem toNat_succ_mod {n m : SizeT} (h : n < m) : ((n + 1) % m).toNat = (n.toNat + 1) % m.toNat := by
  have h := UInt64.lt_iff_toNat_lt.mp h
  have := m.toNat_lt
  rw [UInt64.toNat_mod, toNat_succ (by omega)]

theorem succ_mod_lt {n m : SizeT} (h : 0 < m) : (n + 1) % m < m := by
  rw [UInt64.lt_iff_toNat_lt, UInt64.toNat_mod]
  exact Nat.mod_lt _ <| toNat_pos_iff.mpr h

-- The conversion `(int)`, which keeps the lower 32 bits.
def toInt (n : ℕ) : ℤ :=
  (n : ℤ).bmod (2 ^ 32)

theorem toInt_of_lt {n : ℕ} (h : n < 2 ^ 31) : toInt n = n :=
  Int.bmod_eq_of_le_mul_two (by omega) (by omega)

theorem bmod_le (n m : ℕ) : (n : ℤ).bmod m ≤ n := by
  have : (n : ℤ) % m ≤ n := by exact_mod_cast Nat.mod_le n m
  rw [Int.bmod_eq_emod]
  split <;> omega

theorem toInt_le (n : ℕ) : toInt n ≤ n :=
  bmod_le n _

end SizeT
