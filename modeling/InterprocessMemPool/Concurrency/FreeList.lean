import Mathlib

namespace FreeList

variable {α : Type*} {all slots out out' : List α} {top : ℕ} {a : α}

-- A stack of free blocks that is kept in an array. The entries below `top` and the blocks that are
-- out are all blocks there are.
structure Holds (all slots : List α) (top : ℕ) (out : List α) : Prop where
  length_eq : slots.length = all.length
  top_le    : top ≤ slots.length
  perm      : (slots.take top ++ out).Perm all

namespace Holds

theorem init (all : List α) : Holds all all all.length [] where
  length_eq := rfl
  top_le    := Nat.le_refl _
  perm      := by simp

theorem top_add_length (h : Holds all slots top out) : top + out.length = all.length := by
  have := h.perm.length_eq
  have := h.top_le
  simp only [List.length_append, List.length_take] at *
  omega

theorem top_lt (h : Holds all slots top out) (ha : a ∈ out) : top < slots.length := by
  have := List.length_pos_of_mem ha
  have := h.top_add_length
  have := h.length_eq
  omega

theorem nodup (h : Holds all slots top out) (hn : all.Nodup) : (slots.take top ++ out).Nodup :=
  h.perm.nodup_iff.mpr hn

theorem mem_take_iff (h : Holds all slots top out) (hn : all.Nodup) (ha : a ∈ all) : a ∈ slots.take top ↔ a ∉ out := by
  have hd := List.disjoint_of_nodup_append (h.nodup hn)
  constructor
  · exact fun ht ho => hd ht ho
  · exact fun ho => (List.mem_append.mp (h.perm.mem_iff.mpr ha)).resolve_right ho

theorem mem_of_mem_out (h : Holds all slots top out) (ha : a ∈ out) : a ∈ all :=
  h.perm.subset <| List.mem_append_right _ ha

theorem mem_of_getElem? (h : Holds all slots (top + 1) out) (ha : slots[top]? = some a) : a ∈ all :=
  h.perm.subset <| List.mem_append_left _ <| by simp [List.take_add_one, ha]

theorem congr (h : Holds all slots top out) (hp : out'.Perm out) : Holds all slots top out' :=
  ⟨h.length_eq, h.top_le, (hp.append_left _).trans h.perm⟩

-- A block that is free is not out.
theorem not_mem_of_getElem? (h : Holds all slots (top + 1) out) (hn : all.Nodup)
    (ha : slots[top]? = some a) : a ∉ out := by
  have hn := h.nodup hn
  rw [List.take_add_one, ha] at hn
  exact fun hm => (List.nodup_append.mp hn).right.right a (by simp) a hm rfl

theorem loan (h : Holds all slots (top + 1) out) (ha : slots[top]? = some a) :
    Holds all slots top (a :: out) where
  length_eq := h.length_eq
  top_le    := Nat.le_of_succ_le h.top_le
  perm      := by
    have := h.perm
    rwa [List.take_add_one, ha, List.append_assoc] at this

theorem accept [DecidableEq α] (h : Holds all slots top out) (ha : a ∈ out) :
    Holds all (slots.set top a) (top + 1) (out.erase a) where
  length_eq := List.length_set.trans h.length_eq
  top_le    := List.length_set.symm ▸ h.top_lt ha
  perm      := by
    have ht : (slots.set top a).take (top + 1) = slots.take top ++ [a] := by
      simp [List.take_add_one, h.top_lt ha, List.take_set_of_le (Nat.le_refl top)]
    rw [ht, List.append_assoc]
    exact (List.perm_cons_erase ha).symm.append_left _ |>.trans h.perm

end Holds
end FreeList
