import Mathlib

namespace Shedding

variable {α : Type*} {keep p : α → Bool} {max n : ℕ} {as : List α}

-- What is left of the end `as` of a queue of `n` elements, and what has been dropped from it. Elements
-- are dropped from the front on for as long as the queue has at least `max` of them.
def shed (keep : α → Bool) (max : ℕ) : ℕ → List α → List α × List α
  | _, []      => ([], [])
  | n, a :: as =>
    if n < max then (a :: as, []) else
    if keep a then
      let (kept, dropped) := shed keep max n as
      (a :: kept, dropped)
    else
      let (kept, dropped) := shed keep max (n - 1) as
      (kept, a :: dropped)

theorem shed_cons_of_lt {a : α} (h : n < max) : shed keep max n (a :: as) = (a :: as, []) := by
  simp [shed, h]

theorem shed_of_lt (h : n < max) : shed keep max n as = (as, []) := by
  cases as
  case nil  => rfl
  case cons => exact shed_cons_of_lt h

theorem shed_cons_of_keep {a : α} (h : ¬n < max) (hk : keep a) : shed keep max n (a :: as) =
    (a :: (shed keep max n as).1, (shed keep max n as).2) := by
  simp [shed, h, hk]

theorem shed_cons_of_not_keep {a : α} (h : ¬n < max) (hk : ¬keep a) : shed keep max n (a :: as) =
    ((shed keep max (n - 1) as).1, a :: (shed keep max (n - 1) as).2) := by
  simp [shed, h, hk]

theorem kept_sublist (keep : α → Bool) (max n : ℕ) (as : List α) :
    (shed keep max n as).1.Sublist as := by
  induction as generalizing n
  case nil => exact .slnil
  case cons a as ih =>
    by_cases h : n < max
    case pos => rw [shed_cons_of_lt h]
    case neg =>
      by_cases hk : keep a
      case pos => rw [shed_cons_of_keep h hk]; exact (ih _).cons_cons a
      case neg => rw [shed_cons_of_not_keep h hk]; exact (ih _).cons a

theorem dropped_sublist : (shed keep max n as).2.Sublist as := by
  induction as generalizing n
  case nil => exact .slnil
  case cons a as ih =>
    by_cases h : n < max
    case pos => rw [shed_cons_of_lt h]; exact List.nil_sublist _
    case neg =>
      by_cases hk : keep a
      case pos => rw [shed_cons_of_keep h hk]; exact ih.cons a
      case neg => rw [shed_cons_of_not_keep h hk]; exact ih.cons_cons a

-- Each element is either kept or dropped.
theorem perm : ((shed keep max n as).1 ++ (shed keep max n as).2).Perm as := by
  induction as generalizing n
  case nil => exact .refl _
  case cons a as ih =>
    by_cases h : n < max
    case pos => rw [shed_cons_of_lt h, List.append_nil]
    case neg =>
      by_cases hk : keep a
      case pos => rw [shed_cons_of_keep h hk]; exact ih.cons a
      case neg => rw [shed_cons_of_not_keep h hk]; exact List.perm_middle.trans (ih.cons a)

theorem filter_kept (hp : ∀ {a}, p a → keep a) : (shed keep max n as).1.filter p = as.filter p := by
  induction as generalizing n
  case nil => rfl
  case cons a as ih =>
    by_cases h : n < max
    case pos => rw [shed_cons_of_lt h]
    case neg =>
      by_cases hk : keep a
      case pos => rw [shed_cons_of_keep h hk, List.filter_cons, List.filter_cons, ih]
      case neg => rw [shed_cons_of_not_keep h hk, List.filter_cons_of_neg (mt hp hk), ih]

-- Those that are dropped are the first ones that may be: up to some point all of them are, and behind it
-- none is. If the queue still has too many elements, then there is nothing left behind that point.
theorem exists_cut (keep : α → Bool) (max n : ℕ) (as : List α) : ∃ older newer, as = older ++ newer ∧
    (shed keep max n as).1 = older.filter keep ++ newer ∧
    (n < max + (as.length - (shed keep max n as).1.length) ∨ newer = []) := by
  induction as generalizing n
  case nil => exact ⟨[], [], rfl, rfl, .inr rfl⟩
  case cons a as ih =>
    by_cases h : n < max
    case pos =>
      rw [shed_cons_of_lt h]
      exact ⟨[], a :: as, rfl, rfl, .inl (by omega)⟩
    case neg =>
      by_cases hk : keep a
      case pos =>
        rw [shed_cons_of_keep h hk]
        have ⟨older, newer, has, hkept, hn⟩ := ih n
        refine ⟨a :: older, newer, by rw [has, List.cons_append], ?_, ?_⟩
        · rw [hkept, List.filter_cons_of_pos hk, List.cons_append]
        · simpa using hn
      case neg =>
        rw [shed_cons_of_not_keep h hk]
        have ⟨older, newer, has, hkept, hn⟩ := ih (n - 1)
        have hle := (kept_sublist keep max (n - 1) as).length_le
        refine ⟨a :: older, newer, by rw [has, List.cons_append], ?_, ?_⟩
        · rw [hkept, List.filter_cons_of_neg hk]
        · refine hn.imp_left fun hn => ?_
          simp only [List.length_cons]
          omega

end Shedding
