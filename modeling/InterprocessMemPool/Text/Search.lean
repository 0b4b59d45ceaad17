import Mathlib

namespace Search

variable {α : Type*} [DecidableEq α] {key as run : List α} {p : α → Bool} {stop : α}
variable {name name' value rest : List α} {b colon : α}

-- A key that is followed by a longest run of elements with `p`, which is not empty, and by `stop`.
def runAt (key : List α) (p : α → Bool) (stop : α) (as : List α) : Option (List α) :=
  match as.dropPrefix? key with
  | none      => none
  | some rest =>
    if rest.takeWhile p ≠ [] ∧ (rest.dropWhile p).head? = some stop then some (rest.takeWhile p)
    else none

-- The last mark of a list tells where its two parts meet.
omit [DecidableEq α] in
theorem append_cons_inj {as as' bs bs' : List α} (hb : b ∉ bs) (hb' : b ∉ bs')
    (h : as ++ b :: bs = as' ++ b :: bs') : as = as' ∧ bs = bs' := by
  obtain ⟨cs, hc, hr⟩ | ⟨cs, hc, hr⟩ := List.append_eq_append_iff.mp h
  all_goals
    cases cs
    case nil =>
      simp only [List.nil_append, List.cons.injEq, true_and] at hr
      simp [hc, hr]
    case cons =>
      simp only [List.cons_append, List.cons.injEq] at hr
      simp_all

-- The run in the leftmost place that has one.
def search (key : List α) (p : α → Bool) (stop : α) : List α → Option (List α)
  | []      => runAt key p stop []
  | a :: as => (runAt key p stop (a :: as)).or (search key p stop as)

structure Found (key : List α) (p : α → Bool) (stop : α) (as run : List α) : Prop where
  ne_nil : run ≠ []
  all    : ∀ a ∈ run, p a
  occurs : key ++ run ++ [stop] <:+: as

theorem prefix_of_runAt (h : runAt key p stop as = some run) :
    run ≠ [] ∧ (∀ a ∈ run, p a) ∧ key ++ run ++ [stop] <+: as := by
  cases hd : as.dropPrefix? key
  case none      => simp [runAt, hd] at h
  case some rest =>
    simp only [runAt, hd, Option.ite_none_right_eq_some, Option.some.injEq] at h
    obtain ⟨⟨hne, hs⟩, rfl⟩ := h
    obtain ⟨key', rfl, hk⟩ := List.dropPrefix?_eq_some_iff.mp hd
    obtain rfl := eq_of_beq hk
    obtain ⟨rest', hr⟩ := List.head?_eq_some_iff.mp hs
    refine ⟨hne, fun _ => List.mem_takeWhile_imp, rest', ?_⟩
    calc key' ++ rest.takeWhile p ++ [stop] ++ rest'
        = key' ++ (rest.takeWhile p ++ rest.dropWhile p) := by simp [hr]
      _ = key' ++ rest := by rw [List.takeWhile_append_dropWhile]

theorem found_of_runAt (h : runAt key p stop as = some run) : Found key p stop as run :=
  have ⟨hne, ha, hk⟩ := prefix_of_runAt h
  ⟨hne, ha, hk.isInfix⟩

theorem found_of_search (h : search key p stop as = some run) : Found key p stop as run := by
  induction as
  case nil => exact found_of_runAt h
  case cons a as ih =>
    obtain h | ⟨_, h⟩ := Option.or_eq_some_iff.mp h
    · exact found_of_runAt h
    · have ⟨hne, ha, hi⟩ := ih h
      exact ⟨hne, ha, hi.trans (List.suffix_cons ..).isInfix⟩

theorem search_nil : search key p stop [] = none := by
  cases key <;> simp [search, runAt, List.dropPrefix?]

theorem search_eq_none (hk : b ∈ key) (ha : b ∉ as) : search key p stop as = none := by
  refine Option.eq_none_iff_forall_ne_some.mpr fun run h => ha ?_
  exact (found_of_search h).occurs.subset (by simp [hk])

theorem concat_isPrefix_iff (h : b ∉ run) :
    run ++ [b] <+: as ↔ b ∈ as ∧ as.takeWhile (· ≠ b) = run := by
  induction as generalizing run
  case nil => simp
  case cons a as ih =>
    cases run
    case nil =>
      by_cases he : b = a
      case pos => simp [he]
      case neg => simp [he, List.takeWhile_cons_of_pos, Ne.symm he]
    case cons c run =>
      obtain ⟨hc, hr⟩ := not_or.mp (List.mem_cons.not.mp h)
      by_cases he : b = a
      case pos => simp [← he, List.cons_prefix_cons, Ne.symm hc]
      case neg =>
        simp only [List.cons_append, List.cons_prefix_cons, ih hr, List.mem_cons, he, false_or]
        rw [List.takeWhile_cons_of_pos (by simpa using Ne.symm he), List.cons_eq_cons]
        tauto

theorem runAt_eq_some_iff (hp : p stop = false) : runAt key p stop as = some run ↔
    run ≠ [] ∧ (∀ a ∈ run, p a) ∧ key ++ run ++ [stop] <+: as := by
  refine ⟨prefix_of_runAt, fun ⟨hne, ha, rest, hr⟩ => ?_⟩
  have hd : as.dropPrefix? key = some (run ++ stop :: rest) :=
    List.dropPrefix?_eq_some_iff.mpr ⟨key, by simp [← hr], beq_self_eq_true key⟩
  simp only [runAt, hd]
  rw [List.takeWhile_append_of_pos ha, List.dropWhile_append_of_pos ha]
  simp [hp, hne]

theorem exists_search_iff (hp : p stop = false) :
    (∃ run, search key p stop as = some run) ↔ ∃ run, Found key p stop as run := by
  refine ⟨fun ⟨run, h⟩ => ⟨run, found_of_search h⟩, ?_⟩
  rintro ⟨run, hne, ha, ho⟩
  simp only [← Option.isSome_iff_exists]
  induction as
  case nil => simp at ho
  case cons a as ih =>
    rw [search, Option.isSome_or, Bool.or_eq_true]
    obtain hk | ho := List.infix_cons_iff.mp ho
    · exact .inl <| Option.isSome_iff_exists.mpr ⟨run, (runAt_eq_some_iff hp).mpr ⟨hne, ha, hk⟩⟩
    · exact .inr (ih ho)

-- A run ends at the first `stop`, so that it does not matter what follows.
theorem runAt_append (as rest : List α) (hk : stop ∉ key) (hp : p stop = false) :
    runAt key p stop (as ++ stop :: rest) = runAt key p stop (as ++ [stop]) := by
  refine Option.ext fun run => ?_
  rw [runAt_eq_some_iff hp, runAt_eq_some_iff hp]
  refine and_congr_right fun _ => and_congr_right fun ha => ?_
  have hs : stop ∉ key ++ run := by
    rw [List.mem_append, not_or]
    exact ⟨hk, fun h => Bool.false_ne_true (hp.symm.trans (ha _ h))⟩
  rw [concat_isPrefix_iff hs, concat_isPrefix_iff hs]
  simp [List.takeWhile_append]

theorem search_append (as rest : List α) (hk : stop ∉ key) (hp : p stop = false) :
    search key p stop (as ++ stop :: rest) =
      (search key p stop (as ++ [stop])).or (search key p stop rest) := by
  induction as
  case nil =>
    have h : runAt key p stop ([] ++ stop :: rest) = runAt key p stop ([] ++ [stop]) :=
      runAt_append _ _ hk hp
    simp only [List.nil_append] at h ⊢
    rw [search, search, search_nil, Option.or_none, h]
  case cons a as ih =>
    rw [List.cons_append, search, ih, List.cons_append, search, Option.or_assoc]
    congr 1
    exact runAt_append (a :: as) rest hk hp

theorem runAt_eq_none_of_ne (h : name ≠ name') (hn : colon ∉ name) (hn' : colon ∉ name')
    (hp : p stop = false) : runAt (name ++ [colon]) p stop (name' ++ colon :: rest) = none := by
  refine Option.eq_none_iff_forall_ne_some.mpr fun run hr => h ?_
  obtain ⟨_, _, hk⟩ := (runAt_eq_some_iff hp).mp hr
  rw [List.append_assoc] at hk
  have hw := ((concat_isPrefix_iff hn).mp ((List.prefix_append ..).trans hk)).right
  have ha : ∀ a ∈ name', decide (a ≠ colon) = true :=
    fun a h => decide_eq_true fun he => hn' (he ▸ h)
  rw [← hw, List.takeWhile_append_of_pos ha]
  simp

-- A key that ends with a mark stands only where its name ends.
theorem search_eq_none_of_not_suffix (h : ¬name <:+ name') (hn : colon ∉ name) (hn' : colon ∉ name')
    (hr : colon ∉ rest) (hp : p stop = false) :
    search (name ++ [colon]) p stop (name' ++ colon :: rest) = none := by
  induction name'
  case nil =>
    have hne : name ≠ [] := fun he => h (he ▸ List.nil_suffix)
    rw [List.nil_append, search, search_eq_none (by simp) hr, Option.or_none]
    exact runAt_eq_none_of_ne hne hn hn' hp
  case cons c name' ih =>
    have hne : name ≠ c :: name' := fun he => h (he ▸ List.suffix_rfl)
    have hs : ¬name <:+ name' := fun hs => h (hs.trans (List.suffix_cons ..))
    rw [List.cons_append, search, ih hs (fun hc => hn' (List.mem_cons_of_mem _ hc)), Option.or_none]
    exact runAt_eq_none_of_ne hne hn hn' hp

theorem search_key (key : List α) (hr : run ≠ []) (ha : ∀ a ∈ run, p a) (hp : p stop = false) :
    search key p stop (key ++ run ++ [stop]) = some run := by
  have h : runAt key p stop (key ++ run ++ [stop]) = some run :=
    (runAt_eq_some_iff hp).mpr ⟨hr, ha, List.prefix_rfl⟩
  cases he : key ++ run ++ [stop]
  case nil         => simp at he
  case cons a rest => rw [search, ← he, h, Option.some_or]

end Search
