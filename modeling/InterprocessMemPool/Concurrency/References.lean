import InterprocessMemPool.Concurrency.Calls

-- Reference counting. Objects are referred to from places, each of which has a pointer to an object
-- or none. What a step does to pointers is told by the copies that it makes and by those it releases.
structure References.Handover (κ : Type*) where
  copied   : List (Option κ) := []
  released : List (Option κ) := []

namespace References

variable {κ : Type*} [DecidableEq κ] {h h' : Handover κ} {places places' rest : List (Option κ)}
variable {slots slots' : List (Option κ)} {ptr old : Option κ} {uses uses' : κ → ℕ} {i : ℕ}

-- Every copy is in a place afterwards, and nothing that was released is.
def Handover.Moves (h : Handover κ) (places places' : List (Option κ)) : Prop :=
  ∀ e, places'.count (some e) + h.released.count (some e) =
    places.count (some e) + h.copied.count (some e)

-- The use counts are the numbers of places from which the objects are referred to.
def Exact (uses : κ → ℕ) (places : List (Option κ)) : Prop :=
  ∀ e, uses e = places.count (some e)

theorem Exact.congr (he : Exact uses places) (hp : ∀ e, places'.count (some e) = places.count (some e)) :
    Exact uses places' :=
  fun e => (he e).trans (hp e).symm

-- Use counts that follow the copies and the releases stay exact.
theorem Exact.hand_over (he : Exact uses places) (hm : h.Moves places places')
    (hu : ∀ e, uses' e + h.released.count (some e) = uses e + h.copied.count (some e)) :
    Exact uses' places' := by
  intro e
  have h₁ := he e
  have h₂ := hm e
  have h₃ := hu e
  omega

namespace Handover.Moves

theorem of_count (hh : h = {}) (hp : ∀ e, places'.count (some e) = places.count (some e)) :
    h.Moves places places' := by
  intro e
  simp [hh, hp e]

-- Places that nothing happens to.
theorem frame (hm : h.Moves places places') (rest : List (Option κ)) :
    h.Moves (rest ++ places) (rest ++ places') := by
  intro e
  have := hm e
  simp only [List.count_append]
  omega

-- `slots[i] = ptr`, where the pointer that was there before is released.
theorem assign (ptr : Option κ) (hi : slots[i]? = some old) : Moves ⟨[ptr], [old]⟩ slots (slots.set i ptr) := by
  intro e
  obtain ⟨hlt, ho⟩ := List.getElem?_eq_some_iff.mp hi
  have h₁ := (List.set_perm_cons_eraseIdx hlt ptr).count_eq (some e)
  have h₂ := (List.getElem_cons_eraseIdx_perm hlt).count_eq (some e)
  simp only [ho, List.count_cons] at h₁ h₂
  simp only [List.count_singleton]
  omega

end Handover.Moves

-- A variable that a call has been given by reference is with the call. What is left of it with the
-- caller, given what the call has of it before and after a step.
def lend (ptr : Option κ) : Option (Option κ) → Option (Option κ) → Option (Option κ)
  | none, some ptr' => if ptr = ptr' then some none else none
  | some ptr', none => some ptr'
  | _, _            => some ptr

section

variable {ptr' q q' : Option κ} {b b' : Option (Option κ)}

@[simp]
theorem lend_none_none : lend ptr none none = some ptr :=
  rfl

@[simp]
theorem lend_some_some : lend ptr (some q) (some q') = some ptr :=
  rfl

-- The caller has nothing as long as the call has the variable.
theorem eq_none_of_lend (h : lend ptr b b' = some ptr') (ho : b.isSome → ptr = none) :
    b'.isSome → ptr' = none := by
  cases b <;> cases b' <;> simp_all [lend]

theorem count_lend (h : lend ptr none b = some ptr') (e : κ) :
    (ptr' :: b.toList).count (some e) = [ptr].count (some e) := by
  cases b
  case none   => obtain rfl := Option.some.inj h; rfl
  case some q =>
    simp only [lend, Option.ite_none_right_eq_some, Option.some.injEq] at h
    obtain ⟨rfl, rfl⟩ := h
    simp [List.count_cons]

theorem count_lend_back (h : lend ptr b none = some ptr') (ho : b.isSome → ptr = none) (e : κ) :
    [ptr'].count (some e) = (ptr :: b.toList).count (some e) := by
  cases b
  case none   => obtain rfl := Option.some.inj h; rfl
  case some q =>
    obtain rfl := Option.some.inj h
    simp [ho rfl, List.count_cons]

end

end References

namespace Program.Config

open References

variable {σ ℓ κ : Type*} [DecidableEq κ] {c : Config σ ℓ} {l l' : ℓ} {s' : σ} {i : ℕ} {h : Handover κ}
variable {f : σ → List (Option κ)} {g : ℓ → List (Option κ)}

-- The number of calls that are at a place where they refer to an object.
def count (c : Config σ ℓ) (p : ℓ → Option κ) (e : κ) : ℕ :=
  c.total fun l => if p l = some e then 1 else 0

variable {p : ℓ → Option κ} {e : κ}

theorem count_enter (h : p l = none) : (c.enter l).count p e = c.count p e := by
  simp [count, h]

theorem count_after (p : ℓ → Option κ) (e : κ) (hl : c.calls[i]? = some l) :
    (c.after i l s' l').count p e + (if p l = some e then 1 else 0) =
      c.count p e + if p l' = some e then 1 else 0 :=
  c.total_after _ s' l' hl

theorem one_le_count (hl : c.calls[i]? = some l) (h : p l = some e) : 1 ≤ c.count p e := by
  simpa [h, count] using c.le_total (w := fun l => if p l = some e then 1 else 0) hl

theorem count_mono {q : ℓ → Option κ} (h : ∀ l, p l = some e → q l = some e) : c.count p e ≤ c.count q e := by
  refine List.sum_le_sum fun l _ => ?_
  split
  case isTrue hp  => simp [h l hp]
  case isFalse hp => exact Nat.zero_le _

-- The places in the shared state, and those of all calls.
def places (c : Config σ ℓ) (f : σ → List (Option κ)) (g : ℓ → List (Option κ)) : List (Option κ) :=
  f c.shared ++ c.calls.flatMap g

theorem count_places (e : κ) :
    (c.places f g).count (some e) = (f c.shared).count (some e) + c.total fun l => (g l).count (some e) := by
  simp only [places, total, List.count_append, List.count_flatMap, Function.comp_def]

-- A call that is made refers to nothing.
theorem count_places_enter (e : κ) (hl : (g l).count (some e) = 0) :
    ((c.enter l).places f g).count (some e) = (c.places f g).count (some e) := by
  simp [count_places, hl]

-- What a step moves between the call that takes it and the shared state.
theorem moves_after (hl : c.calls[i]? = some l) (hm : h.Moves (g l ++ f c.shared) (g l' ++ f s')) :
    h.Moves (c.places f g) ((c.after i l s' l').places f g) := by
  intro e
  have h₁ := hm e
  have h₂ := c.total_after (fun l => (g l).count (some e)) s' l' hl
  have h₃ := c.le_total (w := fun l => (g l).count (some e)) hl
  simp only [List.count_append] at h₁
  simp only [count_places, after_shared]
  omega

end Program.Config
