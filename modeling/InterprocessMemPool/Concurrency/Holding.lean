import InterprocessMemPool.Concurrency.Calls

open scoped List

namespace List

variable {α β : Type*} {as : List α} {a : α} {i : ℕ}

-- What is exchanged in the image of a list when one of its members is.
theorem filterMap_set_perm (f : α → Option β) (b : α) (h : as[i]? = some a) :
    (f a).toList ++ (as.set i b).filterMap f ~ (f b).toList ++ as.filterMap f := by
  obtain ⟨hi, rfl⟩ := List.getElem?_eq_some_iff.mp h
  have h₁ := (List.set_perm_cons_eraseIdx hi b).filterMap f
  have h₂ := (List.getElem_cons_eraseIdx_perm hi).filterMap f
  have hcons (a : α) (as : List α) : (a :: as).filterMap f = (f a).toList ++ as.filterMap f := by
    cases h : f a <;> simp [h]
  rw [hcons] at h₁ h₂
  calc _
    _ ~ (f as[i]).toList ++ ((f b).toList ++ (as.eraseIdx i).filterMap f) := h₁.append_left _
    _ ~ (f b).toList ++ ((f as[i]).toList ++ (as.eraseIdx i).filterMap f) := by
      simp only [← List.append_assoc]
      exact List.perm_append_comm.append_right _
    _ ~ _ := h₂.append_left _

end List

namespace Program.Config

variable {σ ℓ β : Type*} {c : Config σ ℓ} {l l' : ℓ} {s' : σ} {i j : ℕ} {f : ℓ → Option β} {b : β}

-- What the calls hold, where each of them holds at most one thing at a time.
def held (c : Config σ ℓ) (f : ℓ → Option β) : List β :=
  c.calls.filterMap f

theorem held_enter : (c.enter l).held f = c.held f ++ (f l).toList := by
  cases h : f l <;> simp [held, enter, h]

theorem mem_held (hl : c.calls[i]? = some l) (h : f l = some b) : b ∈ c.held f :=
  List.mem_filterMap.mpr ⟨l, List.mem_of_getElem? hl, h⟩

-- A step exchanges what the call held before for what it holds afterwards.
theorem held_after (f : ℓ → Option β) (s' : σ) (l' : ℓ) (hl : c.calls[i]? = some l) :
    (f l).toList ++ (c.after i l s' l').held f ~ (f l').toList ++ c.held f :=
  List.filterMap_set_perm f l' hl

theorem held_after_of_eq (hl : c.calls[i]? = some l) (h : f l' = f l) :
    ((c.after i l s' l').held f).Perm (c.held f) := by
  have hp := held_after f s' l' hl
  rwa [h, List.perm_append_left_iff] at hp

theorem held_after_gain (hl : c.calls[i]? = some l) (h : f l = none) (h' : f l' = some b) :
    ((c.after i l s' l').held f).Perm (b :: c.held f) := by
  simpa [h, h'] using held_after f s' l' hl

theorem held_after_lose [DecidableEq β] (hl : c.calls[i]? = some l) (h : f l = some b)
    (h' : f l' = none) : ((c.after i l s' l').held f).Perm ((c.held f).erase b) := by
  have hp := held_after f s' l' hl
  simp only [h, h', Option.toList, List.singleton_append, List.nil_append] at hp
  exact (hp.trans (List.perm_cons_erase (mem_held hl h))).cons_inv

theorem count_held [DecidableEq β] :
    (c.held f).count b = c.total fun l => if f l = some b then 1 else 0 := by
  simp only [held, total]
  induction c.calls
  case nil          => rfl
  case cons l ls ih =>
    cases h : f l
    case none   => simpa [h] using ih
    case some a =>
      simp only [List.filterMap_cons, h, List.count_cons, ih, List.map_cons, List.sum_cons,
        Option.some.injEq, beq_iff_eq]
      omega

end Program.Config
