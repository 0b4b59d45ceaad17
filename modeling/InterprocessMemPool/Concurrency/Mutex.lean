import InterprocessMemPool.Concurrency.Holding

namespace Program

variable {σ ℓ χ : Type*} {P : Program σ ℓ χ} {Init : σ → Prop}

theorem Config.add_le_total {c : Config σ ℓ} {w : ℓ → ℕ} {i j : ℕ} {l₁ l₂ : ℓ}
    (h₁ : c.calls[i]? = some l₁) (h₂ : c.calls[j]? = some l₂) (hne : i ≠ j) :
    w l₁ + w l₂ ≤ c.total w := by
  have ⟨hi, hl⟩ := List.getElem?_eq_some_iff.mp h₁
  have hm : l₂ ∈ c.calls.eraseIdx i := List.mem_eraseIdx_iff_getElem?.mpr ⟨j, hne.symm, h₂⟩
  have hp := (List.getElem_cons_eraseIdx_perm hi).map w |>.sum_eq
  have hs := List.single_le_sum (fun _ _ => Nat.zero_le _) _ (List.mem_map_of_mem (f := w) hm)
  simp only [List.map_cons, List.sum_cons, hl] at hp
  simp only [Config.total]
  omega

-- A lock that the calls of a program hold while they are at certain places. A step can get hold of it
-- when it is free, give it back, or leave it to whoever has it.
structure Mutex (P : Program σ ℓ χ) where
  locked : σ → Bool
  holds  : ℓ → Bool
  starts : ∀ {l}, P.starts l → holds l = false
  step   : ∀ {x s l s' l'}, P.step x s l = some (s', l') →
    (locked s = false ∧ holds l = false ∧ locked s' = true ∧ holds l' = true) ∨
    (holds l = true ∧ holds l' = false ∧ locked s' = false) ∨
    (locked s' = locked s ∧ holds l' = holds l)

namespace Mutex

variable {c : Config σ ℓ}

def holders (m : P.Mutex) (c : Config σ ℓ) : ℕ :=
  c.total fun l => (m.holds l).toNat

theorem holders_eq (m : P.Mutex) (hi : ∀ {s}, Init s → m.locked s = false)
    (h : (P.system Init).Reachable c) : m.holders c = (m.locked c.shared).toNat := by
  refine invariant (I := fun c => m.holders c = (m.locked c.shared).toNat) ?_ ?_ ?_ |>.holds h
  · intro s h
    simp [holders, Config.total, hi h]
  · intro c l _ h hs
    simpa [holders, m.starts hs] using h
  · intro c i x l s' l' _ h hl hs
    have ht := c.total_after (fun l => (m.holds l).toNat) s' l' hl
    have hle := c.le_total (w := fun l => (m.holds l).toNat) hl
    simp only [holders, Config.after_shared] at h ⊢
    obtain ⟨h₁, h₂, h₃, h₄⟩ | ⟨h₁, h₂, h₃⟩ | ⟨h₁, h₂⟩ := m.step hs
    · simp only [h₁, h₂, h₃, h₄, Bool.toNat_true, Bool.toNat_false] at *
      omega
    · have := (m.locked c.shared).toNat_le
      simp only [h₁, h₂, h₃, Bool.toNat_true, Bool.toNat_false] at *
      omega
    · simp only [h₁, h₂] at *
      omega

theorem locked_of_holds (m : P.Mutex) (hi : ∀ {s}, Init s → m.locked s = false)
    (h : (P.system Init).Reachable c) {i : ℕ} {l : ℓ} (hl : c.calls[i]? = some l)
    (hh : m.holds l) : m.locked c.shared = true := by
  have hle := Config.le_total (w := fun l => (m.holds l).toNat) hl
  have he := m.holders_eq hi h
  simp only [hh, holders, Bool.toNat_true] at hle he
  exact Bool.toNat_eq_one.mp (by have := (m.locked c.shared).toNat_le; omega)

theorem unique (m : P.Mutex) (hi : ∀ {s}, Init s → m.locked s = false)
    (h : (P.system Init).Reachable c) {i j : ℕ} {l₁ l₂ : ℓ} (h₁ : c.calls[i]? = some l₁)
    (h₂ : c.calls[j]? = some l₂) (hh₁ : m.holds l₁) (hh₂ : m.holds l₂) : i = j := by
  by_contra hne
  have hle := Config.add_le_total (w := fun l => (m.holds l).toNat) h₁ h₂ hne
  have he := m.holders_eq hi h
  have := (m.locked c.shared).toNat_le
  simp only [hh₁, hh₂, holders, Bool.toNat_true] at hle he
  omega

-- What can only be held together with the lock is held by whoever has the lock.
theorem held_perm {β : Type*} {f : ℓ → Option β} (m : P.Mutex) (hi : ∀ {s}, Init s → m.locked s = false)
    (hf : ∀ {l}, (f l).isSome → m.holds l) (h : (P.system Init).Reachable c) {i : ℕ} {l : ℓ}
    (hl : c.calls[i]? = some l) (hh : m.holds l) : (c.held f).Perm (f l).toList := by
  have ⟨hlt, he⟩ := List.getElem?_eq_some_iff.mp hl
  have hn : (c.calls.eraseIdx i).filterMap f = [] := by
    rw [List.filterMap_eq_nil_iff]
    intro l' hm
    have ⟨j, hne, hj⟩ := List.mem_eraseIdx_iff_getElem?.mp hm
    by_contra hs
    exact hne <| m.unique hi h hj hl (hf <| Option.isSome_iff_ne_none.mpr hs) hh
  have hp := (List.getElem_cons_eraseIdx_perm hlt).filterMap f
  rw [he] at hp
  cases hl : f l <;> simpa [Config.held, hl, hn] using hp.symm

end Mutex
end Program
