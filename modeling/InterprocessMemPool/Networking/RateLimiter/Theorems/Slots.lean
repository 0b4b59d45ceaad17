import InterprocessMemPool.Networking.RateLimiter.Basic

namespace BeastNetworking.RateLimiting

variable {s s' : RateLimiting} {a : Action} {e e' : RateEnforcer} {i : ℕ}

-- Every live enforcer has a slot of its own, which has the rate that it has reported last.
structure OwnSlots (s : RateLimiting) : Prop where
  size     : s.tracker.true_rates.length = s.enforcers.length
  distinct : (s.enforcers.map RateEnforcer.id).Nodup
  lt       : ∀ e ∈ s.enforcers, e.id < s.tracker.true_rates.length
  rate     : ∀ e ∈ s.enforcers, s.tracker.true_rates[e.id]? = some e.rate

-- An enforcer is only destroyed while it has the last slot.
def LastSlot (s : RateLimiting) : Action → Prop
  | .destroy i => ∀ e ∈ s.enforcers[i]?, e.id + 1 = s.tracker.true_rates.length
  | _          => True

instance : ∀ a, Decidable (LastSlot s a)
  | .make_enforcer => inferInstanceAs (Decidable True)
  | .update _ _    => inferInstanceAs (Decidable True)
  | .destroy i     => inferInstanceAs (Decidable (∀ e ∈ s.enforcers[i]?, _ = _))

theorem unregister_last {t : RateTracker} (h : i + 1 = t.true_rates.length) :
    (t.unregister i).true_rates = t.true_rates.dropLast := by
  have hlt : i < t.true_rates.length := by omega
  rw [RateTracker.unregister, if_pos hlt]
  obtain rfl : i = t.true_rates.length - 1 := by omega
  simp [List.dropLast_eq_take, List.take_set_of_le]

theorem unregister_length {t : RateTracker} (h : i < t.true_rates.length) :
    (t.unregister i).true_rates.length + 1 = t.true_rates.length := by
  rw [RateTracker.unregister, if_pos h]
  simp only [List.length_dropLast, List.length_set]
  omega

namespace OwnSlots

theorem ne_of_ne (h : OwnSlots s) {j : ℕ} (hi : s.enforcers[i]? = some e)
    (hj : s.enforcers[j]? = some e') (hne : j ≠ i) : e'.id ≠ e.id := by
  have ⟨hi', he⟩ := List.getElem?_eq_some_iff.mp hi
  have ⟨hj', he'⟩ := List.getElem?_eq_some_iff.mp hj
  intro hid
  have hij : (s.enforcers.map RateEnforcer.id)[j]? = (s.enforcers.map RateEnforcer.id)[i]? := by
    simp [hi, hj, hid]
  exact hne <| (List.getElem?_inj (by simpa using hj') h.distinct).mp hij

theorem make_enforcer (h : OwnSlots s) : OwnSlots s.make_enforcer where
  size     := by simp [RateLimiting.make_enforcer, h.size]
  distinct := by
    simp only [RateLimiting.make_enforcer, List.map_append, List.map_cons, List.map_nil]
    refine List.nodup_append.mpr ⟨h.distinct, by simp, fun id hid _ hm => ?_⟩
    have ⟨e, he, hid⟩ := List.mem_map.mp hid
    have := h.lt e he
    simp only [List.mem_singleton] at hm
    omega
  lt e he  := by
    simp only [RateLimiting.make_enforcer, List.mem_append, List.mem_singleton, List.length_append,
      List.length_singleton] at he ⊢
    obtain he | rfl := he
    · exact (h.lt e he).trans (Nat.lt_succ_self _)
    · exact Nat.lt_succ_self _
  rate e he := by
    simp only [RateLimiting.make_enforcer, List.mem_append, List.mem_singleton] at he ⊢
    obtain he | rfl := he
    · rw [List.getElem?_append_left (h.lt e he), h.rate e he]
    · simp

theorem update {new_rate : SizeT} (h : OwnSlots s) (hi : s.enforcers[i]? = some e) : OwnSlots {
    tracker   := s.tracker.update_and_get_allowable new_rate e.id
    enforcers := s.enforcers.set i { e with rate := new_rate } } := by
  have ⟨hi', he⟩ := List.getElem?_eq_some_iff.mp hi
  have hlt := h.lt e (List.mem_of_getElem? hi)
  rw [RateTracker.update_and_get_allowable, if_pos hlt]
  have hid : (s.enforcers.set i { e with rate := new_rate }).map RateEnforcer.id =
      s.enforcers.map RateEnforcer.id := by
    rw [List.map_set]
    exact List.set_getElem_self (by simpa) |>.symm.trans (by simp [he]) |>.symm
  constructor
  case size     => simpa using h.size
  case distinct => exact hid ▸ h.distinct
  case lt =>
    intro e' he'
    have hm : e'.id ∈ s.enforcers.map RateEnforcer.id := hid ▸ List.mem_map_of_mem he'
    have ⟨e₀, he₀, hid₀⟩ := List.mem_map.mp hm
    simpa [← hid₀] using h.lt e₀ he₀
  case rate =>
    intro e' he'
    have ⟨j, hj⟩ := List.getElem?_of_mem he'
    by_cases hne : j = i
    case pos =>
      simp only [hne, List.getElem?_set_self hi', Option.some.injEq] at hj
      simp [← hj, hlt]
    case neg =>
      rw [List.getElem?_set_ne (Ne.symm hne)] at hj
      rw [List.getElem?_set_ne (h.ne_of_ne hi hj hne).symm]
      exact h.rate e' (List.mem_of_getElem? hj)

theorem destroy_last (h : OwnSlots s) (hi : s.enforcers[i]? = some e)
    (hl : e.id + 1 = s.tracker.true_rates.length) : OwnSlots {
    tracker   := s.tracker.unregister e.id
    enforcers := s.enforcers.eraseIdx i } := by
  have ⟨hi', _⟩ := List.getElem?_eq_some_iff.mp hi
  have hlt : ∀ e' ∈ s.enforcers.eraseIdx i, e' ∈ s.enforcers ∧ e'.id < e.id := by
    intro e' he'
    have ⟨j, hne, hj⟩ := List.mem_eraseIdx_iff_getElem?.mp he'
    have hm := List.mem_of_getElem? hj
    have := h.lt e' hm
    have := h.ne_of_ne hi hj hne
    exact ⟨hm, by omega⟩
  constructor
  case size     => rw [unregister_last hl, List.length_dropLast, List.length_eraseIdx_of_lt hi', h.size]
  case distinct => exact h.distinct.sublist <| (List.eraseIdx_sublist ..).map _
  case lt =>
    intro e' he'
    have := (hlt e' he').right
    simp only [unregister_last hl, List.length_dropLast]
    omega
  case rate =>
    intro e' he'
    have ⟨hm, hid⟩ := hlt e' he'
    simp only [unregister_last hl]
    rw [List.getElem?_dropLast, if_pos (by omega), h.rate e' hm]

theorem exists_id (h : OwnSlots s) {id : ℕ} (hid : id < s.tracker.true_rates.length) :
    ∃ e ∈ s.enforcers, e.id = id := by
  have hs : s.enforcers.map RateEnforcer.id ⊆ List.range s.tracker.true_rates.length := by
    intro id hm
    have ⟨e, he, hid⟩ := List.mem_map.mp hm
    exact hid ▸ List.mem_range.mpr (h.lt e he)
  have hp := List.subperm_of_subset h.distinct hs |>.perm_of_length_le (by simp [h.size])
  exact List.mem_map.mp <| hp.mem_iff.mpr (List.mem_range.mpr hid)

-- The enforcer with the last slot is the one whose rate is moved, and it is not told so.
theorem last_of_destroy (h : OwnSlots s) (hi : s.enforcers[i]? = some e) (h' : OwnSlots {
    tracker   := s.tracker.unregister e.id
    enforcers := s.enforcers.eraseIdx i }) : e.id + 1 = s.tracker.true_rates.length := by
  have hlt := h.lt e (List.mem_of_getElem? hi)
  have hn := unregister_length hlt
  by_contra hl
  have ⟨e', he', hid⟩ := h.exists_id (show s.tracker.true_rates.length - 1 < _ by omega)
  have ⟨j, hj⟩ := List.getElem?_of_mem he'
  have hne : j ≠ i := by
    rintro rfl
    obtain rfl := Option.some.inj (hi.symm.trans hj)
    omega
  have := h'.lt e' <| List.mem_eraseIdx_iff_getElem?.mpr ⟨j, hne, hj⟩
  simp only at this
  omega

theorem step_iff (h : OwnSlots s) (hs : s.next a = some s') : OwnSlots s' ↔ LastSlot s a := by
  cases a
  case make_enforcer =>
    obtain rfl := Option.some.inj hs
    exact iff_of_true h.make_enforcer trivial
  case update i new_rate =>
    obtain ⟨e, hi, rfl⟩ := Option.map_eq_some_iff.mp hs
    exact iff_of_true (h.update hi) trivial
  case destroy i =>
    obtain ⟨e, hi, rfl⟩ := Option.map_eq_some_iff.mp hs
    simp only [LastSlot, hi, Option.mem_def, Option.some.injEq, forall_eq']
    exact ⟨h.last_of_destroy hi, h.destroy_last hi⟩

end OwnSlots

theorem ownSlots_of_reachable (h : (system.restrict LastSlot).Reachable s) : OwnSlots s := by
  refine System.Invariant.holds ⟨?_, ?_⟩ h
  · rintro _ rfl
    exact ⟨rfl, .nil, by simp, by simp⟩
  · intro s a s' _ h ⟨hl, hs⟩
    exact (h.step_iff hs).mpr hl

-- In a run in which each enforcer is destroyed while it has the last slot, they all have their own slots, and
-- the first destruction of another one ends this.
theorem ownSlots (h : (system.restrict LastSlot).Reachable s) :
    OwnSlots s ∧ ∀ {s' a}, s.next a = some s' → (OwnSlots s' ↔ LastSlot s a) :=
  ⟨ownSlots_of_reachable h, (ownSlots_of_reachable h).step_iff⟩

-- Of two enforcers the second one has reported its rate. The other one still has the first slot.
def moved : RateLimiting :=
  ({} : RateLimiting).make_enforcer.make_enforcer |> fun s =>
    { s with
      tracker   := s.tracker.update_and_get_allowable 5 1
      enforcers := s.enforcers.set 1 { id := 1, rate := 5 } }

theorem ownSlots_moved : (system.restrict LastSlot).Reachable moved ∧ OwnSlots moved ∧
    ∃ s, moved.next (.destroy 0) = some s ∧ ¬OwnSlots s := by
  have hr : (system.restrict LastSlot).Run {} [.make_enforcer, .make_enforcer, .update 1 5] moved :=
    System.exec_run (by decide)
  have hr := hr.reachable (.init rfl)
  have hn : moved.next (.destroy 0) = some { tracker := ⟨[5]⟩, enforcers := [⟨1, 5⟩] } := by decide
  have ⟨h, hi⟩ := ownSlots hr
  exact ⟨hr, h, _, hn, (hi hn).not.mpr (by decide)⟩

theorem not_ownSlots_destroy : ∃ s, system.Reachable s ∧ ¬OwnSlots s := by
  have hr : system.Run {} [.make_enforcer, .make_enforcer, .update 1 5, .destroy 0]
      { tracker := ⟨[5]⟩, enforcers := [⟨1, 5⟩] } := System.ofNext_run rfl
  refine ⟨_, hr.reachable (.init rfl), fun h => ?_⟩
  simpa using h.lt ⟨1, 5⟩ (by simp)

end BeastNetworking.RateLimiting
