import InterprocessMemPool.Networking.RateLimiter.Limit

namespace BeastNetworking.RateTracker

variable {t : RateTracker} {l : Limit} {new_rate : SizeT} {id : ℕ} {ids : List ℕ} {x y max_byterate : ℚ}

-- What is meant by a limit: a negative one is none.
def Limit.meant : Limit → ℚ
  | .default                                           => maxDouble
  | .constructed max_byterate_in | .set max_byterate_in =>
    if max_byterate_in < 0 then maxDouble else max_byterate_in

-- What the enforcer is allowed if it reports its rate once more.
def share (max_byterate : ℚ) (t : RateTracker) (id : ℕ) : ℤ :=
  t.allowable max_byterate (t.true_rates[id]?.getD 0) id |>.getD 0

-- The enforcer with an id gets a share, which together with those of all others is within the limit.
structure Fair (l : Limit) (ids : List ℕ) (new_rate : SizeT) (id : ℕ) (t : RateTracker) : Prop where
  defined : ∃ r, t.allowable l.max_byterate new_rate id = some r ∧ 0 ≤ r ∧ r ≤ new_rate.toNat ∧
    ((t.update_and_get_allowable new_rate id).total ≤ l.meant → r = new_rate.toNat)
  sum     : ((ids.map (share l.max_byterate (t.update_and_get_allowable new_rate id))).sum : ℚ) ≤ l.meant

theorem truncate_le (h : 0 ≤ x) : (truncate x : ℚ) ≤ x := by
  rw [truncate, if_pos h]
  exact Int.floor_le x

theorem truncate_nonneg (h : 0 ≤ x) : 0 ≤ truncate x := by
  rw [truncate, if_pos h]
  exact Int.floor_nonneg.mpr h

theorem truncate_nonpos (h : x ≤ 0) : truncate x ≤ 0 := by
  rw [truncate]
  split
  case isTrue hx  => rw [le_antisymm h hx, Int.floor_zero]
  case isFalse hx => exact Int.ceil_le.mpr (by simpa using h)

@[simp]
theorem truncate_natCast (n : ℕ) : truncate n = n := by
  simp [truncate]

theorem total_nonneg : 0 ≤ t.total :=
  List.sum_nonneg <| by simp

-- Each rate is counted at most once.
theorem sum_rates_le (hd : ids.Nodup) (hlt : ∀ id ∈ ids, id < t.true_rates.length) :
    (ids.map fun id => ((t.true_rates[id]?.getD 0).toNat : ℚ)).sum ≤ t.total := by
  have hsub : ids.Subperm (List.range t.true_rates.length) :=
    hd.subperm fun id hm => List.mem_range.mpr (hlt id hm)
  have ⟨ids', hperm, hsub⟩ := hsub
  have htotal : t.total = ((List.range t.true_rates.length).map fun id =>
      ((t.true_rates[id]?.getD 0).toNat : ℚ)).sum := by
    refine congrArg List.sum (List.ext_getElem (by simp) fun i h₁ h₂ => ?_)
    simp only [List.length_map] at h₁
    simp [h₁]
  rw [htotal, ← (hperm.map _).sum_eq]
  exact (hsub.map _).sum_le_sum (by simp)

-- There are less than 2⁶⁴ rates, each of which is less than 2⁶⁴.
theorem total_le_maxDouble (h : t.true_rates.length < 2 ^ 64) : t.total ≤ maxDouble := by
  have hle : t.total ≤ t.true_rates.length • (2 ^ 64 : ℚ) := by
    have := List.sum_le_card_nsmul (t.true_rates.map fun rate => (rate.toNat : ℚ)) (2 ^ 64) fun x hx => by
      obtain ⟨rate, _, rfl⟩ := List.mem_map.mp hx
      exact_mod_cast rate.toNat_lt.le
    simpa [total] using this
  have hlen : (t.true_rates.length : ℚ) ≤ 2 ^ 64 := by exact_mod_cast h.le
  rw [nsmul_eq_mul] at hle
  calc t.total
    _ ≤ t.true_rates.length * 2 ^ 64 := hle
    _ ≤ 2 ^ 64 * 2 ^ 64              := by gcongr
    _ ≤ 2 ^ 971                      := by
      rw [← pow_add]
      exact pow_le_pow_right₀ (by norm_num) (by norm_num)
    _ ≤ maxDouble                    := le_mul_of_one_le_left (by positivity) (by norm_num)

section

variable {n : ℕ}

-- A share of the total is no more than the rate, as what is shared is no more than the total.
theorem truncate_share_le (ht : t.total ≠ 0) (hm : 0 ≤ max_byterate) :
    0 ≤ truncate (n / t.total * min t.total max_byterate) ∧
      (truncate (n / t.total * min t.total max_byterate) : ℚ) ≤ n / t.total * min t.total max_byterate ∧
      truncate (n / t.total * min t.total max_byterate) ≤ n := by
  have h₀ : 0 ≤ n / t.total * min t.total max_byterate :=
    mul_nonneg (div_nonneg n.cast_nonneg total_nonneg) (le_min total_nonneg hm)
  have hle : n / t.total * min t.total max_byterate ≤ n := by
    calc n / t.total * min t.total max_byterate
      _ ≤ n / t.total * t.total := by gcongr; exacts [div_nonneg n.cast_nonneg total_nonneg, min_le_left _ _]
      _ = n                     := div_mul_cancel₀ _ ht
  refine ⟨truncate_nonneg h₀, truncate_le h₀, ?_⟩
  exact_mod_cast (truncate_le h₀).trans hle

end

theorem update_self (hlt : id < t.true_rates.length) :
    t.update_and_get_allowable (t.true_rates[id]?.getD 0) id = t := by
  simp [update_and_get_allowable, hlt]

theorem share_eq (hlt : id < t.true_rates.length) (ht : t.total ≠ 0) : t.share max_byterate id =
    truncate ((t.true_rates[id]?.getD 0).toNat / t.total * min t.total max_byterate) := by
  rw [share, allowable, update_self hlt, if_neg ht, Option.getD_some]

theorem sum_shares_le (hd : ids.Nodup) (hlt : ∀ id ∈ ids, id < t.true_rates.length) (ht : t.total ≠ 0)
    (hm₀ : 0 ≤ max_byterate) : ((ids.map (t.share max_byterate)).sum : ℚ) ≤ max_byterate := by
  have hpos : 0 < t.total := lt_of_le_of_ne total_nonneg ht.symm
  have hshares : ((ids.map (t.share max_byterate)).sum : ℚ) ≤
      (ids.map fun id => ((t.true_rates[id]?.getD 0).toNat : ℚ)).sum / t.total * min t.total max_byterate := by
    calc ((ids.map (t.share max_byterate)).sum : ℚ)
      _ = (ids.map fun id => (t.share max_byterate id : ℚ)).sum := by
        rw [Int.cast_list_sum, List.map_map]
        rfl
      _ ≤ (ids.map fun id => ((t.true_rates[id]?.getD 0).toNat : ℚ) / t.total * min t.total max_byterate).sum := by
        refine List.sum_le_sum fun id hm => ?_
        rw [share_eq (hlt id hm) ht]
        exact (truncate_share_le ht hm₀).right.left
      _ = _ := by simp only [div_eq_mul_inv, List.sum_map_mul_right]
  calc ((ids.map (t.share max_byterate)).sum : ℚ)
    _ ≤ _ := hshares
    _ ≤ t.total / t.total * min t.total max_byterate := by
      gcongr
      exacts [sum_rates_le hd hlt]
    _ = min t.total max_byterate := by rw [div_self ht, one_mul]
    _ ≤ max_byterate := min_le_right _ _

theorem length_update (new_rate : UInt64) (id : ℕ) :
    (t.update_and_get_allowable new_rate id).true_rates.length = t.true_rates.length := by
  rw [update_and_get_allowable]
  split
  case isTrue  => exact List.length_set
  case isFalse => rfl

theorem total_ne_zero_iff : t.total ≠ 0 ↔ ∃ rate ∈ t.true_rates, rate ≠ 0 := by
  have hcast : t.total = ((t.true_rates.map (·.toNat)).sum : ℕ) := by
    rw [total, Nat.cast_list_sum, List.map_map]
    rfl
  rw [hcast, Nat.cast_ne_zero, Ne, List.sum_eq_zero_iff_forall_eq_nat]
  simp [← UInt64.toNat_inj]

namespace Limit

theorem maxDouble_pos : 0 < maxDouble := by
  rw [maxDouble]
  positivity

-- Only the constructor takes a negative limit for what it is.
theorem meant_eq (h : 0 ≤ l.max_byterate) : l.meant = l.max_byterate := by
  cases l
  case default       => rfl
  case constructed x => exact if_neg (not_lt.mpr h)
  case set x         => rfl

theorem meant_of_neg (h : ¬0 ≤ l.max_byterate) : l.meant = maxDouble := by
  cases l
  case default       => rfl
  case constructed x => exact if_pos (not_le.mp h)
  case set x         =>
    by_cases hx : x < 0
    · exact if_pos hx
    · rw [Limit.max_byterate, if_neg hx] at h
      exact absurd (not_lt.mp hx) h

end Limit

theorem share_nonpos (hlt : id < t.true_rates.length) (ht : t.total ≠ 0) (hm : max_byterate ≤ 0) :
    t.share max_byterate id ≤ 0 := by
  rw [share_eq hlt ht]
  refine truncate_nonpos <| mul_nonpos_of_nonneg_of_nonpos ?_ ((min_le_right _ _).trans hm)
  exact div_nonneg (Nat.cast_nonneg _) total_nonneg

theorem fair_of_limit (hd : ids.Nodup) (hlt : ∀ id ∈ ids, id < t.true_rates.length)
    (ht : (t.update_and_get_allowable new_rate id).total ≠ 0) (hm : 0 ≤ l.max_byterate) :
    Fair l ids new_rate id t := by
  rw [← length_update new_rate id] at hlt
  have ⟨h₀, _, hle⟩ := truncate_share_le (n := new_rate.toNat) ht hm
  refine ⟨⟨_, by rw [allowable, if_neg ht], h₀, hle, fun htotal => ?_⟩, ?_⟩
  · rw [Limit.meant_eq hm] at htotal
    rw [min_eq_left htotal, div_mul_cancel₀ _ ht, truncate_natCast]
  · rw [Limit.meant_eq hm]
    exact sum_shares_le hd hlt ht hm

-- With a negative limit, there is nothing for anybody.
theorem fair_of_zero (hlt : ∀ id ∈ ids, id < t.true_rates.length)
    (ht : (t.update_and_get_allowable 0 id).total ≠ 0) (hm : ¬0 ≤ l.max_byterate) : Fair l ids 0 id t := by
  rw [← length_update 0 id] at hlt
  refine ⟨⟨0, ?_, le_refl 0, by simp, fun _ => by simp⟩, ?_⟩
  · rw [allowable, if_neg ht]
    simp [truncate]
  · have hsum : (ids.map (share l.max_byterate (t.update_and_get_allowable 0 id))).sum ≤ 0 := by
      have := List.sum_le_card_nsmul (ids.map (share l.max_byterate (t.update_and_get_allowable 0 id))) 0
        fun x hx => by
          obtain ⟨id, hid, rfl⟩ := List.mem_map.mp hx
          exact share_nonpos (hlt id hid) ht (not_le.mp hm).le
      simpa using this
    rw [Limit.meant_of_neg hm]
    exact (Int.cast_nonpos.mpr hsum).trans Limit.maxDouble_pos.le

-- The shares are fair just if somebody has a rate, and the limit is not a negative one that was given to
-- the constructor. (A rate of 0 is allowed anyway.)
theorem fair_iff (hd : ids.Nodup) (hlt : ∀ id ∈ ids, id < t.true_rates.length)
    (hlen : t.true_rates.length < 2 ^ 64) : Fair l ids new_rate id t ↔
      (∃ rate ∈ (t.update_and_get_allowable new_rate id).true_rates, rate ≠ 0) ∧
        (0 ≤ l.max_byterate ∨ new_rate = 0) := by
  rw [← total_ne_zero_iff]
  constructor
  · rintro ⟨⟨r, hr, h₀, _, heq⟩, _⟩
    have ht : (t.update_and_get_allowable new_rate id).total ≠ 0 := by
      intro ht
      rw [allowable, if_pos ht] at hr
      cases hr
    refine ⟨ht, or_iff_not_imp_left.mpr fun hm => ?_⟩
    -- The total never exceeds no limit, but the result is not positive.
    rw [Limit.meant_of_neg hm] at heq
    replace heq := heq <| total_le_maxDouble (by rwa [length_update])
    rw [allowable, if_neg ht, Option.some.injEq] at hr
    have hnonpos : r ≤ 0 := hr ▸ truncate_nonpos (mul_nonpos_of_nonneg_of_nonpos
      (div_nonneg (Nat.cast_nonneg _) total_nonneg) ((min_le_right _ _).trans (not_le.mp hm).le))
    rw [← UInt64.toNat_inj, UInt64.toNat_zero]
    omega
  · rintro ⟨ht, hm⟩
    by_cases hl : 0 ≤ l.max_byterate
    case pos => exact fair_of_limit hd hlt ht hl
    case neg =>
      obtain rfl := hm.resolve_left hl
      exact fair_of_zero hlt ht hl

-- Two enforcers with the rates 10 and 20 share a limit of 15.
theorem fair_run : Fair (.set 15) [0, 1] 20 1 ⟨[10, 5]⟩ :=
  (fair_iff (by decide) (by decide) (by decide)).mpr
    ⟨⟨10, by decide⟩, .inl (by norm_num [Limit.max_byterate])⟩

-- A first message without any bytes is reported, and there is no other rate.
theorem not_fair : ¬Fair .default [0] 0 0 ⟨[0]⟩ := by
  rintro ⟨⟨r, hr, _⟩, _⟩
  simp [allowable, total, update_and_get_allowable] at hr

end BeastNetworking.RateTracker
