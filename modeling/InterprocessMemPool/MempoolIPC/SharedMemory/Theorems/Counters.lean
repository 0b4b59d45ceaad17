import InterprocessMemPool.Concurrency.Holding
import InterprocessMemPool.MempoolIPC.SharedMemory.Theorems.Pointers
import InterprocessMemPool.MempoolIPC.SharedObject.Theorems.Count

namespace List

variable {α : Type*} {as : List α} {a : α} {i : ℕ} {f : α → α}

theorem countP_modify (q : α → Bool) (h : as[i]? = some a) :
    (as.modify i f).countP q + (q a).toNat = as.countP q + (q (f a)).toNat := by
  obtain ⟨hi, rfl⟩ := List.getElem?_eq_some_iff.mp h
  have h₁ := (List.set_perm_cons_eraseIdx hi (f as[i])).countP_eq q
  have h₂ := (List.getElem_cons_eraseIdx_perm hi).countP_eq q
  rw [List.countP_cons] at h₁ h₂
  simp only [List.modify_eq_set_getElem?, h, Option.map_eq_map, Option.map_some, Option.getD_some,
    Bool.toNat, Bool.cond_eq_ite]
  omega

end List

-- `std::numeric_limits<size_t>::max()`
def SizeT.max : SizeT :=
  UInt64.ofNat (2 ^ 64 - 1)

theorem SizeT.toNat_max : SizeT.max.toNat = 2 ^ 64 - 1 :=
  UInt64.toNat_ofNat_of_lt' (by norm_num)

theorem SizeT.le_max (n : SizeT) : n ≤ SizeT.max := by
  rw [UInt64.le_iff_toNat_le, SizeT.toNat_max]
  have := n.toNat_lt
  omega

namespace UtilsIPC

namespace SharedMapping

variable {s s' : SharedMapping} {fits : Fits} {k : ℕ} {shouldRemove : Bool}

-- The counter is at the given number.
structure Counts (s : SharedMapping) (k : ℕ) : Prop where
  count : (s.counter.getD 0).toNat = k
  named : 0 < k → s.mutex.isSome ∧ s.counter.isSome

theorem Counts.increment (hc : s.Counts k) (hmax : s.counter ≠ some .max) (h : s.increment {} = (s', true)) :
    s'.Counts (k + 1) := by
  obtain ⟨mutex, counter⟩ := s
  have hm : (find_or_construct mutex true ()) = some () := by cases mutex <;> rfl
  have hn : find_or_construct counter true 0 = some (counter.getD 0) := by cases counter <;> rfl
  simp only [SharedMapping.increment, hm, hn, reduceCtorEq, if_false, Prod.mk.injEq, and_true] at h
  subst h
  refine ⟨?_, fun _ => ⟨rfl, rfl⟩⟩
  have hlt : (counter.getD 0).toNat + 1 < 2 ^ 64 := by
    have := (counter.getD 0).toNat_lt
    have : (counter.getD 0).toNat ≠ SizeT.max.toNat := fun he => hmax <| by
      cases counter
      case none   => simp [SizeT.toNat_max] at he
      case some n => exact congrArg some (UInt64.toNat_inj.mp he)
    rw [SizeT.toNat_max] at this
    omega
  simpa [SizeT.toNat_succ hlt] using hc.count

-- The mapping is to be removed if the counter was at 1.
theorem Counts.remove_mapping (hc : s.Counts k) (hk : 0 < k) (h : s.remove_mapping fits = (s', shouldRemove)) :
    s'.Counts (k - 1) ∧ (shouldRemove ↔ k = 1) := by
  obtain ⟨mutex, counter⟩ := s
  obtain ⟨hm, hn⟩ := hc.named hk
  obtain ⟨_, rfl⟩ := Option.isSome_iff_exists.mp hm
  obtain ⟨n, rfl⟩ := Option.isSome_iff_exists.mp hn
  simp only [SharedMapping.remove_mapping, find_or_construct, Option.some_or, reduceCtorEq, if_false,
    Prod.mk.injEq] at h
  obtain ⟨rfl, rfl⟩ := h
  have hn : n.toNat = k := hc.count
  have hpos : 0 < n := SizeT.toNat_pos_iff.mp (hn ▸ hk)
  refine ⟨⟨?_, fun _ => ⟨rfl, rfl⟩⟩, ?_⟩
  · simp only [hpos, if_true, Option.getD_some, SizeT.toNat_pred (SizeT.toNat_pos_iff.mpr hpos)]
    omega
  · simp [← UInt64.toNat_inj, hn]

end SharedMapping

namespace Processes

variable {N : SizeT} {s s' : SharedObject} {held held' : List Handle} {x : Request} {ptr : SharedPtr} {d : Handle}
variable {fits : Fits}

theorem Sound.congr (h : Sound N ⟨s, held⟩) (hp : held'.Perm held) : Sound N ⟨s, held'⟩ where
  count         := h.count.trans (hp.countP_eq _).symm
  alive d hd    := h.alive d (hp.mem_iff.mp hd)
  destroyed     := h.destroyed
  limit         := h.limit
  named d hd    := h.named d (hp.mem_iff.mp hd)
  nonNull d hd  := h.nonNull d (hp.mem_iff.mp hd)

theorem Sound.init {k : ℕ} : Sound N ⟨⟨none, none, none, k⟩, []⟩ := by
  constructor <;> simp [SharedObject.count]

-- A call that returns no pointer with a deleter.
theorem Sound.refuse {ptr : Option SharedPtr} (h : Sound .max ⟨s, held⟩)
    (hc : s.find_or_create_shared_object x = (s', ptr)) (hp : ∀ p ∈ ptr, p.deleter = false) :
    Sound .max ⟨s', held⟩ := by
  cases SharedObject.outcome hc
  case refused hk | escaped hk => exact h.keep hk
  case threw                   => simp at hp
  case acquired                => simp at hp

theorem Sound.acquire (h : Sound .max ⟨s, held⟩) (hc : s.find_or_create_shared_object x = (s', some ptr))
    (hx : s.throws x = false) : Sound .max ⟨s', held ++ [⟨ptr, false⟩]⟩ := by
  have := h.call (x := x) x.nProcessMax.le_max
  rwa [call_eq hc, hx] at this

theorem Sound.delete (h : Sound .max ⟨s, d :: held⟩) (hd : d.ptr.deleter) (ht : d.threw = false) :
    Sound .max ⟨s.destroy_shared_object fits, held⟩ := by
  have := h.release (i := 0) (f := fits) rfl fun hf => by simp [Handle.failed, ht] at hf
  simpa [Processes.release, hd] using this

end Processes
end UtilsIPC
