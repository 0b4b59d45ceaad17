import InterprocessMemPool.MempoolIPC.SharedObject.Basic

namespace UtilsIPC

variable {α : Type*} {found : Option α} {fits fits' : Bool} {value : α}

theorem find_or_construct_isSome (h : found.isSome) :
    (find_or_construct found fits value).isSome := by
  simp [find_or_construct, h]

theorem find_or_construct_getD :
    (find_or_construct found fits value).getD value = found.getD value := by
  cases found <;> cases fits <;> rfl

namespace SharedObject

variable {s s' : SharedObject} {x : Request} {ptr : Option SharedPtr} {f : Fits}

def count (s : SharedObject) : ℕ :=
  (s.counter.getD 0).toNat

structure Named (s : SharedObject) : Prop where
  mutex   : s.mutex.isSome
  counter : s.counter.isSome

structure Keeps (s s' : SharedObject) : Prop where
  count  : s'.count = s.count
  object : s'.object = s.object
  named  : s.Named → s'.Named

theorem keeps_mutex :
    Keeps s { s with mutex := find_or_construct s.mutex fits () } where
  count  := rfl
  object := rfl
  named h := ⟨find_or_construct_isSome h.mutex, h.counter⟩

theorem keeps_counter (s : SharedObject) (fits fits' : Bool) : Keeps s { s with
    mutex   := find_or_construct s.mutex fits ()
    counter := find_or_construct s.counter fits' 0 } where
  count  := congrArg UInt64.toNat find_or_construct_getD
  object := rfl
  named h := ⟨find_or_construct_isSome h.mutex, find_or_construct_isSome h.counter⟩

-- What a call of `find_or_create_shared_object` can do.
inductive Outcome (s s' : SharedObject) (x : Request) : Option SharedPtr → Prop
  | refused : Keeps s s' → Outcome s s' x (some .nullptr)
  | escaped : Keeps s s' → Outcome s s' x none
  | threw : Keeps s s' → s.throws x → s'.Named →
    Outcome s s' x (some { get := none, deleter := true })
  | acquired {objectPtr} : s.throws x = false → s.count < x.nProcessMax.toNat → s'.Named →
    s'.count = s.count + 1 → (∀ k ∈ s.object, s'.object = some k) →
    (∀ k ∈ objectPtr, s'.object = some k) →
    Outcome s s' x (some { get := objectPtr, deleter := true })

theorem outcome (h : s.find_or_create_shared_object x = (s', ptr)) : Outcome s s' x ptr := by
  simp only [find_or_create_shared_object] at h
  split at h
  case isTrue =>
    obtain ⟨rfl, rfl⟩ := Prod.mk.inj h
    exact .refused keeps_mutex
  case isFalse hm =>
    have hm := Option.isSome_iff_ne_none.mpr hm
    have hk := s.keeps_counter x.fits.mutex x.fits.counter
    split at h
    case h_1 =>
      obtain ⟨rfl, rfl⟩ := Prod.mk.inj h
      exact .refused hk
    case h_2 counter hc =>
      have hcount : s.count = counter.toNat := by
        rw [← hk.count]
        simp only [count, hc, Option.getD_some]
      have hn : (find_or_construct s.counter x.fits.counter 0).isSome := Option.isSome_of_eq_some hc
      split at h
      case isTrue =>
        obtain ⟨rfl, rfl⟩ := Prod.mk.inj h
        exact .refused hk
      case isFalse hmax =>
        have hmax := UInt64.lt_iff_toNat_lt.mp (UInt64.not_le.mp hmax)
        have hsucc : (counter + 1).toNat = s.count + 1 := by
          have := x.nProcessMax.toNat_lt
          rw [SizeT.toNat_succ (by omega), hcount]
        cases ho : s.object
        case some k =>
          simp only [find_or_construct_object, ho] at h
          obtain ⟨rfl, rfl⟩ := Prod.mk.inj h
          exact .acquired (by simp [throws, ho]) (hcount ▸ hmax) ⟨hm, rfl⟩ hsucc (by simp [ho]) (by simp)
        case none =>
          cases hx : x.construction
          all_goals
            simp only [find_or_construct_object, ho, hx] at h
            obtain ⟨rfl, rfl⟩ := Prod.mk.inj h
          case succeeds =>
            exact .acquired (by simp [throws, hx]) (hcount ▸ hmax) ⟨hm, rfl⟩ hsucc (by simp [ho]) (by simp)
          case noMemory =>
            exact .acquired (by simp [throws, hx]) (hcount ▸ hmax) ⟨hm, rfl⟩ hsucc (by simp [ho]) (by simp)
          case throws      => exact .threw (ho ▸ hk) (by simp [throws, ho, hx]) ⟨hm, hn⟩
          case throwsOther => exact .escaped (ho ▸ hk)

theorem destroy_shared_object_eq (hn : s.Named) :
    (s.destroy_shared_object f).count = s.count - 1 ∧
    (s.destroy_shared_object f).object = (if s.count = 1 then none else s.object) ∧
    (s.destroy_shared_object f).Named := by
  have ⟨_, hm⟩ := Option.isSome_iff_exists.mp hn.mutex
  have ⟨counter, hc⟩ := Option.isSome_iff_exists.mp hn.counter
  have h₁ : s.count = counter.toNat := by simp [count, hc]
  have h₂ : counter = 1 ↔ s.count = 1 := by simp [h₁, ← UInt64.toNat_inj]
  have h₃ : (if 0 < counter then counter - 1 else counter).toNat = s.count - 1 := by
    rw [h₁]
    split
    case isTrue hp  => exact SizeT.toNat_pred (SizeT.toNat_pos_iff.mpr hp)
    case isFalse hp => simp [UInt64.le_zero_iff.mp (UInt64.not_lt.mp hp)]
  simp only [destroy_shared_object, find_or_construct, hm, hc, Option.some_or, reduceCtorEq,
    if_false, h₂]
  split
  all_goals exact ⟨h₃, rfl, rfl, rfl⟩

end SharedObject

namespace Handle

-- The pointer counts as an acquisition.
def counted (h : Handle) : Bool :=
  h.ptr.deleter ∧ ¬h.threw

-- The pointer has a deleter, but the constructor has thrown.
def failed (h : Handle) : Bool :=
  h.ptr.deleter ∧ h.threw

def nonNull (h : Handle) : Bool :=
  h.ptr.get.isSome

end Handle

namespace Processes

variable {w w' : Processes} {a : Action} {N : SizeT} {s : SharedObject} {x : Request}
variable {ptr : Option SharedPtr} {i : ℕ}

-- What is relied upon by the users of a shared object.
structure Exact (N : SizeT) (w : Processes) : Prop where
  count     : w.segment.count = w.held.countP Handle.counted
  alive     : ∀ h ∈ w.held, ∀ k ∈ h.ptr.get, w.segment.object = some k
  destroyed : w.held.countP Handle.counted = 0 → w.segment.object = none
  bounded   : w.held.countP Handle.nonNull ≤ N.toNat

structure Sound (N : SizeT) (w : Processes) : Prop where
  count     : w.segment.count = w.held.countP Handle.counted
  alive     : ∀ h ∈ w.held, ∀ k ∈ h.ptr.get, w.segment.object = some k
  destroyed : w.segment.count = 0 → w.segment.object = none
  limit     : w.segment.count ≤ N.toNat
  named     : ∀ h ∈ w.held, h.ptr.deleter → w.segment.Named
  nonNull   : ∀ h ∈ w.held, h.nonNull → h.counted

theorem call_eq (h : w.segment.find_or_create_shared_object x = (s, ptr)) : w.call x =
    { segment := s, held := w.held ++ ptr.toList.map (⟨·, w.segment.throws x⟩) } := by
  rw [call, h]

theorem countP_eraseIdx {α : Type*} {p : α → Bool} {l : List α} {d : α} (h : l[i]? = some d) :
    (l.eraseIdx i).countP p + (p d).toNat = l.countP p := by
  have ⟨hi, hd⟩ := List.getElem?_eq_some_iff.mp h
  rw [← (List.getElem_cons_eraseIdx_perm hi).countP_eq p, hd, List.countP_cons, Bool.toNat,
    Bool.cond_eq_ite]

namespace Sound

theorem exact (h : Sound N w) : Exact N w where
  count       := h.count
  alive       := h.alive
  destroyed c := h.destroyed (h.count.trans c)
  bounded     := Nat.le_trans (List.countP_mono_left h.nonNull) (h.count ▸ h.limit)

theorem keep (h : Sound N w) (hk : w.segment.Keeps s) : Sound N { w with segment := s } where
  count         := hk.count.trans h.count
  alive d hd    := hk.object ▸ h.alive d hd
  destroyed     := hk.count ▸ hk.object ▸ h.destroyed
  limit         := hk.count ▸ h.limit
  named d hd    := hk.named ∘ h.named d hd
  nonNull       := h.nonNull

-- A pointer is added that does not refer to the object.
theorem add_null {d : Handle} (h : Sound N w) (hn : d.ptr.get = none) (hc : d.counted = false)
    (hd : d.ptr.deleter → w.segment.Named) : Sound N { w with held := w.held ++ [d] } where
  count     := by simp [hc, h.count]
  alive     := by simpa [hn, or_imp, forall_and] using h.alive
  destroyed := h.destroyed
  limit     := h.limit
  named     := by simpa [or_imp, forall_and] using ⟨h.named, hd⟩
  nonNull   := by simpa [hn, Handle.nonNull, or_imp, forall_and] using h.nonNull

theorem drop {d : Handle} (h : Sound N w) (hi : w.held[i]? = some d) (hc : d.counted = false) :
    Sound N { w with held := w.held.eraseIdx i } where
  count         := by simpa [hc, h.count] using (countP_eraseIdx (p := Handle.counted) hi).symm
  alive d' hd   := h.alive d' (List.mem_of_mem_eraseIdx hd)
  destroyed     := h.destroyed
  limit         := h.limit
  named d' hd   := h.named d' (List.mem_of_mem_eraseIdx hd)
  nonNull d' hd := h.nonNull d' (List.mem_of_mem_eraseIdx hd)

theorem call (h : Sound N w) (hx : x.nProcessMax ≤ N) : Sound N (w.call x) := by
  have hx := UInt64.le_iff_toNat_le.mp hx
  cases hc : w.segment.find_or_create_shared_object x
  case mk s ptr =>
  rw [call_eq hc]
  cases SharedObject.outcome hc
  case refused hk     => exact (h.keep hk).add_null rfl rfl nofun
  case threw hk ht hn => exact (h.keep hk).add_null rfl (by simp [Handle.counted, ht]) fun _ => hn
  case escaped hk     => simpa using h.keep hk
  case acquired objectPtr ht hlt hn hs ho hp =>
    have hcount : Handle.counted ⟨⟨objectPtr, true⟩, w.segment.throws x⟩ := by simp [Handle.counted, ht]
    constructor
    case count     => simp [hs, h.count, hcount]
    case alive     =>
      intro d hd k hk
      obtain hd | hd := List.mem_append.mp hd
      · exact ho k (h.alive d hd k hk)
      · simp at hd
        exact hp k (by simpa [hd] using hk)
    case destroyed => simp [hs]
    case limit     => simp only [hs]; omega
    case named     => exact fun _ _ _ => hn
    case nonNull   => simpa [hcount, or_imp, forall_and] using h.nonNull

theorem release {d : Handle} {f : Fits} (h : Sound N w) (hi : w.held[i]? = some d)
    (hf : d.failed → w.segment.count = 0) : Sound N (w.release i d f) := by
  have hm := List.mem_of_getElem? hi
  cases hdel : d.ptr.deleter
  case false => simpa [Processes.release, hdel] using h.drop hi (by simp [Handle.counted, hdel])
  case true =>
    have ⟨hc, ho, hn⟩ := SharedObject.destroy_shared_object_eq (f := f) (h.named d hm hdel)
    simp only [Processes.release, hdel, if_true]
    cases ht : d.threw
    case true  =>
      have hz := hf (by simp [Handle.failed, hdel, ht])
      refine (h.drop hi (by simp [Handle.counted, ht])).keep ⟨?_, ?_, fun _ => hn⟩
      · simp [hc, hz]
      · simp [ho, hz]
    case false =>
      have hcount := countP_eraseIdx (p := Handle.counted) hi
      simp only [Handle.counted, hdel, ht, Bool.false_eq_true, not_false_eq_true, and_self,
        decide_true, Bool.toNat_true] at hcount
      have := h.count
      constructor <;> simp only [hc, ho]
      case count     => exact Nat.sub_eq_of_eq_add (h.count.trans hcount.symm)
      case alive     =>
        intro d' hd k hk
        have hd' := List.mem_of_mem_eraseIdx hd
        have hp : 0 < (w.held.eraseIdx i).countP Handle.counted :=
          List.countP_pos_iff.mpr ⟨d', hd, h.nonNull d' hd' (Option.isSome_of_mem hk)⟩
        rw [if_neg (by omega)]
        exact h.alive d' hd' k hk
      case destroyed => exact fun hz => if_pos (by omega)
      case limit     => exact Nat.le_trans (Nat.sub_le ..) h.limit
      case named     => exact fun _ _ _ => hn
      case nonNull   => exact fun d' hd => h.nonNull d' (List.mem_of_mem_eraseIdx hd)

end Sound

-- The requests are for at most `N` processes at once.
def Admits (N : SizeT) : Action → Prop
  | .call x      => x.nProcessMax ≤ N
  | .release _ _ => True

instance : DecidablePred (Admits N)
  | .call x      => inferInstanceAs (Decidable (x.nProcessMax ≤ N))
  | .release _ _ => inferInstanceAs (Decidable True)

-- A pointer from a call in which the constructor has thrown is only released while there are no
-- other acquisitions.
def FailuresRestLast (w : Processes) : Action → Prop
  | .call _      => True
  | .release i _ => ∀ d ∈ w.held[i]?, d.failed → w.held.countP Handle.counted = 0

instance : DecidablePred (FailuresRestLast w)
  | .call _      => inferInstanceAs (Decidable True)
  | .release i _ => inferInstanceAs (Decidable
      (∀ d ∈ w.held[i]?, d.failed → w.held.countP Handle.counted = 0))

theorem Sound.next (h : Sound N w) (hn : w.next a = some w') (ha : Admits N a)
    (hf : FailuresRestLast w a) : Sound N w' := by
  cases a <;> simp only [Processes.next, Option.some.injEq, Option.map_eq_some_iff] at hn
  case call    => exact hn ▸ h.call ha
  case release =>
    obtain ⟨d, hd, rfl⟩ := hn
    exact h.release hd fun hd' => h.count.trans (hf d hd hd')

theorem sound (h : (system.restrict fun w a => Admits N a ∧ FailuresRestLast w a).Reachable w) :
    Sound N w := by
  refine System.Invariant.holds (I := Sound N) ⟨?_, fun _ h hs => ?_⟩ h
  · intro w ⟨hh, ho, hc⟩
    constructor <;> simp [hh, ho, SharedObject.count, hc]
  · exact h.next hs.right hs.left.left hs.left.right

theorem not_exact_of_early {d : Handle} {f : Fits} (h : Sound N w) (hi : w.held[i]? = some d)
    (hd : d.failed) (hc : w.held.countP Handle.counted ≠ 0) :
    (w.release i d f).segment.count ≠ (w.release i d f).held.countP Handle.counted := by
  simp only [Handle.failed, Bool.decide_and, Bool.decide_eq_true, Bool.and_eq_true] at hd
  have ⟨hs, _⟩ := SharedObject.destroy_shared_object_eq (f := f)
    (h.named d (List.mem_of_getElem? hi) hd.left)
  have he := countP_eraseIdx (p := Handle.counted) hi
  have := h.count
  simp only [Handle.counted, hd, not_true_eq_false, and_false, decide_false, Bool.toNat_false] at he
  simp only [Processes.release, hd, if_true]
  omega

-- The count of a shared object is exact as long as no failed call is taken back while others hold the
-- object, and no longer.
theorem exact_iff_failuresRestLast
    (h : (system.restrict fun w a => Admits N a ∧ FailuresRestLast w a).Reachable w) :
    Exact N w ∧
    ∀ {a w'}, system.Step w a w' → Admits N a → (Exact N w' ↔ FailuresRestLast w a) := by
  have hs := sound h
  refine ⟨hs.exact, fun {a w'} hn ha => ⟨fun he => ?_, fun hf => (hs.next hn ha hf).exact⟩⟩
  cases a
  case call    => trivial
  case release =>
    obtain ⟨d, hd, rfl⟩ := Option.map_eq_some_iff.mp hn
    intro d' hd' hf
    obtain rfl := Option.some.inj (hd.symm.trans hd')
    by_contra hc
    exact not_exact_of_early hs hd hf hc he.count

theorem exact_iff_failuresRestLast_run : ∃ w, system.Reachable w ∧
    (w.held.map (·.ptr.get) = [some 0] ∧ w.segment.object = some 0) ∧ Exact 2 w := by
  have ⟨w, hr, hq⟩ : ∃ w, (system.restrict fun w a => Admits 2 a ∧ FailuresRestLast w a).Reachable w ∧
      w.held.map (·.ptr.get) = [some 0] ∧ w.segment.object = some 0 :=
    System.exec_reachable (s := ⟨⟨none, none, none, 0⟩, []⟩) ⟨rfl, rfl, rfl⟩ <|
      show Option.any _ (System.exec _ _ _ [
        .call { nProcessMax := 2, construction := .throws }, .release 0 {},
        .call { nProcessMax := 2, construction := .noMemory },
        .call { nProcessMax := 2 }, .release 0 {}]) by decide +kernel
  exact ⟨w, hr.of_restrict, hq, (exact_iff_failuresRestLast hr).left⟩

-- The second process still has the object when the first one takes back its failed call.
theorem failed_call_destroys_object : ∃ w, system.Reachable w ∧
    w.held.map (·.ptr.get) = [some 0] ∧ w.segment.object = none ∧ w.segment.count = 0 := by
  rw [← System.restrict_true (S := system)]
  exact System.exec_reachable (s := ⟨⟨none, none, none, 0⟩, []⟩) ⟨rfl, rfl, rfl⟩ <|
    show Option.any _ (System.exec _ _ _ [
      .call { nProcessMax := 2, construction := .throws }, .call { nProcessMax := 2 },
      .release 0 {}]) by decide +kernel

end Processes
end UtilsIPC
