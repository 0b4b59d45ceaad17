import InterprocessMemPool.MempoolIPC.SharedMemory.Theorems.Linked

namespace UtilsIPC

variable {fits : Fits} {h h' : Host} {l l' : Variable} {b g i o : ℕ} {c c' : Host.Config} {n name : Name}
variable {s : Segment} {x : SharedObject} {w w' : Processes} {a : Program.Action Variable Fits}

open Variable Host

namespace Host

-- The object of a segment that does not exist yet is that of a new one.
def objectAt (h : Host) (g : ℕ) (n : Name) : SharedObject :=
  h.segments[g]?.elim ⟨none, none, none, 0⟩ (·.object n.text)

-- The host as it is seen by those who only use one name in one segment.
structure View (h : Host) (g : ℕ) (n : Name) (w : Processes) : Prop where
  segment : w.segment = h.objectAt g n
  held    : (w.held.map (·.ptr)).Perm ((h.handles g n).map (·.ptr))

theorem View.congr (hv : View h g n w) (hs : h'.objectAt g n = h.objectAt g n)
    (hp : (h'.handles g n).Perm (h.handles g n)) : View h' g n w where
  segment := hv.segment.trans hs.symm
  held    := hv.held.trans (hp.map _).symm

theorem objectAt_concat (hs : h'.segments = h.segments ++ [.new name]) : h'.objectAt g n = h.objectAt g n := by
  simp only [objectAt, hs, List.getElem?_concat_eq_ite]
  split
  case isTrue hg  => simp [← hg, Segment.new, Segment.object, Segment.find]
  case isFalse hg => rfl

theorem objectAt_setMapping {y : SharedMapping} (hs : h'.segments = h.segments.modify i (·.setMapping name.text y)) :
    h'.objectAt g n = h.objectAt g n := by
  simp only [objectAt, hs, List.getElem?_modify]
  cases h.segments[g]?
  case none   => rfl
  case some s => by_cases hi : i = g <;> simp [hi]

theorem objectAt_setObject (hi : h.segments[i]? = some s)
    (hs : h'.segments = h.segments.modify i (·.setObject name.text x)) :
    h'.objectAt g n = if i = g ∧ name = n then x else h.objectAt g n := by
  simp only [objectAt, hs, List.getElem?_modify_eq_ite hi]
  by_cases hg : i = g
  case neg => simp [hg]
  subst hg
  obtain rfl | hn := eq_or_ne name n
  · simp
  · simp [hn, hi, Segment.object_setObject_of_ne hn]

theorem objectAt_eq (hi : h.segments[g]? = some s) : h.objectAt g n = s.object n.text := by
  simp [objectAt, hi]

end Host

-- The name in a segment on which the step acts.
def Variable.actsOn (h : Host) : Variable → Option (ℕ × Name)
  | .creating b name _ => h.mappings[b]?.map fun m => (m.segment, name)
  | .destroying o      => h.objects[o]?.map fun p => (p.segment, p.name)
  | _                  => none

namespace Processes

theorem run_call {ptr : Option SharedPtr} {y : Request} (hc : w.segment.find_or_create_shared_object y = (x, ptr)) :
    system.Run w [.call y] ⟨x, w.held ++ ptr.toList.map (⟨·, w.segment.throws y⟩)⟩ :=
  .single (congrArg some (call_eq hc))

-- A pointer without a deleter is returned and dropped.
theorem run_refuse {ptr : Option SharedPtr} {y : Request} (hc : w.segment.find_or_create_shared_object y = (x, ptr))
    (hp : ∀ p ∈ ptr, p.deleter = false) : ∃ as, system.Run w as ⟨x, w.held⟩ := by
  cases ptr
  case none   => exact ⟨_, by simpa using run_call hc⟩
  case some p =>
    refine ⟨_, (run_call hc).trans (.single (a := .release w.held.length {}) ?_)⟩
    have := hp p rfl
    simp [system, System.ofNext, next, release, this, List.eraseIdx_append_of_length_le]

theorem run_release {d : Handle} (hd : d ∈ w.held) (hdel : d.ptr.deleter) : ∃ as held,
    system.Run w as ⟨w.segment.destroy_shared_object fits, held⟩ ∧ (d :: held).Perm w.held := by
  obtain ⟨i, hi⟩ := List.getElem?_of_mem hd
  obtain ⟨hlt, he⟩ := List.getElem?_eq_some_iff.mp hi
  refine ⟨[.release i fits], w.held.eraseIdx i, .single ?_, he ▸ List.getElem_cons_eraseIdx_perm hlt⟩
  simp [system, System.ofNext, next, release, hi, hdel]

end Processes

theorem view_next (hn : Next fits h l h' l') (hr : Ready h l)
    (hd : ∀ {o : ℕ} {p}, h.objects[o]? = some p → p.ptr.deleter)
    (hv : View h g n w) : ∃ as w', Processes.system.Run w as w' ∧ View h' g n w' ∧
      (l.actsOn h ≠ some (g, n) → w' = w) := by
  have keep (hs : h'.objectAt g n = h.objectAt g n) (hp : (h'.handles g n).Perm (h.handles g n)) :
      ∃ as w', Processes.system.Run w as w' ∧ View h' g n w' ∧ (l.actsOn h ≠ some (g, n) → w' = w) :=
    ⟨[], w, .refl, hv.congr hs hp, fun _ => rfl⟩
  cases hn
  case find | delete | copy | drop | unlink => exact keep rfl (.refl _)
  case create                               => exact keep (objectAt_concat rfl) (.refl _)
  case increment | remove                   => exact keep (objectAt_setMapping rfl) (.refl _)
  case copyObject hp _ | dropObject hp _    => exact keep rfl (handles_modify_of_eq hp rfl rfl)
  case detach hp _ _ =>
    have hψ := phase_eq_of_objectInPhase hp (hr.detaching _ rfl)
    exact keep rfl (handles_modify_of_eq hp rfl (by simp [handle, hψ]))
  case refuse b m s₀ s' name y ptr hm hs₀ hc hp =>
    by_cases hg : m.segment = g ∧ name = n
    case neg => exact keep ((objectAt_setObject hs₀ rfl).trans (if_neg hg)) (.refl _)
    obtain ⟨rfl, rfl⟩ := hg
    rw [← objectAt_eq hs₀, ← hv.segment] at hc
    obtain ⟨as, hrun⟩ := Processes.run_refuse hc hp
    refine ⟨as, _, hrun, ⟨?_, hv.held⟩, fun hne => absurd (by simp [actsOn, hm]) hne⟩
    exact ((objectAt_setObject hs₀ rfl).trans (if_pos ⟨rfl, rfl⟩)).symm
  case acquire b m s₀ s' name y ptr hm hs₀ _ hc hp =>
    by_cases hg : m.segment = g ∧ name = n
    case neg =>
      refine keep ((objectAt_setObject hs₀ rfl).trans (if_neg hg)) ?_
      rw [handles_concat rfl]
      simp [handle, hg]
    obtain ⟨rfl, rfl⟩ := hg
    rw [← objectAt_eq hs₀, ← hv.segment] at hc
    refine ⟨_, _, Processes.run_call hc, ⟨?_, ?_⟩, fun hne => absurd (by simp [actsOn, hm]) hne⟩
    · exact ((objectAt_setObject hs₀ rfl).trans (if_pos ⟨rfl, rfl⟩)).symm
    · rw [handles_concat rfl]
      simpa [handle] using hv.held.append_right [ptr]
  case destroy o p s₀ hp hs₀ =>
    have hψ := phase_eq_of_objectInPhase hp (hr.destroying _ rfl).left
    by_cases hg : p.segment = g ∧ p.name = n
    case neg =>
      refine keep ((objectAt_setObject hs₀ rfl).trans (if_neg hg)) (handles_modify_of_eq hp rfl ?_)
      simp [handle, ← and_assoc, hg]
    obtain ⟨rfl, rfl⟩ := hg
    have hmem : (⟨p.ptr, false⟩ : Handle) ∈ h.handles p.segment p.name :=
      List.mem_filterMap.mpr ⟨p, List.mem_of_getElem? hp, by simp [handle, hψ]⟩
    obtain ⟨d, hdw, hde⟩ := List.mem_map.mp (hv.held.mem_iff.mpr (List.mem_map_of_mem hmem))
    obtain ⟨as, held, hrun, hperm⟩ := Processes.run_release hdw (hde ▸ hd hp)
    refine ⟨as, _, hrun, ⟨?_, ?_⟩, fun hne => absurd (by simp [actsOn, hp]) hne⟩
    · rw [hv.segment, objectAt_eq hs₀]
      exact ((objectAt_setObject hs₀ rfl).trans (if_pos ⟨rfl, rfl⟩)).symm
    · have hheld := hperm.map (·.ptr)
      rw [List.map_cons, hde] at hheld
      refine List.Perm.cons_inv (hheld.trans (hv.held.trans (.symm ?_)))
      change (List.map (·.ptr) (⟨p.ptr, false⟩ :: Host.handles _ p.segment p.name)).Perm _
      refine List.Perm.map _ (handles_modify_lose hp rfl ?_ ?_)
      · simp [handle, hψ]
      · simp [handle]

namespace Host

-- There is memory for the mutex and the counter of a mapping.
def Fitting (c : Config) : Program.Action Variable Fits → Prop
  | .enter _    => True
  | .run i fits => ∀ l ∈ c.calls[i]?, l.opens ≠ none → fits = {}

instance : Decidable (Fitting c a) :=
  match a with
  | .enter _ => inferInstanceAs (Decidable True)
  | .run _ _ => inferInstanceAs (Decidable (∀ _ ∈ _, _))

-- The name in a segment on which the step of a run acts.
def actsOn (c : Config) : Program.Action Variable Fits → Option (ℕ × Name)
  | .enter _ => none
  | .run i _ => c.calls[i]?.bind (·.actsOn c.shared)

structure Viewed (c : Config) : Prop where
  owned    : Owned c
  deleters : ∀ {o : ℕ} {p}, c.shared.objects[o]? = some p → p.ptr.deleter
  seen     : ∀ (g : ℕ) (n : Name), ∃ w, Processes.system.Reachable w ∧ View c.shared g n w

-- What is done to one name in one segment is done to one object, and nothing else is done to it.
structure Refined (c : Config) : Prop where
  seen : ∀ (g : ℕ) (n : Name), ∃ w, Processes.system.Reachable w ∧ View c.shared g n w
  step : ∀ {a c' g w} {n : Name}, (system.restrict Fitting).Step c a c' → View c.shared g n w →
    ∃ as w', Processes.system.Run w as w' ∧ View c'.shared g n w' ∧ (actsOn c a ≠ some (g, n) → w' = w)

theorem next_of_fitting (hl : c.calls[i]? = some l) (hf : Fitting c (.run i fits))
    (hs : l.step fits c.shared = some (h', l')) :
    Next fits c.shared l h' l' :=
  next_of_step hs fun b hb => hf l hl (by simp [hb, opens])

namespace Viewed

theorem init : Viewed ⟨.new, [], []⟩ where
  owned    := .init
  deleters := by simp [Host.new]
  seen _ _ := ⟨⟨⟨none, none, none, 0⟩, []⟩, .init ⟨rfl, rfl, rfl⟩, rfl, .refl _⟩

theorem step (hv : Viewed c) (hs : (system.restrict Fitting).Step c a c') : Viewed c' ∧
    ∀ {g w} {n : Name}, View c.shared g n w → ∃ as w', Processes.system.Run w as w' ∧ View c'.shared g n w' ∧
      (actsOn c a ≠ some (g, n) → w' = w) := by
  obtain ⟨l, rfl, hl, rfl⟩ | ⟨i, fits, l, h', l', rfl, hl, hp, rfl⟩ := Program.next_cases hs.right
  · exact ⟨⟨hv.owned.enter hl, hv.deleters, hv.seen⟩, fun hw => ⟨[], _, .refl, hw, fun _ => rfl⟩⟩
  · have hn := next_of_fitting hl hs.left hp
    have hnext {g w} {n : Name} (hw : View c.shared g n w) := view_next hn (hv.owned.ready hl) hv.deleters hw
    refine ⟨⟨hv.owned.after hl hn, deleters_next hn hv.deleters, fun g n => ?_⟩, fun hw => ?_⟩
    · obtain ⟨w, hr, hw⟩ := hv.seen g n
      obtain ⟨as, w', hrun, hw', _⟩ := hnext hw
      exact ⟨w', hrun.reachable hr, hw'⟩
    · simpa only [actsOn, hl, Option.bind_some, Program.Config.after_shared] using hnext hw

end Viewed
end Host

-- In every run, any object is used as if it were the only one: its name and its segment make no difference.
theorem refined (h : (Host.system.restrict Host.Fitting).Reachable c) : Host.Refined c := by
  have hv : Host.Viewed c := System.Invariant.holds ⟨fun {c} hi => ?_, fun _ hv hs => (hv.step hs).left⟩ h
  · exact ⟨hv.seen, fun hs => (hv.step hs).right⟩
  · obtain ⟨shared, calls, history⟩ := c
    obtain ⟨rfl, rfl, rfl⟩ := hi
    exact .init

-- The constructor throws in the first call, and the pointer that has been returned nonetheless is released.
theorem refined_run : ∃ c : Host.Config, (c.shared.objects.map (·.phase) = [.detached, .owned] ∧
    c.shared.objects.map (·.ptr.get) = [none, some 0]) ∧ Host.Refined c := by
  have ⟨c, hr, hq⟩ : ∃ c, (Host.system.restrict Host.Fitting).Reachable c ∧
      c.shared.objects.map (·.phase) = [.detached, .owned] ∧ c.shared.objects.map (·.ptr.get) = [none, some 0] :=
    Program.exec_reachable rfl <| show Option.any _ (System.exec _ _ _ [
      .enter (.opening ⟨['m'], by decide⟩), .run 0 {}, .run 0 {},
      .enter (.creating 0 ⟨['x'], by decide⟩ { nProcessMax := 2, construction := .throws }), .run 1 {},
      .enter (.creating 0 ⟨['y'], by decide⟩ { nProcessMax := 2 }), .run 2 {},
      .run 1 {}, .run 1 {}, .run 1 {}]) by decide +kernel
  exact ⟨c, hq, refined hr⟩

end UtilsIPC
