import InterprocessMemPool.MempoolIPC.SharedMemory.Theorems.Names

namespace UtilsIPC

variable {fits : Fits} {h h' : Host} {l l' : Variable} {b : ℕ}

theorem increment_fits (s : SharedMapping) : (s.increment {}).2 = true := by
  simp only [SharedMapping.increment, find_or_construct, if_true]
  cases s.mutex <;> cases s.counter <;> rfl

namespace Variable

theorem releaseMapping_eq (hr : releaseMapping h b = some (h', l')) :
    ∃ m, h.mappings[b]? = some m ∧ 0 < m.use_count ∧
      h' = h.modifyMapping b (fun m => { m with use_count := m.use_count - 1 }) ∧
      l' = if m.use_count = 1 then .removing b else .ended := by
  obtain ⟨m, hm, hr⟩ := Option.bind_eq_some_iff.mp hr
  obtain ⟨hu, hr⟩ := Option.ite_none_right_eq_some.mp hr
  obtain ⟨rfl, rfl⟩ := Prod.mk.inj (Option.some.inj hr)
  exact ⟨m, hm, hu, rfl, rfl⟩

-- Everything that a step can do, if there is memory for the mutex and the counter of a mapping.
inductive Next (fits : Fits) (h : Host) : Variable → Host → Variable → Prop
  | find {name : Name} {g : ℕ} (hg : h.shared_memory (c_str (GetMappingName name.text)) = some g) :
    Next fits h (.opening name) { h with mappings := h.mappings ++ [⟨name, g, 1, .opened⟩] } (.opened h.mappings.length)
  | create {name : Name} (hg : h.shared_memory (c_str (GetMappingName name.text)) = none) :
    Next fits h (.opening name) { h with
      shared_memory := Function.update h.shared_memory (c_str (GetMappingName name.text)) (some h.segments.length)
      segments      := h.segments ++ [.new name]
      mappings      := h.mappings ++ [⟨name, h.segments.length, 1, .opened⟩] } (.opened h.mappings.length)
  | increment {b : ℕ} {m : MappingPtr} {s : Segment} {s' : SharedMapping} (hm : h.mappings[b]? = some m)
    (hs : h.segments[m.segment]? = some s) (hi : (s.mapping m.name.text).increment fits = (s', true)) :
    Next fits h (.opened b)
      ((h.modifySegment m.segment (·.setMapping m.name.text s')).modifyMapping b fun m => { m with phase := .counted })
      (.mapping b)
  | copy {b : ℕ} {m : MappingPtr} (hm : h.mappings[b]? = some m) (hh : m.held) :
    Next fits h (.copyingMapping b) (h.modifyMapping b fun m => { m with use_count := m.use_count + 1 }) (.mapping b)
  | drop {b : ℕ} {m : MappingPtr} (hm : h.mappings[b]? = some m) (hu : 0 < m.use_count) :
    Next fits h (.mapping b) (h.modifyMapping b fun m => { m with use_count := m.use_count - 1 })
      (if m.use_count = 1 then .removing b else .ended)
  | remove {b : ℕ} {m : MappingPtr} {s : Segment} {s' : SharedMapping} {shouldRemove : Bool}
    (hm : h.mappings[b]? = some m) (hs : h.segments[m.segment]? = some s)
    (hr : (s.mapping m.name.text).remove_mapping fits = (s', shouldRemove)) :
    Next fits h (.removing b) ((h.modifySegment m.segment (·.setMapping m.name.text s')).modifyMapping b
      fun m => { m with phase := if shouldRemove then .unlinking else .closed }) (.deleting b shouldRemove)
  | delete {b : ℕ} {remove : Bool} : Next fits h (.deleting b remove) h (if remove then .unlinking b else .ended)
  | unlink {b : ℕ} {m : MappingPtr} (hm : h.mappings[b]? = some m) :
    Next fits h (.unlinking b) { h.modifyMapping b fun m => { m with phase := .closed } with
      shared_memory := Function.update h.shared_memory (c_str (GetMappingName m.name.text)) none } .ended
  | refuse {b : ℕ} {m : MappingPtr} {s : Segment} {s' : SharedObject} {name : Name} {x : Request}
    {ptr : Option SharedPtr} (hm : h.mappings[b]? = some m) (hs : h.segments[m.segment]? = some s)
    (hc : (s.object name.text).find_or_create_shared_object x = (s', ptr)) (hp : ∀ p ∈ ptr, p.deleter = false) :
    Next fits h (.creating b name x) (h.modifySegment m.segment (·.setObject name.text s')) .ended
  | acquire {b : ℕ} {m : MappingPtr} {s : Segment} {s' : SharedObject} {name : Name} {x : Request} {ptr : SharedPtr}
    (hm : h.mappings[b]? = some m) (hs : h.segments[m.segment]? = some s) (hh : m.held)
    (hc : (s.object name.text).find_or_create_shared_object x = (s', some ptr)) (hp : ptr.deleter) :
    Next fits h (.creating b name x)
      { (h.modifySegment m.segment (·.setObject name.text s')).modifyMapping b
          fun m => { m with use_count := m.use_count + 1 } with
        objects := h.objects ++ [⟨b, m.segment, name, ptr, 1, .owned⟩] } (.object h.objects.length)
  | copyObject {o : ℕ} {p : ObjectPtr} (hp : h.objects[o]? = some p) (hu : 0 < p.use_count) :
    Next fits h (.copyingObject o) (h.modifyObject o fun p => { p with use_count := p.use_count + 1 }) (.object o)
  | dropObject {o : ℕ} {p : ObjectPtr} (hp : h.objects[o]? = some p) (hu : 0 < p.use_count) :
    Next fits h (.object o) (h.modifyObject o fun p => { p with use_count := p.use_count - 1 })
      (if p.use_count = 1 then .destroying o else .ended)
  | destroy {o : ℕ} {p : ObjectPtr} {s : Segment} (hp : h.objects[o]? = some p) (hs : h.segments[p.segment]? = some s) :
    Next fits h (.destroying o) ((h.modifySegment p.segment
        (·.setObject p.name.text ((s.object p.name.text).destroy_shared_object fits))).modifyObject o
      fun p => { p with phase := .deleted }) (.detaching o)
  | detach {o : ℕ} {p : ObjectPtr} {m : MappingPtr} (hp : h.objects[o]? = some p)
    (hm : h.mappings[p.segmentPtr]? = some m) (hu : 0 < m.use_count) :
    Next fits h (.detaching o) ((h.modifyObject o fun p => { p with phase := .detached }).modifyMapping p.segmentPtr
      fun m => { m with use_count := m.use_count - 1 }) (if m.use_count = 1 then .removing p.segmentPtr else .ended)

theorem next_of_step (hs : l.step fits h = some (h', l')) (hf : ∀ b, l = .opened b → fits = {}) :
    Next fits h l h' l' := by
  cases l <;> simp only [step, reduceCtorEq] at hs
  case opening name =>
    split at hs <;> obtain ⟨rfl, rfl⟩ := Prod.mk.inj (Option.some.inj hs)
    case h_1 hg => exact .find hg
    case h_2 hg => exact .create hg
  case opened b =>
    obtain ⟨m, hm, hs⟩ := Option.bind_eq_some_iff.mp hs
    obtain ⟨s, hseg, hs⟩ := Option.bind_eq_some_iff.mp hs
    have hi := increment_fits (s.mapping m.name.text)
    rw [← hf b rfl] at hi
    simp only [hi, if_true, Option.some.injEq, Prod.mk.injEq] at hs
    obtain ⟨rfl, rfl⟩ := hs
    exact .increment hm hseg (Prod.ext rfl hi)
  case copyingMapping b =>
    obtain ⟨m, hm, hs⟩ := Option.bind_eq_some_iff.mp hs
    obtain ⟨hh, hs⟩ := Option.ite_none_right_eq_some.mp hs
    obtain ⟨rfl, rfl⟩ := Prod.mk.inj (Option.some.inj hs)
    exact .copy hm hh
  case mapping b =>
    obtain ⟨m, hm, hu, rfl, rfl⟩ := releaseMapping_eq hs
    exact .drop hm hu
  case removing b =>
    obtain ⟨m, hm, hs⟩ := Option.bind_eq_some_iff.mp hs
    obtain ⟨s, hseg, hs⟩ := Option.map_eq_some_iff.mp hs
    obtain ⟨rfl, rfl⟩ := Prod.mk.inj hs
    exact .remove hm hseg rfl
  case deleting b remove =>
    obtain ⟨rfl, rfl⟩ := Prod.mk.inj (Option.some.inj hs)
    exact .delete
  case unlinking b =>
    obtain ⟨m, hm, hs⟩ := Option.map_eq_some_iff.mp hs
    obtain ⟨rfl, rfl⟩ := Prod.mk.inj hs
    exact .unlink hm
  case creating b name x =>
    obtain ⟨m, hm, hs⟩ := Option.bind_eq_some_iff.mp hs
    obtain ⟨s, hseg, hs⟩ := Option.bind_eq_some_iff.mp hs
    obtain ⟨hh, hs⟩ := Option.ite_none_right_eq_some.mp hs
    rcases hc : (s.object name.text).find_or_create_shared_object x with ⟨s', ptr⟩
    simp only [hc] at hs
    cases ptr
    case none     =>
      obtain ⟨rfl, rfl⟩ := Prod.mk.inj (Option.some.inj hs)
      exact .refuse hm hseg hc (by simp)
    case some ptr =>
      cases hp : ptr.deleter <;> simp only [hp, if_true, Bool.false_eq_true, if_false] at hs
      all_goals obtain ⟨rfl, rfl⟩ := Prod.mk.inj (Option.some.inj hs)
      case false => exact .refuse hm hseg hc (by simpa using hp)
      case true  => exact .acquire hm hseg hh hc hp
  case copyingObject o =>
    obtain ⟨p, hp, hs⟩ := Option.bind_eq_some_iff.mp hs
    obtain ⟨hu, hs⟩ := Option.ite_none_right_eq_some.mp hs
    obtain ⟨rfl, rfl⟩ := Prod.mk.inj (Option.some.inj hs)
    exact .copyObject hp hu
  case object o =>
    obtain ⟨p, hp, hs⟩ := Option.bind_eq_some_iff.mp hs
    obtain ⟨hu, hs⟩ := Option.ite_none_right_eq_some.mp hs
    obtain ⟨rfl, rfl⟩ := Prod.mk.inj (Option.some.inj hs)
    exact .dropObject hp hu
  case destroying o =>
    obtain ⟨p, hp, hs⟩ := Option.bind_eq_some_iff.mp hs
    obtain ⟨s, hseg, hs⟩ := Option.map_eq_some_iff.mp hs
    obtain ⟨rfl, rfl⟩ := Prod.mk.inj hs
    exact .destroy hp hseg
  case detaching o =>
    obtain ⟨p, hp, hs⟩ := Option.bind_eq_some_iff.mp hs
    obtain ⟨m, hm, hu, rfl, rfl⟩ := releaseMapping_eq hs
    exact .detach hp hm hu

end Variable
end UtilsIPC
