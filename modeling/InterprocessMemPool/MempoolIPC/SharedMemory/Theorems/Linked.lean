import InterprocessMemPool.MempoolIPC.SharedMemory.Theorems.Counters
import InterprocessMemPool.MempoolIPC.SharedMemory.Theorems.Owned

namespace UtilsIPC

variable {fits : Fits} {h h' : Host} {l l' : Variable} {b g i o : ℕ} {c : Host.Config} {n : Name}
variable {m : MappingPtr} {p : ObjectPtr} {s : Segment}

-- The step does not get into what the comment on `open_or_create_mapping` warns of, namely that a mapping is
-- opened while it is being removed. There is memory for the mutex and the counter of a mapping, its counter does
-- not wrap around, and the constructors of objects do not throw.
def Variable.Undisturbed (fits : Fits) (h : Host) : Variable → Prop
  | .opening name      => ∀ m ∈ h.mappings, m.name = name → m.phase ≠ .unlinking
  | .opened b          => fits = {} ∧ ∀ m ∈ h.mappings[b]?, ∀ s ∈ h.segments[m.segment]?,
    (s.mapping m.name.text).counter ≠ some .max
  | .removing b        => ∀ m ∈ h.mappings[b]?, ∀ s ∈ h.segments[m.segment]?,
    (s.mapping m.name.text).counter = some 1 → ∀ m' ∈ h.mappings, m'.segment = m.segment → m'.phase ≠ .opened
  | .creating b name x => ∀ m ∈ h.mappings[b]?, ∀ s ∈ h.segments[m.segment]?, (s.object name.text).throws x = false
  | _                  => True

instance : ∀ {l : Variable}, Decidable (l.Undisturbed fits h)
  | .opening _      => inferInstanceAs (Decidable (∀ _ ∈ _, _))
  | .opened _       => inferInstanceAs (Decidable (_ ∧ ∀ _ ∈ _, _))
  | .removing _     => inferInstanceAs (Decidable (∀ _ ∈ _, _))
  | .creating _ _ _ => inferInstanceAs (Decidable (∀ _ ∈ _, _))
  | .copyingMapping _ | .mapping _ | .deleting _ _ | .unlinking _ | .copyingObject _ | .object _ | .destroying _
  | .detaching _ | .ended => inferInstanceAs (Decidable True)

namespace Host

-- The pointers for which the counter of the segment has been incremented.
def counted (h : Host) (g : ℕ) : ℕ :=
  h.mappings.countP fun m => m.segment = g ∧ m.phase = .counted

def handle (g : ℕ) (n : Name) (p : ObjectPtr) : Option Handle :=
  if p.segment = g ∧ p.name = n ∧ p.phase = .owned then some ⟨p.ptr, false⟩ else none

-- The pointers to the object, until their deleters have been called.
def handles (h : Host) (g : ℕ) (n : Name) : List Handle :=
  h.objects.filterMap (handle g n)

-- What the pointers refer to.
structure Linked (h : Host) : Prop where
  linked : ∀ {o : ℕ} {p}, h.objects[o]? = some p → ∃ m, h.mappings[p.segmentPtr]? = some m ∧ m.segment = p.segment
  named  : ∀ {b : ℕ} {m}, h.mappings[b]? = some m → ∃ s, h.segments[m.segment]? = some s ∧ s.mapped = m.name
  found  : ∀ {n : Name} {g}, h.shared_memory (c_str (GetMappingName n.text)) = some g →
    ∃ s, h.segments[g]? = some s ∧ s.mapped = n

structure Counting (h : Host) : Prop where
  mappings : ∀ {g : ℕ} {s}, h.segments[g]? = some s → (s.mapping s.mapped.text).Counts (h.counted g)
  objects  : ∀ {g : ℕ} {s}, h.segments[g]? = some s → ∀ n : Name,
    Processes.Sound .max ⟨s.object n.text, h.handles g n⟩
  deleters : ∀ {o : ℕ} {p}, h.objects[o]? = some p → p.ptr.deleter

end Host

open Variable Host

namespace Host

-- `h'` has the pointers and the segments that `h` has, with what they refer to.
structure Alike (h h' : Host) : Prop where
  mappings : h'.mappings.map (fun m => (m.name, m.segment)) = h.mappings.map fun m => (m.name, m.segment)
  segments : h'.segments.map Segment.mapped = h.segments.map Segment.mapped
  objects  : h'.objects.map (fun p => (p.segmentPtr, p.segment)) = h.objects.map fun p => (p.segmentPtr, p.segment)

theorem Linked.congr (hl : h.Linked) (ha : Alike h h')
    (hf : ∀ t g, h'.shared_memory t = some g → h.shared_memory t = some g) :
    h'.Linked := by
  constructor
  case linked =>
    intro o p hp
    obtain ⟨p', hp', hpe⟩ := List.exists_of_map_eq ha.objects.symm hp
    obtain ⟨m, hm, he⟩ := hl.linked hp'
    obtain ⟨m', hm', hme⟩ := List.exists_of_map_eq ha.mappings hm
    obtain ⟨h₁, h₂⟩ := Prod.mk.inj hpe
    exact ⟨m', h₁ ▸ hm', by rw [(Prod.mk.inj hme).right, he, h₂]⟩
  case named  =>
    intro b m hm
    obtain ⟨m', hm', hme⟩ := List.exists_of_map_eq ha.mappings.symm hm
    obtain ⟨s, hs, he⟩ := hl.named hm'
    obtain ⟨s', hs', hse⟩ := List.exists_of_map_eq ha.segments hs
    obtain ⟨h₁, h₂⟩ := Prod.mk.inj hme
    exact ⟨s', h₂ ▸ hs', by rw [hse, he, h₁]⟩
  case found  =>
    intro n g hg
    obtain ⟨s, hs, he⟩ := hl.found (hf _ g hg)
    obtain ⟨s', hs', hse⟩ := List.exists_of_map_eq ha.segments hs
    exact ⟨s', hs', hse.trans he⟩

end Host

section

variable (hn : Next fits h l h' l') (hl : h.Linked)
include hn hl

theorem linked_next : h'.Linked := by
  cases hn
  case find name g hg =>
    constructor
    case linked =>
      intro o p hp
      obtain ⟨m, hm, he⟩ := hl.linked hp
      exact ⟨m, List.getElem?_append_some hm, he⟩
    case named  =>
      intro b m hm
      rw [List.getElem?_concat_eq_ite] at hm
      split at hm
      · obtain rfl := Option.some.inj hm
        exact hl.found hg
      · exact hl.named hm
    case found  => exact hl.found
  case create name hg =>
    constructor
    case linked =>
      intro o p hp
      obtain ⟨m, hm, he⟩ := hl.linked hp
      exact ⟨m, List.getElem?_append_some hm, he⟩
    case named  =>
      intro b m hm
      rw [List.getElem?_concat_eq_ite] at hm
      split at hm
      · obtain rfl := Option.some.inj hm
        exact ⟨.new name, by simp, rfl⟩
      · obtain ⟨s, hs, he⟩ := hl.named hm
        exact ⟨s, List.getElem?_append_some hs, he⟩
    case found  =>
      intro n g hf
      simp only [Function.update_apply] at hf
      split at hf
      case isTrue he  =>
        obtain rfl := Option.some.inj hf
        exact ⟨.new name, by simp, (Kind.internal_injective (k := .mapping) (j := .mapping) he).right.symm⟩
      case isFalse he =>
        obtain ⟨s, hs, he⟩ := hl.found hf
        exact ⟨s, List.getElem?_append_some hs, he⟩
  case acquire b m s s' name x ptr hm hs _ _ _ =>
    have ha : ((h.modifySegment m.segment (·.setObject name.text s')).modifyMapping b
        fun m => { m with use_count := m.use_count + 1 }).Linked := hl.congr
      ⟨List.map_modify_of_eq fun _ _ => rfl, List.map_modify_of_eq fun _ _ => rfl, rfl⟩ fun _ _ hg => hg
    refine ⟨fun {o p} hp => ?_, ha.named, ha.found⟩
    rw [List.getElem?_concat_eq_ite] at hp
    split at hp
    · obtain rfl := Option.some.inj hp
      exact ⟨_, List.getElem?_modify_eq_ite hm |>.trans (if_pos rfl), rfl⟩
    · exact ha.linked hp
  case unlink =>
    refine hl.congr ⟨List.map_modify_of_eq fun _ _ => rfl, rfl, rfl⟩ fun t g hg => ?_
    simp only [Function.update_apply] at hg
    split at hg
    · cases hg
    · exact hg
  all_goals
    refine hl.congr ⟨?_, ?_, ?_⟩ fun _ _ hg => hg
    all_goals first | rfl | exact List.map_modify_of_eq fun _ _ => rfl

end

namespace Host

variable {f : MappingPtr → MappingPtr} {d : ObjectPtr → ObjectPtr}

theorem Linked.mapping_lt (hl : h.Linked) (hm : h.mappings[b]? = some m) : m.segment < h.segments.length := by
  obtain ⟨s, hs, _⟩ := hl.named hm
  exact (List.getElem?_eq_some_iff.mp hs).fst

theorem Linked.mapped_eq (hl : h.Linked) (hm : h.mappings[b]? = some m) (hs : h.segments[m.segment]? = some s) :
    s.mapped = m.name := by
  obtain ⟨s', hs', he⟩ := hl.named hm
  obtain rfl := Option.some.inj (hs'.symm.trans hs)
  exact he

theorem Linked.object_lt (hl : h.Linked) (hp : h.objects[o]? = some p) : p.segment < h.segments.length := by
  obtain ⟨m, hm, he⟩ := hl.linked hp
  exact he ▸ hl.mapping_lt hm

-- There are no pointers to a segment that is yet to be created.
theorem Linked.counted_length (hl : h.Linked) : h.counted h.segments.length = 0 := by
  refine List.countP_eq_zero.mpr fun m hm => ?_
  obtain ⟨b, hb⟩ := List.getElem?_of_mem hm
  have := hl.mapping_lt hb
  simp [this.ne]

theorem Linked.handles_length (hl : h.Linked) : h.handles h.segments.length n = [] := by
  refine List.filterMap_eq_nil_iff.mpr fun p hp => ?_
  obtain ⟨o, ho⟩ := List.getElem?_of_mem hp
  have := hl.object_lt ho
  simp [handle, this.ne]

theorem counted_concat (hm : h'.mappings = h.mappings ++ [⟨n, i, 1, .opened⟩]) : h'.counted g = h.counted g := by
  simp [counted, hm]

section

variable (hm : h.mappings[b]? = some m) (hh : h'.mappings = h.mappings.modify b f) (hs : (f m).segment = m.segment)
include hm hh hs

theorem counted_modify : h'.counted g + (if m.segment = g ∧ m.phase = .counted then 1 else 0) =
    h.counted g + if m.segment = g ∧ (f m).phase = .counted then 1 else 0 := by
  have := List.countP_modify (f := f) (fun m => decide (m.segment = g ∧ m.phase = .counted)) hm
  simpa only [counted, hh, hs, Bool.toNat, Bool.cond_decide] using this

theorem counted_modify_of_iff (hφ : (f m).phase = .counted ↔ m.phase = .counted) : h'.counted g = h.counted g := by
  have := counted_modify hm hh hs (g := g)
  simpa only [hφ, Nat.add_right_cancel_iff] using this

theorem counted_modify_gain (h₁ : m.phase ≠ .counted) (h₂ : (f m).phase = .counted) :
    h'.counted g = if m.segment = g then h.counted g + 1 else h.counted g := by
  have := counted_modify hm hh hs (g := g)
  split <;> simp_all

theorem counted_modify_lose (h₁ : m.phase = .counted) (h₂ : (f m).phase ≠ .counted) :
    h'.counted g = if m.segment = g then h.counted g - 1 else h.counted g := by
  have := counted_modify hm hh hs (g := g)
  split <;> simp_all
  omega

end

theorem counted_pos (hm : h.mappings[b]? = some m) (hφ : m.phase = .counted) : 0 < h.counted m.segment :=
  List.countP_pos_iff.mpr ⟨m, List.mem_of_getElem? hm, by simp [hφ]⟩

theorem handles_concat (hp : h'.objects = h.objects ++ [p]) :
    h'.handles g n = h.handles g n ++ (handle g n p).toList := by
  simp only [handles, hp, List.filterMap_append]
  cases hh : handle g n p <;> simp [hh]

section

variable (hp : h.objects[o]? = some p) (hh : h'.objects = h.objects.modify o d)
include hp hh

theorem handles_modify :
    ((handle g n p).toList ++ h'.handles g n).Perm ((handle g n (d p)).toList ++ h.handles g n) := by
  have := List.filterMap_set_perm (handle g n) (d p) hp
  simpa only [handles, hh, List.modify_eq_set_getElem?, hp, Option.map_eq_map, Option.map_some,
    Option.getD_some] using this

theorem handles_modify_of_eq (hd : handle g n (d p) = handle g n p) : (h'.handles g n).Perm (h.handles g n) := by
  have := handles_modify hp hh (g := g) (n := n)
  rwa [hd, List.perm_append_left_iff] at this

theorem handles_modify_lose {x : Handle} (h₁ : handle g n p = some x) (h₂ : handle g n (d p) = none) :
    (x :: h'.handles g n).Perm (h.handles g n) := by
  simpa [h₁, h₂] using handles_modify hp hh (g := g) (n := n)

end

end Host

namespace Host.Counting

-- A step that leaves the counters of mappings as they are.
theorem keep_mapping {s' : Segment} (hc : h.Counting) (hcount : h'.counted g = h.counted g)
    (hs : h.segments[g]? = some s)
    (he : s'.mapping s'.mapped.text = s.mapping s.mapped.text) :
    (s'.mapping s'.mapped.text).Counts (h'.counted g) := by
  rw [hcount, he]
  exact hc.mappings hs

theorem set_object {x : SharedObject} (hc : h.Counting) (hcount : h'.counted g = h.counted g)
    (hseg : h'.segments = h.segments.modify i (·.setObject n.text x)) (hs : h'.segments[g]? = some s) :
    (s.mapping s.mapped.text).Counts (h'.counted g) := by
  rw [hseg] at hs
  obtain ⟨s₀, hs₀, rfl⟩ := List.exists_of_getElem?_modify hs
  refine hc.keep_mapping hcount hs₀ ?_
  split <;> simp

theorem set_mapping {x : SharedMapping} (hc : h.Counting) (hl : h.Linked) (hm : h.mappings[b]? = some m)
    (hseg : h'.segments = h.segments.modify m.segment (·.setMapping m.name.text x))
    (hx : x.Counts (h'.counted m.segment)) (hcount : m.segment ≠ g → h'.counted g = h.counted g)
    (hs : h'.segments[g]? = some s) : (s.mapping s.mapped.text).Counts (h'.counted g) := by
  rw [hseg] at hs
  obtain ⟨s₀, hs₀, rfl⟩ := List.exists_of_getElem?_modify hs
  by_cases hg : m.segment = g
  · subst hg
    simpa [hl.mapped_eq hm hs₀] using hx
  · simpa only [hg, if_false] using hc.keep_mapping (hcount hg) hs₀ rfl

theorem keep_object {s' : Segment} (hc : h.Counting) (hs : h.segments[g]? = some s)
    (he : s'.object n.text = s.object n.text)
    (hp : (h'.handles g n).Perm (h.handles g n)) : Processes.Sound .max ⟨s'.object n.text, h'.handles g n⟩ := by
  rw [he]
  exact (hc.objects hs n).congr hp

-- A step on one object.
theorem change_object {x : SharedObject} (hc : h.Counting)
    (hseg : h'.segments = h.segments.modify i (·.setObject n.text x))
    (hx : Processes.Sound .max ⟨x, h'.handles i n⟩)
    (hp : ∀ g n', i ≠ g ∨ n ≠ n' → (h'.handles g n').Perm (h.handles g n')) (hs : h'.segments[g]? = some s)
    (n' : Name) :
    Processes.Sound .max ⟨s.object n'.text, h'.handles g n'⟩ := by
  rw [hseg] at hs
  obtain ⟨s₀, hs₀, rfl⟩ := List.exists_of_getElem?_modify hs
  split
  case isTrue hg  =>
    subst hg
    obtain rfl | hne := eq_or_ne n n'
    · simpa using hx
    · exact hc.keep_object hs₀ (Segment.object_setObject_of_ne hne) (hp i n' (.inr hne))
  case isFalse hg => exact hc.keep_object hs₀ rfl (hp g n' (.inl hg))

end Host.Counting

theorem deleters_next (hn : Next fits h l h' l') (hd : ∀ {o : ℕ} {p}, h.objects[o]? = some p → p.ptr.deleter)
    (hp : h'.objects[o]? = some p) : p.ptr.deleter := by
  cases hn
  case acquire =>
    rw [List.getElem?_concat_eq_ite] at hp
    split at hp
    · obtain rfl := Option.some.inj hp
      assumption
    · exact hd hp
  case copyObject | dropObject | destroy | detach =>
    obtain ⟨p₀, hp₀, rfl⟩ := List.exists_of_getElem?_modify hp
    have : p₀.ptr.deleter := hd hp₀
    split <;> exact this
  all_goals exact hd hp

section

variable (hn : Next fits h l h' l') (hr : Ready h l) (hu : l.Undisturbed fits h) (hl : h.Linked) (hc : h.Counting)
include hn hr hu hl hc

theorem counts_next (hs : h'.segments[g]? = some s) : (s.mapping s.mapped.text).Counts (h'.counted g) := by
  cases hn
  case find =>
    rw [counted_concat rfl]
    exact hc.mappings hs
  case create name _ =>
    rw [counted_concat rfl]
    rw [List.getElem?_concat_eq_ite] at hs
    split at hs
    case isTrue hg  =>
      obtain rfl := Option.some.inj hs
      rw [← hg, hl.counted_length]
      exact ⟨rfl, by simp⟩
    case isFalse hg => exact hc.mappings hs
  case increment b m s₀ s' hm hs₀ hi =>
    obtain ⟨rfl, hmax⟩ := hu
    have hφ := phase_eq_of_inPhase hm (hr.opened b rfl)
    refine hc.set_mapping hl hm rfl ?_ (fun hg => ?_) hs
    · rw [counted_modify_gain hm rfl rfl (by simp [hφ]) rfl, if_pos rfl]
      have hx := hc.mappings hs₀
      rw [hl.mapped_eq hm hs₀] at hx
      exact hx.increment (hmax m hm s₀ hs₀) hi
    · rw [counted_modify_gain hm rfl rfl (by simp [hφ]) rfl, if_neg hg]
  case remove b m s₀ s' shouldRemove hm hs₀ hi =>
    have hφ := phase_eq_of_inPhase hm (hr.removing b rfl).left
    have hne : (if shouldRemove then MappingPtr.Phase.unlinking else .closed) ≠ .counted := by
      split <;> simp
    have hx := hc.mappings hs₀
    rw [hl.mapped_eq hm hs₀] at hx
    refine hc.set_mapping hl hm rfl ?_ (fun hg => ?_) hs
    · rw [counted_modify_lose hm rfl rfl hφ hne, if_pos rfl]
      exact (hx.remove_mapping (counted_pos hm hφ) hi).left
    · rw [counted_modify_lose hm rfl rfl hφ hne, if_neg hg]
  case copy hm _ | drop hm _ =>
    refine hc.keep_mapping ?_ hs rfl
    rw [counted_modify_of_iff hm rfl rfl Iff.rfl]
  case unlink hm =>
    have hφ := phase_eq_of_inPhase hm (hr.unlinking _ rfl)
    refine hc.keep_mapping ?_ hs rfl
    rw [counted_modify_of_iff hm rfl rfl (by simp [hφ])]
  case detach hm _ =>
    refine hc.keep_mapping ?_ hs rfl
    rw [counted_modify_of_iff hm rfl rfl Iff.rfl]
  case refuse | destroy => exact hc.set_object rfl rfl hs
  case acquire hm _ _ _ _ =>
    refine hc.set_object ?_ rfl hs
    rw [counted_modify_of_iff hm rfl rfl Iff.rfl]
  case delete | copyObject | dropObject => exact hc.mappings hs

theorem objects_next (hs : h'.segments[g]? = some s) (n : Name) :
    Processes.Sound .max ⟨s.object n.text, h'.handles g n⟩ := by
  cases hn
  case find | delete | copy | drop | unlink => exact hc.objects hs n
  case create name _ =>
    rw [List.getElem?_concat_eq_ite] at hs
    split at hs
    case isTrue hg  =>
      obtain rfl := Option.some.inj hs
      change Processes.Sound .max ⟨_, h.handles g n⟩
      rw [← hg, hl.handles_length]
      exact .init
    case isFalse hg => exact hc.objects hs n
  case increment | remove =>
    obtain ⟨s₀, hs₀, rfl⟩ := List.exists_of_getElem?_modify hs
    refine hc.keep_object hs₀ ?_ (.refl _)
    split <;> simp
  case refuse b m s₀ s' name x ptr hm hs₀ hx hp =>
    refine hc.change_object (i := m.segment) (n := name) rfl ?_ ?_ hs n
    · exact (hc.objects hs₀ name).refuse hx hp
    · exact fun _ _ _ => .refl _
  case acquire b m s₀ s' name x ptr hm hs₀ _ hx _ =>
    refine hc.change_object (i := m.segment) (n := name) rfl ?_ (fun g n' hne => ?_) hs n <;> rw [handles_concat rfl]
    · simpa [handle] using (hc.objects hs₀ name).acquire hx (hu m hm s₀ hs₀)
    · have : ¬(m.segment = g ∧ name = n') := not_and_or.mpr hne
      simp [handle, this]
  case copyObject hp _ | dropObject hp _ => exact hc.keep_object hs rfl (handles_modify_of_eq hp rfl rfl)
  case detach hp _ _ =>
    have hψ := phase_eq_of_objectInPhase hp (hr.detaching _ rfl)
    exact hc.keep_object hs rfl (handles_modify_of_eq hp rfl (by simp [handle, hψ]))
  case destroy o p s₀ hp hs₀ =>
    have hψ := phase_eq_of_objectInPhase hp (hr.destroying _ rfl).left
    refine hc.change_object (i := p.segment) (n := p.name) rfl ?_ (fun g n' hne => ?_) hs n
    · refine Processes.Sound.delete (d := ⟨p.ptr, false⟩) ((hc.objects hs₀ p.name).congr ?_) (hc.deleters hp) rfl
      exact handles_modify_lose hp rfl (by simp [handle, hψ]) (by simp [handle])
    · have : ¬(p.segment = g ∧ p.name = n') := not_and_or.mpr hne
      exact handles_modify_of_eq hp rfl (by simp [handle, ← and_assoc, this])

theorem counting_next : h'.Counting :=
  ⟨counts_next hn hr hu hl hc, objects_next hn hr hu hl hc, deleters_next hn hc.deleters⟩

end

end UtilsIPC
