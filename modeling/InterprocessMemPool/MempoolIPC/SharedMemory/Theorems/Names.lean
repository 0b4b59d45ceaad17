import InterprocessMemPool.MempoolIPC.SharedMemory.Basic

namespace UtilsIPC

theorem c_str_eq {text : Text} (h : nul ∉ text) : c_str text = text := by
  refine List.takeWhile_eq_self_iff.mpr fun a ha => decide_eq_true fun he => ?_
  exact h (he ▸ ha)

-- What the internal names stand for.
inductive Kind
  | objectMutex
  | objectCounter
  | object
  | mappingMutex
  | mappingCounter
  | mapping
  deriving DecidableEq

namespace Kind

def suffix : Kind → Text
  | .objectMutex    => "_object_mutex__".toList
  | .objectCounter  => "_object_couter__".toList
  | .object         => "_object__".toList
  | .mappingMutex   => "_mapping_mutex__".toList
  | .mappingCounter => "_mapping_count__".toList
  | .mapping        => "_mapping__".toList

def internal : Kind → Text → Text
  | .objectMutex    => GetObjectMutexName
  | .objectCounter  => GetObjectCounterName
  | .object         => GetObjectName
  | .mappingMutex   => GetMappingMutexName
  | .mappingCounter => GetMappingCounterName
  | .mapping        => GetMappingName

variable {k j : Kind} {n n' : Name} {text : Text}

theorem internal_eq : k.internal text = "__".toList ++ text ++ k.suffix := by
  cases k <;> rfl

theorem nul_not_mem_suffix : nul ∉ k.suffix := by
  cases k <;> decide

theorem eq_of_suffix (h : k.suffix <:+ j.suffix) : k = j := by
  cases k <;> cases j
  all_goals first | rfl | exact absurd h (by decide)

theorem c_str_internal : c_str (k.internal n.text) = k.internal n.text := by
  refine c_str_eq ?_
  simp only [internal_eq, List.mem_append, not_or]
  exact ⟨⟨by decide, n.valid⟩, nul_not_mem_suffix⟩

-- No two kinds of names have one internal name, and no two users' names of a kind do.
theorem internal_injective (h : c_str (k.internal n.text) = c_str (j.internal n'.text)) : k = j ∧ n = n' := by
  rw [c_str_internal, c_str_internal, internal_eq, internal_eq, List.append_assoc, List.append_assoc] at h
  have h := List.append_cancel_left h
  have h₁ : k.suffix <:+ n'.text ++ j.suffix := ⟨n.text, h⟩
  have hk : k = j := by
    obtain hs | hs := List.suffix_or_suffix_of_suffix h₁ (List.suffix_append _ _)
    · exact eq_of_suffix hs
    · exact (eq_of_suffix hs).symm
  subst hk
  refine ⟨rfl, ?_⟩
  have ht := List.append_cancel_right h
  cases n
  cases n'
  simpa using ht

end Kind

namespace Segment

variable {s : Segment} {n n' : Name} {k j : Kind} {entry : Option Entry} {α : Type*} {f : Entry → Option α}
variable {o : SharedObject} {m : SharedMapping}

theorem find_write_self {name : Text} : (s.write name entry).find name f = entry.bind f := by
  simp [find, write]

theorem find_write_of_ne (h : k ≠ j ∨ n ≠ n') :
    (s.write (k.internal n.text) entry).find (j.internal n'.text) f = s.find (j.internal n'.text) f := by
  have hne : c_str (j.internal n'.text) ≠ c_str (k.internal n.text) := by
    intro he
    obtain ⟨rfl, rfl⟩ := Kind.internal_injective he
    exact h.elim (fun h => h rfl) fun h => h rfl
  simp only [find, write, Function.update_of_ne hne]

@[simp]
theorem setObject_mapped {name : Text} : (s.setObject name o).mapped = s.mapped :=
  rfl

@[simp]
theorem setMapping_mapped {name : Text} : (s.setMapping name m).mapped = s.mapped :=
  rfl

-- The entries of an object and of a mapping under their internal names.
theorem find_setObject {name : Text} : (s.setObject n.text o).find name f =
    (((s.write (Kind.objectMutex.internal n.text) (o.mutex.map fun _ => .mutex)).write
      (Kind.objectCounter.internal n.text) (o.counter.map .counter)).write
      (Kind.object.internal n.text) (o.object.map .object)).find name f :=
  rfl

theorem find_setMapping {name : Text} : (s.setMapping n.text m).find name f =
    ((s.write (Kind.mappingMutex.internal n.text) (m.mutex.map fun _ => .mutex)).write
      (Kind.mappingCounter.internal n.text) (m.counter.map .counter)).find name f :=
  rfl

theorem object_eq : s.object n.text = ⟨s.find (Kind.objectMutex.internal n.text) Entry.mutex?,
    s.find (Kind.objectCounter.internal n.text) Entry.counter?, s.find (Kind.object.internal n.text) Entry.object?,
    s.constructed (c_str (Kind.object.internal n.text))⟩ :=
  rfl

theorem mapping_eq : s.mapping n.text = ⟨s.find (Kind.mappingMutex.internal n.text) Entry.mutex?,
    s.find (Kind.mappingCounter.internal n.text) Entry.counter?⟩ :=
  rfl

theorem constructed_setObject : (s.setObject n.text o).constructed =
    Function.update s.constructed (c_str (Kind.object.internal n.text)) o.constructed :=
  rfl

-- The other internal names are not affected.
theorem find_setObject_of_ne (h : n ≠ n' ∨ j ≠ .objectMutex ∧ j ≠ .objectCounter ∧ j ≠ .object) :
    (s.setObject n.text o).find (j.internal n'.text) f = s.find (j.internal n'.text) f := by
  have h₁ : Kind.objectMutex ≠ j ∨ n ≠ n' := h.symm.imp (fun h => h.left.symm) id
  have h₂ : Kind.objectCounter ≠ j ∨ n ≠ n' := h.symm.imp (fun h => h.right.left.symm) id
  have h₃ : Kind.object ≠ j ∨ n ≠ n' := h.symm.imp (fun h => h.right.right.symm) id
  rw [find_setObject, find_write_of_ne h₃, find_write_of_ne h₂, find_write_of_ne h₁]

theorem find_setMapping_of_ne (h : j ≠ .mappingMutex ∧ j ≠ .mappingCounter) :
    (s.setMapping n.text m).find (j.internal n'.text) f = s.find (j.internal n'.text) f := by
  rw [find_setMapping, find_write_of_ne (.inl h.right.symm), find_write_of_ne (.inl h.left.symm)]

-- An operation on an object finds what the one before it on that object has left.
@[simp]
theorem object_setObject_self : (s.setObject n.text o).object n.text = o := by
  have h₁ : (s.setObject n.text o).find (Kind.objectMutex.internal n.text) Entry.mutex? = o.mutex := by
    rw [find_setObject, find_write_of_ne (.inl (by decide)), find_write_of_ne (.inl (by decide)), find_write_self]
    cases o.mutex <;> rfl
  have h₂ : (s.setObject n.text o).find (Kind.objectCounter.internal n.text) Entry.counter? = o.counter := by
    rw [find_setObject, find_write_of_ne (.inl (by decide)), find_write_self]
    cases o.counter <;> rfl
  have h₃ : (s.setObject n.text o).find (Kind.object.internal n.text) Entry.object? = o.object := by
    rw [find_setObject, find_write_self]
    cases o.object <;> rfl
  rw [object_eq, h₁, h₂, h₃, constructed_setObject, Function.update_self]

theorem object_setObject_of_ne (h : n ≠ n') : (s.setObject n.text o).object n'.text = s.object n'.text := by
  have hne : c_str (Kind.object.internal n'.text) ≠ c_str (Kind.object.internal n.text) := fun he =>
    h (Kind.internal_injective he).right.symm
  simp only [object_eq, find_setObject_of_ne (.inl h), constructed_setObject, Function.update_of_ne hne]

@[simp]
theorem mapping_setObject : (s.setObject n.text o).mapping n'.text = s.mapping n'.text := by
  rw [mapping_eq, find_setObject_of_ne (.inr (by decide)), find_setObject_of_ne (.inr (by decide)), mapping_eq]

@[simp]
theorem object_setMapping : (s.setMapping n.text m).object n'.text = s.object n'.text := by
  rw [object_eq, find_setMapping_of_ne (by decide), find_setMapping_of_ne (by decide),
    find_setMapping_of_ne (by decide), object_eq]
  rfl

@[simp]
theorem mapping_setMapping_self : (s.setMapping n.text m).mapping n.text = m := by
  have h₁ : (s.setMapping n.text m).find (Kind.mappingMutex.internal n.text) Entry.mutex? = m.mutex := by
    rw [find_setMapping, find_write_of_ne (.inl (by decide)), find_write_self]
    cases m.mutex <;> rfl
  have h₂ : (s.setMapping n.text m).find (Kind.mappingCounter.internal n.text) Entry.counter? = m.counter := by
    rw [find_setMapping, find_write_self]
    cases m.counter <;> rfl
  rw [mapping_eq, h₁, h₂]

end Segment
end UtilsIPC
