import InterprocessMemPool.Concurrency.References
import InterprocessMemPool.MempoolIPC.SharedMemory.Theorems.Next

open References

namespace List

variable {α : Type*} {as : List α} {a b : α} {i j : ℕ} {f : α → α}

theorem getElem?_modify_eq_ite (h : as[i]? = some a) :
    (as.modify i f)[j]? = if i = j then some (f a) else as[j]? := by
  rw [getElem?_modify]
  split
  case isTrue hj  => simp [← hj, h]
  case isFalse hj => simp

theorem exists_of_getElem?_modify (h : (as.modify i f)[j]? = some b) :
    ∃ a, as[j]? = some a ∧ b = if i = j then f a else a := by
  rw [getElem?_modify] at h
  obtain ⟨a, ha, rfl⟩ := Option.map_eq_some_iff.mp h
  exact ⟨a, ha, by split <;> rfl⟩

theorem map_modify_of_eq {β : Type*} {q : α → β} (hf : ∀ a ∈ as[i]?, q (f a) = q a) :
    (as.modify i f).map q = as.map q := by
  refine ext_getElem? fun k => ?_
  simp only [getElem?_map, getElem?_modify]
  split
  case isTrue hk  => cases ha : as[k]? <;> simp_all
  case isFalse hk => simp

theorem exists_of_map_eq {β : Type*} {q : α → β} {bs : List α} (h : bs.map q = as.map q) (ha : as[i]? = some a) :
    ∃ b, bs[i]? = some b ∧ q b = q a := by
  have := congrArg (·[i]?) h
  simpa [ha] using this

theorem getElem?_append_some {bs : List α} (h : as[i]? = some a) : (as ++ bs)[i]? = some a := by
  obtain ⟨hlt, _⟩ := getElem?_eq_some_iff.mp h
  rwa [getElem?_append_left hlt]

theorem getElem?_concat_eq_ite : (as ++ [b])[j]? = if as.length = j then some b else as[j]? := by
  rw [getElem?_append]
  split
  case isTrue hj  => simp [hj.ne']
  case isFalse hj =>
    split
    case isTrue hl  => simp [hl]
    case isFalse hl => simp [show j - as.length ≠ 0 by omega, as.getElem?_eq_none (not_lt.mp hj)]

end List

namespace UtilsIPC

variable {fits : Fits} {h h' : Host} {l l' : Variable} {b j o : ℕ} {m : MappingPtr} {p : ObjectPtr}

namespace Variable

-- The pointer to a segment of which there is a copy in the variable.
def segmentPtr : Variable → Option ℕ
  | .opened b | .mapping b => some b
  | _                      => none

def objectPtr : Variable → Option ℕ
  | .object o => some o
  | _         => none

def opens : Variable → Option ℕ
  | .opened b => some b
  | _         => none

def removes : Variable → Option ℕ
  | .removing b => some b
  | _           => none

-- The pointer whose mapping is about to be removed.
def unlinks : Variable → Option ℕ
  | .deleting b true | .unlinking b => some b
  | _                               => none

def destroys : Variable → Option ℕ
  | .destroying o => some o
  | _             => none

def detaches : Variable → Option ℕ
  | .detaching o => some o
  | _            => none

end Variable

namespace Host

def uses (h : Host) (b : ℕ) : ℕ :=
  h.mappings[b]?.elim 0 (·.use_count)

def objectUses (h : Host) (o : ℕ) : ℕ :=
  h.objects[o]?.elim 0 (·.use_count)

-- 1 if the pointer is in the phase, otherwise 0.
def inPhase (h : Host) (φ : MappingPtr.Phase) (b : ℕ) : ℕ :=
  if h.mappings[b]?.any (·.phase = φ) then 1 else 0

def objectInPhase (h : Host) (φ : ObjectPtr.Phase) (o : ℕ) : ℕ :=
  if h.objects[o]?.any (·.phase = φ) then 1 else 0

end Host

-- The pointer to a segment of which there is a copy in the deleter.
def ObjectPtr.captured (p : ObjectPtr) : Option ℕ :=
  if p.phase = .detached then none else some p.segmentPtr

def Host.captured (h : Host) : List (Option ℕ) :=
  h.objects.map ObjectPtr.captured

namespace Host

variable {f : MappingPtr → MappingPtr} {d : ObjectPtr → ObjectPtr}
variable {φ : MappingPtr.Phase} {ψ : ObjectPtr.Phase}

theorem inPhase_le (h : Host) (φ : MappingPtr.Phase) (b : ℕ) : h.inPhase φ b ≤ 1 := by
  rw [inPhase]
  split <;> omega

theorem inPhase_add_le (h : Host) (b : ℕ) : h.inPhase .opened b + h.inPhase .counted b ≤ 1 := by
  simp only [inPhase]
  cases h.mappings[b]?
  case none   => simp
  case some m => cases hp : m.phase <;> simp [hp]

theorem objectInPhase_le (h : Host) (ψ : ObjectPtr.Phase) (o : ℕ) : h.objectInPhase ψ o ≤ 1 := by
  rw [objectInPhase]
  split <;> omega

section

variable (hm : h.mappings[b]? = some m)
include hm

theorem uses_eq : h.uses b = m.use_count := by
  simp [uses, hm]

theorem inPhase_eq : h.inPhase φ b = if m.phase = φ then 1 else 0 := by
  simp [inPhase, hm]

theorem phase_eq_of_inPhase (hφ : h.inPhase φ b = 1) : m.phase = φ := by
  by_contra hne
  simp [inPhase_eq hm, hne] at hφ

theorem uses_modify (hh : h'.mappings = h.mappings.modify b f) :
    h'.uses j = if b = j then (f m).use_count else h.uses j := by
  simp only [uses, hh, List.getElem?_modify_eq_ite hm]
  split <;> rfl

theorem inPhase_modify (hh : h'.mappings = h.mappings.modify b f) :
    h'.inPhase φ j = if b = j then (if (f m).phase = φ then 1 else 0) else h.inPhase φ j := by
  simp only [inPhase, hh, List.getElem?_modify_eq_ite hm]
  split <;> simp

end

section

variable (hm : h'.mappings = h.mappings ++ [m])
include hm

theorem uses_concat : h'.uses j = if h.mappings.length = j then m.use_count else h.uses j := by
  simp only [uses, hm, List.getElem?_concat_eq_ite]
  split <;> rfl

theorem inPhase_concat :
    h'.inPhase φ j = if h.mappings.length = j then (if m.phase = φ then 1 else 0) else h.inPhase φ j := by
  simp only [inPhase, hm, List.getElem?_concat_eq_ite]
  split <;> simp

end

@[simp]
theorem uses_length : h.uses h.mappings.length = 0 := by
  simp [uses]

@[simp]
theorem inPhase_length : h.inPhase φ h.mappings.length = 0 := by
  simp [inPhase]

section

variable (hp : h.objects[o]? = some p)
include hp

theorem objectUses_eq : h.objectUses o = p.use_count := by
  simp [objectUses, hp]

theorem objectInPhase_eq : h.objectInPhase ψ o = if p.phase = ψ then 1 else 0 := by
  simp [objectInPhase, hp]

theorem phase_eq_of_objectInPhase (hψ : h.objectInPhase ψ o = 1) : p.phase = ψ := by
  by_contra hne
  simp [objectInPhase_eq hp, hne] at hψ

theorem objectUses_modify (hh : h'.objects = h.objects.modify o d) :
    h'.objectUses j = if o = j then (d p).use_count else h.objectUses j := by
  simp only [objectUses, hh, List.getElem?_modify_eq_ite hp]
  split <;> rfl

theorem objectInPhase_modify (hh : h'.objects = h.objects.modify o d) :
    h'.objectInPhase ψ j = if o = j then (if (d p).phase = ψ then 1 else 0) else h.objectInPhase ψ j := by
  simp only [objectInPhase, hh, List.getElem?_modify_eq_ite hp]
  split <;> simp

theorem getElem?_captured : h.captured[o]? = some p.captured := by
  simp [captured, hp]

theorem captured_modify (hh : h'.objects = h.objects.modify o d) : h'.captured = h.captured.set o (d p).captured := by
  simp [captured, hh, List.modify_eq_set_getElem?, hp, List.map_set]

theorem captured_modify_of_eq (hh : h'.objects = h.objects.modify o d) (hd : (d p).captured = p.captured) :
    h'.captured = h.captured := by
  obtain ⟨hlt, he⟩ := List.getElem?_eq_some_iff.mp (getElem?_captured hp)
  rw [captured_modify hp hh, hd, ← he, List.set_getElem_self]

end

section

variable (hp : h'.objects = h.objects ++ [p])
include hp

theorem objectUses_concat : h'.objectUses j = if h.objects.length = j then p.use_count else h.objectUses j := by
  simp only [objectUses, hp, List.getElem?_concat_eq_ite]
  split <;> rfl

theorem objectInPhase_concat : h'.objectInPhase ψ j =
    if h.objects.length = j then (if p.phase = ψ then 1 else 0) else h.objectInPhase ψ j := by
  simp only [objectInPhase, hp, List.getElem?_concat_eq_ite]
  split <;> simp

end

theorem captured_concat (hp : h'.objects = h.objects ++ [p]) : h'.captured = h.captured ++ [p.captured] := by
  simp [captured, hp]

@[simp]
theorem objectUses_length : h.objectUses h.objects.length = 0 := by
  simp [objectUses]

@[simp]
theorem objectInPhase_length : h.objectInPhase ψ h.objects.length = 0 := by
  simp [objectInPhase]

end Host
end UtilsIPC
