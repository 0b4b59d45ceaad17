import InterprocessMemPool.Text.Search

namespace Search

variable {α : Type*} [DecidableEq α] {name value : List α} {p : α → Bool} {colon stop : α}
variable {field : List α × List α} {fields fields' : List (List α × List α)}

-- A field is a name and a value, with a mark between them and another one at the end.
def piece (colon stop : α) (field : List α × List α) : List α :=
  field.1 ++ colon :: (field.2 ++ [stop])

def pieces (colon stop : α) (fields : List (List α × List α)) : List α :=
  fields.flatMap (piece colon stop)

-- The mark is not in the field itself.
structure Clean (colon : α) (field : List α × List α) : Prop where
  name  : colon ∉ field.1
  value : colon ∉ field.2

theorem search_pieces_cons {key : List α} (hk : stop ∉ key) (hp : p stop = false) :
    search key p stop (pieces colon stop (field :: fields)) =
      (search key p stop (piece colon stop field)).or
        (search key p stop (pieces colon stop fields)) := by
  have h := search_append (field.1 ++ colon :: field.2) (pieces colon stop fields) hk hp
  simpa [pieces, piece] using h

theorem search_pieces_eq_none (hp : p stop = false) (hc : colon ≠ stop) (hs : stop ∉ name)
    (hn : colon ∉ name) (hf : ∀ f ∈ fields, Clean colon f) (h : ∀ f ∈ fields, ¬name <:+ f.1) :
    search (name ++ [colon]) p stop (pieces colon stop fields) = none := by
  induction fields
  case nil => exact search_nil
  case cons field fields ih =>
    have ⟨hf, hf'⟩ := List.forall_mem_cons.mp hf
    have ⟨h, h'⟩ := List.forall_mem_cons.mp h
    have hr : colon ∉ field.2 ++ [stop] := by simpa [hc] using hf.value
    rw [search_pieces_cons (by simpa [hc.symm] using hs) hp, ih hf' h', Option.or_none]
    exact search_eq_none_of_not_suffix h hn hf.name hr hp

-- The value of a name, if no name in front of it ends as it does.
theorem search_pieces (hp : p stop = false) (hc : colon ≠ stop) (hs : stop ∉ name)
    (hn : colon ∉ name) (hf : ∀ f ∈ fields, Clean colon f) (h : ∀ f ∈ fields, ¬name <:+ f.1)
    (hv : value ≠ []) (ha : ∀ a ∈ value, p a) :
    search (name ++ [colon]) p stop (pieces colon stop (fields ++ (name, value) :: fields')) =
      some value := by
  have hk : stop ∉ name ++ [colon] := by simpa [hc.symm] using hs
  induction fields
  case nil =>
    have hself := search_key (name ++ [colon]) hv ha hp
    rw [List.nil_append, search_pieces_cons hk hp, piece]
    simp only [List.append_assoc, List.cons_append, List.nil_append] at hself ⊢
    rw [hself, Option.some_or]
  case cons field fields ih =>
    have ⟨hf, hf'⟩ := List.forall_mem_cons.mp hf
    have ⟨h, h'⟩ := List.forall_mem_cons.mp h
    have hr : colon ∉ field.2 ++ [stop] := by simpa [hc] using hf.value
    rw [List.cons_append, search_pieces_cons hk hp, ih hf' h', piece,
      search_eq_none_of_not_suffix h hn hf.name hr hp, Option.none_or]

end Search
