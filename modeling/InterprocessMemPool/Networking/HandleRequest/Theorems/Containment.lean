import InterprocessMemPool.Networking.HandleRequest.Basic

namespace BeastNetworking

variable {doc_root path text : Text} {req : Request} {file : Text → FileResult} {e : Exchange}

theorem infix_of_mem_splitOn {component : Text} {c : Char} (h : component ∈ text.splitOn c) :
    component <:+: text := by
  have ⟨i, hi⟩ := List.getElem?_of_mem h
  have hm : component ∈ (text.splitOn c).intersperse [c] :=
    List.mem_of_getElem? (i := 2 * i) (by rw [List.getElem?_intersperse_two_mul, hi])
  have hf := List.infix_of_mem_flatten hm
  rwa [← List.intercalate, List.intercalate_splitOn] at hf

section

variable {a b : Text} {c : Char}

theorem not_mem_takeWhile : c ∉ a.takeWhile (· ≠ c) := by
  intro h
  simpa using List.mem_takeWhile_imp h

theorem takeWhile_append_of_mem (h : c ∈ a) :
    (a ++ b).takeWhile (· ≠ c) = a.takeWhile (· ≠ c) := by
  have hn : (a.takeWhile (· ≠ c)).length ≠ a.length := by
    intro hl
    have he := (List.takeWhile_prefix _).eq_of_length hl
    exact not_mem_takeWhile (he.symm ▸ h)
  rw [List.takeWhile_append, if_neg hn]

theorem takeWhile_append_of_not_mem (h : c ∉ a) :
    (a ++ b).takeWhile (· ≠ c) = a ++ b.takeWhile (· ≠ c) := by
  refine List.takeWhile_append_of_pos fun x hx => ?_
  simpa using ne_of_mem_of_not_mem hx h

end

-- No component of a path is `..`.
def Plain (path : Text) : Prop :=
  "..".toList ∉ path.splitOn '/'

theorem plain_of_not_isInfix (h : ¬"..".toList <:+: path) : Plain path :=
  fun hm => h (infix_of_mem_splitOn hm)

theorem Plain.tail (h : Plain ('/' :: path)) : Plain path := by
  have hs := List.splitOn_append_cons_self (a := '/') [] path
  simp only [List.nil_append] at hs
  rw [Plain, hs] at h
  exact fun hm => h (List.mem_append_right _ hm)

theorem plain_append {file : Text} (h : ¬"..".toList <:+: path) (hf : Plain file) :
    Plain (path ++ '/' :: file) := by
  rw [Plain, List.splitOn_append_cons_self]
  exact List.not_mem_append (plain_of_not_isInfix h) hf

-- A path in the directory `doc_root`, of which a separator at its end may have been removed.
def Below (doc_root path : Text) : Prop :=
  ∃ base rest, (base = doc_root ∨ base ++ ['/'] = doc_root) ∧ path = base ++ '/' :: rest ∧ Plain rest

-- The part of the document root that is part of the path.
def stem (doc_root : Text) : Text :=
  if doc_root.getLast? = some '/' then doc_root.dropLast else doc_root

theorem stem_eq_or : stem doc_root = doc_root ∨ stem doc_root ++ ['/'] = doc_root := by
  rw [stem]
  split
  case isTrue h  => exact .inr (List.dropLast_append_getLast? _ h)
  case isFalse h => exact .inl rfl

theorem stem_subset : stem doc_root ⊆ doc_root := by
  rw [stem]
  split
  case isTrue  => exact List.dropLast_subset _
  case isFalse => exact List.Subset.refl _

theorem path_cat_eq : path_cat doc_root path = stem doc_root ++ path := by
  rw [path_cat]
  split
  case isTrue h  => simp [h, stem]
  case isFalse h => rfl

theorem mem_of_below {c : Char} (h : Below doc_root path) (hm : c ∈ doc_root) (hc : c ≠ '/') :
    c ∈ path := by
  obtain ⟨base, rest, rfl | rfl, rfl, _⟩ := h
  · exact List.mem_append_left _ hm
  · exact List.mem_append_left _ <| by simpa [hc] using hm

namespace Request

-- The requests that are answered without a look at the file system.
def Rejected (req : Request) : Prop :=
  (req.method ≠ .get ∧ req.method ≠ .head) ∨
  req.target = [] ∨ req.target.head? ≠ some '/' ∨ "..".toList <:+: req.target

-- What is appended to the document root.
def tail (target : Text) : Text :=
  let path := target.takeWhile (· ≠ '?')
  if path.getLast? = some '/' then path ++ "index.html".toList else path

theorem tail_plain (h : ¬"..".toList <:+: path) : Plain (c_str (tail path)) := by
  have hi : ∀ {t}, t <+: path → Plain t := by
    intro t ht
    exact plain_of_not_isInfix fun hd => h (hd.trans ht.isInfix)
  have hp := List.takeWhile_prefix (l := path) (· ≠ '?')
  simp only [tail]
  split
  case isFalse => exact hi <| (List.takeWhile_prefix _).trans hp
  case isTrue hl =>
    obtain ⟨dir, hd⟩ := List.getLast?_eq_some_iff.mp hl
    rw [hd] at hp ⊢
    have hp := (List.prefix_append dir ['/']).trans hp
    rw [List.append_assoc, c_str]
    by_cases hn : nul ∈ dir
    case pos =>
      rw [takeWhile_append_of_mem hn]
      exact hi <| (List.takeWhile_prefix _).trans hp
    case neg =>
      rw [takeWhile_append_of_not_mem hn]
      have hf : Plain "index.html".toList := show "..".toList ∉ _ by decide
      exact plain_append (fun hd => h (hd.trans hp.isInfix)) hf

theorem tail_cons (text : Text) : ∃ rest, tail ('/' :: text) = '/' :: rest := by
  simp only [tail, List.takeWhile_cons_of_pos (p := (· ≠ '?')) (a := '/') (by decide)]
  split <;> exact ⟨_, rfl⟩

theorem c_str_cons : c_str ('/' :: text) = '/' :: c_str text :=
  List.takeWhile_cons_of_pos (by decide)

theorem path_of_not_mem (h : '?' ∉ doc_root) (ht : req.target = '/' :: text) :
    req.path doc_root = .ok (stem doc_root ++ tail req.target) := by
  have hc : req.target.takeWhile (· ≠ '?') = '/' :: text.takeWhile (· ≠ '?') := by
    rw [ht, List.takeWhile_cons_of_pos (by decide)]
  have hl : (stem doc_root ++ req.target.takeWhile (· ≠ '?')).getLast? =
      (req.target.takeWhile (· ≠ '?')).getLast? := by
    rw [hc, List.getLast?_append_cons]
  rw [path, path_cat_eq, takeWhile_append_of_not_mem fun hm => h (stem_subset hm)]
  simp only [hl, tail]
  cases hg : (req.target.takeWhile (· ≠ '?')).getLast?
  case none =>
    rw [hc, List.getLast?_eq_none_iff] at hg
    exact absurd hg (List.cons_ne_nil _ _)
  case some c => by_cases hs : c = '/' <;> simp [hs]

theorem not_mem_path (h : req.path doc_root = .ok path) : '?' ∉ path := by
  have hn := not_mem_takeWhile (a := path_cat doc_root req.target) (c := '?')
  simp only [Request.path] at h
  split at h
  case h_1 => simp at h
  case h_2 =>
    obtain rfl := Except.ok.inj h
    split
    case isTrue  => exact List.not_mem_append hn (by decide)
    case isFalse => exact hn

theorem handle_request_rejected (file : Text → FileResult) (doc_root : Text) (h : req.Rejected) :
    ∃ e, handle_request file doc_root req = .ok e ∧ e.opened = none ∧
      e.response.status = .bad_request := by
  rw [handle_request]
  by_cases hm : req.method ≠ .get ∧ req.method ≠ .head
  case pos => exact ⟨_, if_pos hm, rfl, rfl⟩
  case neg => exact ⟨_, (if_neg hm).trans (if_pos (h.resolve_left hm)), rfl, rfl⟩

theorem handle_request_not_rejected (file : Text → FileResult) (doc_root : Text)
    (h : ¬req.Rejected) :
    ∃ posted, handle_request file doc_root req = (req.path doc_root).map fun path =>
      { posted, opened := some (c_str path), response := req.serve file path } := by
  obtain ⟨hm, ht⟩ := not_or.mp h
  exact ⟨_, (if_neg hm).trans (if_neg ht)⟩

end Request

open Request

-- The file system is left alone, or a path is opened that is in the document root, or a relative one if
-- there is no document root.
def Contained (doc_root : Text) (e : Exchange) : Prop :=
  (e.opened = none ∧ e.response.status = .bad_request) ∨
  ∃ path ∈ e.opened, if doc_root = [] then path.head? ≠ some '/' else Below doc_root path

theorem contained_of_not_mem (hr : ¬req.Rejected) (hne : doc_root ≠ []) (hq : '?' ∉ doc_root)
    (hn : nul ∉ doc_root) :
    ∃ e, handle_request file doc_root req = .ok e ∧ Contained doc_root e := by
  obtain ⟨posted, he⟩ := handle_request_not_rejected file doc_root hr
  simp only [Rejected, not_or, not_not] at hr
  obtain ⟨_, _, hh, hd⟩ := hr
  obtain ⟨text, ht⟩ := List.head?_eq_some_iff.mp hh
  obtain ⟨rest, htail⟩ := tail_cons text
  have hp := tail_plain hd
  rw [ht, htail, c_str_cons] at hp
  refine ⟨_, by rw [he, path_of_not_mem hq ht, Except.map], .inr ⟨_, rfl, ?_⟩⟩
  rw [if_neg hne, c_str, takeWhile_append_of_not_mem fun hm => hn (stem_subset hm), ht, htail]
  exact ⟨_, _, stem_eq_or, congrArg _ c_str_cons, hp.tail⟩

theorem of_contained (hr : ¬req.Rejected) (he : handle_request file doc_root req = .ok e)
    (hc : Contained doc_root e) : doc_root ≠ [] ∧ '?' ∉ doc_root ∧ nul ∉ doc_root := by
  obtain ⟨posted, hh⟩ := handle_request_not_rejected file doc_root hr
  rw [hh] at he
  cases hp : req.path doc_root
  case error => simp [hp, Except.map] at he
  case ok path =>
    simp only [hp, Except.map, Except.ok.injEq] at he
    obtain rfl := he
    simp only [Contained, Option.mem_def, Option.some.injEq, exists_eq_left', reduceCtorEq, false_and,
      false_or] at hc
    by_cases hne : doc_root = []
    case pos =>
      simp only [Rejected, not_or, not_not] at hr
      obtain ⟨_, _, hh, hd⟩ := hr
      obtain ⟨text, ht⟩ := List.head?_eq_some_iff.mp hh
      obtain ⟨rest, htail⟩ := tail_cons text
      rw [if_pos hne] at hc
      rw [path_of_not_mem (by simp [hne]) ht, hne, ht, htail] at hp
      obtain rfl := Except.ok.inj hp
      exact absurd rfl hc
    case neg =>
      rw [if_neg hne] at hc
      refine ⟨hne, fun hm => ?_, fun hm => ?_⟩
      · exact not_mem_path hp <| (List.takeWhile_prefix _).subset (mem_of_below hc hm (by decide))
      · exact not_mem_takeWhile <| mem_of_below hc hm (by decide)

-- A question mark in the document root is taken for that of the target, and a null character ends the
-- path that is opened.
theorem contained_iff (file : Text → FileResult) (doc_root : Text) (req : Request) :
    (∃ e, handle_request file doc_root req = .ok e ∧ Contained doc_root e) ↔
      req.Rejected ∨ (doc_root ≠ [] ∧ '?' ∉ doc_root ∧ nul ∉ doc_root) := by
  by_cases hr : req.Rejected
  case pos =>
    obtain ⟨e, he, ho, hs⟩ := handle_request_rejected file doc_root hr
    exact iff_of_true ⟨e, he, .inl ⟨ho, hs⟩⟩ (.inl hr)
  case neg =>
    simp only [hr, false_or]
    constructor
    · intro ⟨e, he, hc⟩
      exact of_contained hr he hc
    · intro ⟨hne, hq, hn⟩
      exact contained_of_not_mem hr hne hq hn

def passwd : Request where
  method     := .get
  target     := "/etc/passwd".toList
  version    := 11
  keep_alive := true
  body       := []

-- This is the document root of `shared_state` without the argument for it.
theorem not_contained_nil : handle_request (fun _ => .opened 1024) [] passwd = .ok {
    posted   := none
    opened   := some "/etc/passwd".toList
    response := passwd.respond .ok "application/text" (.file "/etc/passwd".toList 1024) } := by
  decide

end BeastNetworking
