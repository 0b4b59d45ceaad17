import InterprocessMemPool.MempoolIPC.Pipe.Theorems.Transition

namespace PipeIPC

variable {α : Type*} {p p' : PipeIPC α} {l l' : Call α} {ptr : Option α} {x : Bool} {i : ℕ}
variable {rs : List (Program.Record (PipeIPC α) (Call α))}

-- The steps of a call include one that has stored the pointer.
def Stored (ptr : Option α) (rs : List (Program.Record (PipeIPC α) (Call α))) : Prop :=
  ∃ r ∈ rs, r.post.2.op = some (.enq ptr)

-- The first step of a call has found the pipe to be shut down.
def Refused (rs : List (Program.Record (PipeIPC α) (Call α))) : Prop :=
  ∃ r ∈ rs.head?, r.pre.1.shutdown

theorem stored_concat {r : Program.Record (PipeIPC α) (Call α)} :
    Stored ptr (rs ++ [r]) ↔ Stored ptr rs ∨ r.post.2.op = some (.enq ptr) := by
  simp [Stored, or_and_right, exists_or]

theorem refused_concat {r : Program.Record (PipeIPC α) (Call α)} (h : rs ≠ []) :
    Refused (rs ++ [r]) ↔ Refused rs := by
  simp [Refused, List.head?_append_of_ne_nil _ h]

-- What has happened to the pointer by the time that a `Send` has got to a given place.
def Send.Outcome (s : Send α) (rs : List (Program.Record (PipeIPC α) (Call α))) : Prop :=
  match s.pc with
  | .entered        => rs = []
  | .posting        => rs ≠ [] ∧ ¬Refused rs ∧ Stored s.ptr rs
  | .returned false => rs ≠ [] ∧ (Refused rs ↔ ¬Stored s.ptr rs)
  | _               => rs ≠ [] ∧ ¬Refused rs ∧ ¬Stored s.ptr rs

theorem Send.Outcome.step {s s' : Send α} (ho : s.Outcome rs) (h : s.step x p = some (p', s')) :
    s'.Outcome (rs ++ [⟨i, (p, .send s), (p', .send s')⟩]) := by
  obtain ⟨ptr, mode, t, pc⟩ := s
  cases pc <;> simp only [Send.step, Option.some.injEq, Prod.mk.injEq, reduceCtorEq] at h
  case entered =>
    obtain ⟨rfl, rfl⟩ := h
    simp only [Outcome] at ho
    cases hd : p.shutdown <;> simp [Outcome, ho, hd, Refused, Stored, Call.op]
  all_goals
    simp only [Outcome] at ho
    obtain ⟨hne, ho⟩ := ho
  case waiting =>
    obtain ⟨_, _, h⟩ := Option.map_eq_some_iff.mp h
    obtain ⟨rfl, rfl⟩ := Prod.mk.inj h
    simpa [Outcome, refused_concat hne, stored_concat, Call.op] using ho
  case checking ok =>
    obtain ⟨rfl, rfl⟩ := h
    cases ok <;> cases hd : p.shutdown <;>
      simpa [Outcome, hd, refused_concat hne, stored_concat, Call.op] using ho
  case storing =>
    split at h <;> obtain ⟨rfl, rfl⟩ := Prod.mk.inj (Option.some.inj h) <;>
      simp_all [Outcome, refused_concat hne, stored_concat, Call.op]
  case posting =>
    obtain ⟨rfl, rfl⟩ := h
    simp_all [Outcome, refused_concat hne, stored_concat, Call.op]

def Call.Outcome (l : Call α) (rs : List (Program.Record (PipeIPC α) (Call α))) : Prop :=
  ∀ s, l = .send s → s.Outcome rs

theorem Call.outcome_step (ho : l.Outcome rs) (h : (program α).step x p l = some (p', l')) :
    l'.Outcome (rs ++ [⟨i, (p, l), (p', l')⟩]) := by
  rintro s' rfl
  cases l <;> simp only [program, Call.step, Option.map_eq_some_iff, Prod.mk.injEq] at h
  case send s =>
    obtain ⟨⟨_, _⟩, hs, rfl, h⟩ := h
    obtain rfl := Call.send.inj h
    exact (ho s rfl).step hs
  all_goals simp at h

theorem Call.outcome_of_starts (h : l.starts) : l.Outcome [] := by
  rintro s rfl
  simp_all [starts, Send.Outcome]

-- The flag that `Send` returns is right unless the pipe was shut down from the start. `Init` is
-- arbitrary, as this does not depend on the state of the pipe.
theorem Send.flag_iff {Init : PipeIPC α → Prop} {c : Config α} {s : Send α} {hadError : Bool}
    (h : ((program α).system Init).Reachable c) (hs : c.calls[i]? = some (.send s))
    (hr : s.pc = .returned hadError) :
    ((hadError = false ↔ Stored s.ptr (c.recordsOf i)) ↔ ¬Refused (c.recordsOf i)) := by
  have ho := Program.local_invariant Call.outcome_of_starts Call.outcome_step h hs s rfl
  cases hadError <;> simp_all [Outcome]

end PipeIPC
