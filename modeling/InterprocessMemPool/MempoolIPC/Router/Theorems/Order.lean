import InterprocessMemPool.MempoolIPC.Router.Theorems.Holders

namespace RouterIPC

variable {α : Type*} {r r' : RouterIPC α} {c c₁ c₂ : Config α} {l l' : Call α} {x : Choice α}
variable {s s' : Send α} {rs : Records α} {t : Program.Record (RouterIPC α) (Call α)} {b : Bool}
variable {i j k n : ℕ}

-- The pipe that has just reported an error to a `Send`.
def Send.failed (s : Send α) : Option ℕ :=
  match s.pc with
  | .sending _ _ k c => if c.pc = .returned true then some k else none
  | _                => none

def errors (rs : Records α) : List ℕ :=
  rs.filterMap fun r => r.post.2.send?.bind Send.failed

-- The pipe that a `Send` has found to be alive, but has not sent the pointer to yet.
def Send.pending (s : Send α) : Option ℕ :=
  match s.pc with
  | .sending _ _ k c =>
    match c.pc with
    | .posting | .returned _ => none
    | _                      => some k
  | _                => none

-- The number of errors so far, with the one that is about to be added.
def Send.errorCount (s : Send α) : ℕ :=
  match s.pc with
  | .entered                  => 0
  | .sweeping _ n             => n
  | .sending _ n _ c          => if c.pc = .returned true then n + 1 else n
  | .returned n               => n

theorem errors_concat :
    errors (rs ++ [t]) = errors rs ++ (t.post.2.send?.bind Send.failed).toList := by
  cases h : t.post.2.send?.bind Send.failed <;> simp [errors, h]

-- Each pipe that a `Send` has found to be alive meets exactly one fate.
structure Send.Fates (s : Send α) (rs : Records α) : Prop where
  count  : ∀ k, (visits rs).count k =
    (stores rs).count k + (refusals rs).count k + (errors rs).count k + s.pending.toList.count k
  errors : (errors rs).length = s.errorCount

-- The pipe that is shut down when the pointer is to be sent to it.
def Send.refused (r : RouterIPC α) (s : Send α) : Option ℕ :=
  s.visit.filter fun k => r.segment[k]?.any (·.pipe.shutdown)

theorem Send.fate_within {c c' : PipeIPC.Send α} {p : PipeIPC α} {e : PipeIPC.Counted α}
    {ptr : Option α} {mode : PipeIPC.EnqueueMode} {timeout : SizeT} (he : r.segment[k]? = some e)
    (h : c.step b e.pipe = some (p, c')) :
    let s  : Send α := ⟨ptr, mode, timeout, .sending j n k c⟩
    let s' : Send α := ⟨ptr, mode, timeout, .sending j n k c'⟩
    s'.visit.toList ++ s.pending.toList = s'.stored.toList ++ (s.refused r).toList ++
      s'.failed.toList ++ s'.pending.toList ∧
    s'.errorCount = s.errorCount + s'.failed.toList.length := by
  obtain ⟨ptr, mode, t, pc⟩ := c
  cases pc <;> simp only [PipeIPC.Send.step, Option.some.injEq, Prod.mk.injEq, reduceCtorEq] at h
  case entered =>
    obtain ⟨rfl, rfl⟩ := h
    cases hd : e.pipe.shutdown <;>
      simp [visit, stored, refused, failed, pending, errorCount, Option.filter, he, hd]
  case waiting =>
    obtain ⟨_, _, h⟩ := Option.map_eq_some_iff.mp h
    obtain ⟨rfl, rfl⟩ := Prod.mk.inj h
    simp [visit, stored, refused, failed, pending, errorCount]
  case checking ok =>
    obtain ⟨rfl, rfl⟩ := h
    cases ok <;> cases e.pipe.shutdown <;>
      simp [visit, stored, refused, failed, pending, errorCount]
  case storing =>
    split at h <;> obtain ⟨rfl, rfl⟩ := Prod.mk.inj (Option.some.inj h) <;>
      simp [visit, stored, refused, failed, pending, errorCount]
  case posting =>
    obtain ⟨rfl, rfl⟩ := h
    simp [visit, stored, refused, failed, pending, errorCount]

theorem Send.fate (h : s.step b r = some (r', s')) :
    s'.visit.toList ++ s.pending.toList = s'.stored.toList ++ (s.refused r).toList ++
      s'.failed.toList ++ s'.pending.toList ∧
    s'.errorCount = s.errorCount + s'.failed.toList.length := by
  obtain ⟨ptr, mode, t, pc⟩ := s
  cases pc <;> simp only [step, reduceCtorEq] at h
  case entered =>
    simp only [Option.ite_none_left_eq_some, Option.some.injEq, Prod.mk.injEq] at h
    obtain ⟨_, rfl, rfl⟩ := h
    exact ⟨rfl, rfl⟩
  case sweeping =>
    split at h
    case isFalse =>
      obtain ⟨rfl, rfl⟩ := Prod.mk.inj (Option.some.inj h)
      exact ⟨rfl, rfl⟩
    case isTrue =>
      obtain ⟨k, _, h⟩ := Option.map_eq_some_iff.mp h
      split at h <;> obtain ⟨rfl, rfl⟩ := Prod.mk.inj h <;> exact ⟨rfl, rfl⟩
  case sending =>
    split at h
    case h_1 hadError hc =>
      obtain ⟨rfl, rfl⟩ := Prod.mk.inj (Option.some.inj h)
      cases hadError <;> simp [visit, stored, refused, failed, pending, errorCount, hc]
    case h_2 =>
      obtain ⟨e, p, c', he, hst, rfl, rfl⟩ := through_eq_some h
      exact fate_within he hst

theorem Send.Fates.step (hs : s.Fates rs) (h : s.step b r = some (r', s')) :
    s'.Fates (rs ++ [⟨i, (r, .send s), (r', .send s')⟩]) := by
  obtain ⟨hc, he⟩ := fate h
  constructor
  · intro k
    have h₁ := hs.count k
    have h₂ := congrArg (List.count k) hc
    simp only [List.count_append] at h₂
    simp only [visits_concat, stores_concat, refusals_concat, errors_concat, Call.send?,
      Option.bind_some, List.count_append]
    simp only [refused] at h₂
    omega
  · simp [errors_concat, Call.send?, hs.errors, he]

theorem Send.pc_of_starts (h : (Call.send s).starts) : s.pc = .entered := by
  cases hp : s.pc <;> simp_all [Call.starts]

section

variable {Init : RouterIPC α → Prop}

-- What holds of a `Send`, whatever all other calls do.
theorem Send.local_invariant {J : Send α → Records α → Prop}
    (start : ∀ {s}, s.pc = .entered → J s [])
    (step : ∀ {i b r s r' s' rs}, J s rs → s.step b r = some (r', s') →
      J s' (rs ++ [⟨i, (r, .send s), (r', .send s')⟩]))
    (h : ((program α).system Init).Reachable c) (hs : c.calls[i]? = some (.send s)) :
    J s (c.recordsOf i) := by
  refine Program.local_invariant (J := fun l rs => ∀ s, l = .send s → J s rs) ?_ ?_ h hs s rfl
  · rintro _ hl s rfl
    exact start (pc_of_starts hl)
  · rintro i x r l r' _ rs ih hl s' rfl
    cases l <;> simp only [program, Call.step, Option.map_eq_some_iff, Prod.mk.injEq] at hl
    case send s =>
      obtain ⟨⟨_, _⟩, hp, rfl, hs'⟩ := hl
      obtain rfl := Call.send.inj hs'
      exact step (ih s rfl) hp
    all_goals simp at hl

theorem Send.fates (h : ((program α).system Init).Reachable c)
    (hs : c.calls[i]? = some (.send s)) : s.Fates (c.recordsOf i) := by
  refine local_invariant (J := Fates) (fun {s} hp => ⟨?_, ?_⟩) (fun hf hp => hf.step hp) h hs
  · simp [visits, stores, refusals, RouterIPC.errors, pending, hp]
  · simp [RouterIPC.errors, errorCount, hp]

end

-- The pipe that a call has just stored a pointer in, and that pointer.
def Call.stored (l : Call α) : Option (ℕ × Option α) :=
  match l.handle, l.inner.bind PipeIPC.Call.op with
  | some k, some (.enq ptr) => some (k, ptr)
  | _, _                    => none

theorem Call.stored_eq_some {q : ℕ × Option α} : l.stored = some q ↔
    l.handle = some q.1 ∧ ∃ b, l.inner = some b ∧ b.op = some (.enq q.2) := by
  rw [← Option.bind_eq_some_iff]
  obtain ⟨k, ptr⟩ := q
  simp only [stored]
  split <;> simp_all

theorem Call.stored_send {q : ℕ × Option α} : (Call.send s).stored = some q ↔
    ∃ i n c, s.pc = .sending i n q.1 c ∧ c.pc = .posting ∧ c.ptr = q.2 := by
  rw [stored_eq_some]
  cases hp : s.pc <;> simp [handle, inner, PipeIPC.Call.op, hp]

-- The order in which the calls to `Send` have taken the mutex, each with its pointer.
def order (rs : Records α) : List (ℕ × Option α) :=
  rs.filterMap fun t => (t.pre.2.send?.filter fun s => (Call.send s).starts).map fun s => (t.call, s.ptr)

-- The pointers that have been stored in a pipe, each with the call that has stored it.
def storedIn (k : ℕ) (rs : Records α) : List (ℕ × Option α) :=
  rs.filterMap fun t => (t.post.2.stored.filter fun q => q.1 = k).map fun q => (t.call, q.2)

theorem order_concat : order (rs ++ [t]) = order rs ++
    ((t.pre.2.send?.filter fun s => (Call.send s).starts).map fun s => (t.call, s.ptr)).toList := by
  rw [order, List.filterMap_append]
  congr 1

theorem storedIn_concat : storedIn k (rs ++ [t]) = storedIn k rs ++
    ((t.post.2.stored.filter fun q => q.1 = k).map fun q => (t.call, q.2)).toList := by
  rw [storedIn, List.filterMap_append]
  congr 1

-- A `Send` only ever stores its own pointer.
structure Send.Carries (s : Send α) (rs : Records α) : Prop where
  inner  : ∀ i n k c, s.pc = .sending i n k c → c.ptr = s.ptr
  stored : ∀ t ∈ rs, ∀ q, t.post.2.stored = some q → q.2 = s.ptr

theorem Send.carries_step (hi : ∀ i n k c, s.pc = .sending i n k c → c.ptr = s.ptr)
    (h : s.step b r = some (r', s')) :
    s'.ptr = s.ptr ∧ ∀ i n k c, s'.pc = .sending i n k c → c.ptr = s'.ptr := by
  obtain ⟨ptr, mode, t, pc⟩ := s
  cases pc <;> simp only [step, reduceCtorEq] at h
  case entered =>
    simp only [Option.ite_none_left_eq_some, Option.some.injEq, Prod.mk.injEq] at h
    obtain ⟨_, rfl, rfl⟩ := h
    exact ⟨rfl, by simp⟩
  case sweeping =>
    split at h
    case isFalse =>
      obtain ⟨rfl, rfl⟩ := Prod.mk.inj (Option.some.inj h)
      exact ⟨rfl, by simp⟩
    case isTrue =>
      obtain ⟨k, _, h⟩ := Option.map_eq_some_iff.mp h
      split at h <;> obtain ⟨rfl, rfl⟩ := Prod.mk.inj h
      case h_1 => exact ⟨rfl, by simp⟩
      case h_2 =>
        refine ⟨rfl, ?_⟩
        simp only [Pc.sending.injEq]
        rintro _ _ _ _ ⟨rfl, rfl, rfl, rfl⟩
        rfl
  case sending j n k c =>
    have hc := hi j n k c rfl
    split at h
    case h_1 =>
      obtain ⟨rfl, rfl⟩ := Prod.mk.inj (Option.some.inj h)
      exact ⟨rfl, by simp⟩
    case h_2 =>
      obtain ⟨e, p, c', _, hst, rfl, rfl⟩ := through_eq_some h
      refine ⟨rfl, ?_⟩
      simp only [Pc.sending.injEq]
      rintro _ _ _ _ ⟨rfl, rfl, rfl, rfl⟩
      exact (PipeIPC.Send.step_ptr hst).trans hc

theorem Send.carries {Init : RouterIPC α → Prop} (h : ((program α).system Init).Reachable c)
    (hs : c.calls[i]? = some (.send s)) : s.Carries (c.recordsOf i) := by
  refine local_invariant (J := Carries) (fun hp => ⟨by simp [hp], by simp⟩) ?_ h hs
  intro i b r s r' s' rs hc hp
  obtain ⟨he, hi⟩ := carries_step hc.inner hp
  refine ⟨hi, fun t ht q hq => ?_⟩
  obtain ht | ht := List.mem_append.mp ht
  · exact (hc.stored t ht q hq).trans he.symm
  · rw [List.mem_singleton.mp ht] at hq
    obtain ⟨i, n, c, hpc, _, hq⟩ := Call.stored_send.mp hq
    exact hq.symm.trans (hi i n q.1 c hpc)

theorem Send.stored_eq_some : s.stored = some k ↔ ∃ ptr, (Call.send s).stored = some (k, ptr) := by
  simp only [Call.stored_send]
  cases hp : s.pc <;> simp [stored, hp, and_comm]

theorem Call.eq_send (h : l.send? = some s) : l = .send s := by
  cases l <;> simp_all [send?]

-- Only a `Send` stores.
theorem Call.send_of_stored {q : ℕ × Option α} (hl : l.quiet) (h : l.stored = some q) :
    ∃ s, l = .send s := by
  obtain ⟨-, b, hb, ho⟩ := stored_eq_some.mp h
  cases l
  case send s         => exact ⟨s, rfl⟩
  case receiver s     =>
    cases s <;> simp only [inner, Option.some.injEq, reduceCtorEq] at hb
    exact absurd ho (PipeIPC.Call.op_ne_enq (hb ▸ hl))
  case shutdown       => simp [quiet] at hl
  case numReceivers   => simp [inner] at hb

theorem Send.storing_of_step {q : ℕ × Option α} (h : s.step b r = some (r', s'))
    (hq : (Call.send s').stored = some q) :
    ∃ i n c, s.pc = .sending i n q.1 c ∧ settled c = 0 := by
  obtain ⟨i', n', c', hp', hc', _⟩ := Call.stored_send.mp hq
  obtain ⟨ptr, mode, t, pc⟩ := s
  cases pc <;> simp only [step, reduceCtorEq] at h
  case entered =>
    simp only [Option.ite_none_left_eq_some, Option.some.injEq, Prod.mk.injEq] at h
    obtain ⟨_, _, rfl⟩ := h
    simp at hp'
  case sweeping =>
    split at h
    case isFalse =>
      obtain ⟨_, rfl⟩ := Prod.mk.inj (Option.some.inj h)
      simp at hp'
    case isTrue =>
      obtain ⟨k, _, h⟩ := Option.map_eq_some_iff.mp h
      split at h <;> obtain ⟨_, rfl⟩ := Prod.mk.inj h
      case h_1 => simp at hp'
      case h_2 =>
        obtain ⟨_, _, _, rfl⟩ := Pc.sending.inj hp'
        simp [args] at hc'
  case sending j n k c =>
    split at h
    case h_1 =>
      obtain ⟨_, rfl⟩ := Prod.mk.inj (Option.some.inj h)
      simp at hp'
    case h_2 =>
      obtain ⟨_, _, _, _, hst, _, rfl⟩ := through_eq_some h
      obtain ⟨rfl, rfl, rfl, rfl⟩ := Pc.sending.inj hp'
      refine ⟨_, _, c, rfl, ?_⟩
      obtain ⟨hc, _⟩ | ⟨hc, _⟩ | ⟨_, hc⟩ | ⟨hc, _⟩ := (settled_cases hst).right
      · simp [settled, hc]
      · simp [settled, hc]
      · simp [hc'] at hc
      · exact hc

theorem mem_stores_of_storedIn {ptr : Option α} (hq : ∀ t ∈ c.history, t.post.2.quiet)
    (h : (i, ptr) ∈ storedIn k c.history) : k ∈ stores (c.recordsOf i) := by
  obtain ⟨t, ht, h⟩ := List.mem_filterMap.mp h
  simp only [Option.map_eq_some_iff, Option.filter_eq_some_iff, decide_eq_true_eq,
    Prod.mk.injEq] at h
  obtain ⟨q, ⟨hs, rfl⟩, rfl, rfl⟩ := h
  obtain ⟨s, hl⟩ := Call.send_of_stored (hq t ht) hs
  refine List.mem_filterMap.mpr ⟨t, List.mem_filter.mpr ⟨ht, by simp⟩, ?_⟩
  rw [hl] at hs ⊢
  exact Send.stored_eq_some.mpr ⟨q.2, hs⟩

theorem mem_storedIn_of_stores (hc : s.Carries (c.recordsOf i)) (h : k ∈ stores (c.recordsOf i)) :
    (i, s.ptr) ∈ storedIn k c.history := by
  obtain ⟨t, ht, h⟩ := List.mem_filterMap.mp h
  obtain ⟨s', hs', hk⟩ := Option.bind_eq_some_iff.mp h
  obtain ⟨hm, hi⟩ := List.mem_filter.mp ht
  obtain ⟨ptr, hq⟩ := Send.stored_eq_some.mp hk
  rw [← Call.eq_send hs'] at hq
  obtain rfl := hc.stored t ht _ hq
  refine List.mem_filterMap.mpr ⟨t, hm, ?_⟩
  simpa [hq] using hi

-- The pointer has not been stored in the pipe that it is about to be stored in.
theorem not_mem_stores (h : ((program α).system WellFormed).Reachable c) {p : PipeIPC.Send α}
    (hs : c.calls[i]? = some (.send s)) (hp : s.pc = .sending j n k p) (hn : settled p = 0) :
    k ∉ stores (c.recordsOf i) := by
  have hsw := swept h hs
  simp only [Send.Swept, hp, hn, add_zero] at hsw
  obtain ⟨hk, _, ht⟩ := hsw
  intro hm
  have hmem := ht.sublist.subset hm
  obtain ⟨j', hj', he⟩ := List.mem_take_iff_getElem.mp hmem
  obtain ⟨hj, hk⟩ := List.getElem?_eq_some_iff.mp hk
  have := (registered h).nodup.getElem_inj_iff.mp (he.trans hk.symm)
  omega

-- While a `Send` has the mutex, it is the last one in the order.
structure Ordered (c : Config α) : Prop where
  last    : ∀ {i s}, c.calls[i]? = some (.send s) → (Call.send s).holds →
    (order c.history).getLast? = some (i, s.ptr)
  nodup   : ((order c.history).map Prod.fst).Nodup
  sublist : ∀ k, (storedIn k c.history).Sublist (order c.history)

theorem Send.holds_of_step (h : s.step b r = some (r', s')) (hp : s.pc ≠ .entered) :
    (Call.send s).holds := by
  cases hs : s.pc <;> simp_all [Call.holds, step]

theorem Send.entered_step (h : s.step b r = some (r', s')) (hp : s.pc = .entered) :
    r.mutex = false ∧ s' = { s with pc := .sweeping 0 0 } := by
  simp only [step, hp, Option.ite_none_left_eq_some, Option.some.injEq, Prod.mk.injEq] at h
  exact ⟨by simpa using h.left, h.right.right.symm⟩

theorem not_mem_order (h : c.recordsOf i = []) : i ∉ (order c.history).map Prod.fst := by
  intro hm
  obtain ⟨q, hq, rfl⟩ := List.mem_map.mp hm
  obtain ⟨t, ht, hs⟩ := List.mem_filterMap.mp hq
  obtain ⟨s, _, rfl⟩ := Option.map_eq_some_iff.mp hs
  have : t ∈ c.recordsOf t.call := List.mem_filter.mpr ⟨ht, by simp⟩
  simp [h] at this

theorem sublist_of_not_mem {β : Type*} {l init : List β} {a : β} (h : l.Sublist (init ++ [a]))
    (ha : a ∉ l) : l.Sublist init := by
  obtain ⟨l₁, l₂, rfl, h₁, h₂⟩ := List.sublist_append_iff.mp h
  obtain rfl | rfl := List.sublist_singleton.mp h₂
  · simpa using h₁
  · simp at ha

namespace Ordered

-- A step that neither takes the mutex for a `Send` nor stores anything.
theorem quiet (h : Ordered c) (hs : ∀ s, l' = .send s → (Call.send s).holds →
      (order c.history).getLast? = some (i, s.ptr))
    (ho : (l.send?.filter fun s => (Call.send s).starts) = none) (hn : l'.stored = none) :
    Ordered (c.after i l r' l') := by
  have he : order (c.after i l r' l').history = order c.history := by
    simp [order_concat, ho]
  refine ⟨fun hj hh => ?_, he ▸ h.nodup, fun k => ?_⟩
  · rw [he]
    obtain ⟨rfl, hl⟩ | ⟨_, hj⟩ := Program.Config.after_calls_get? hj
    · exact hs _ hl.symm hh
    · exact h.last hj hh
  · rw [he, Program.Config.after_history, storedIn_concat]
    simpa [hn] using h.sublist k

theorem acquire (h : Ordered c) (hr : c.recordsOf i = [])
    (hf : ∀ {j s}, j ≠ i → c.calls[j]? = some (.send s) → (Call.send s).holds = false)
    (hs : (Call.send s).starts) (hn : (Call.send s').stored = none) (hp : s'.ptr = s.ptr) :
    Ordered (c.after i (.send s) r' (.send s')) := by
  have he : order (c.after i (.send s) r' (.send s')).history = order c.history ++ [(i, s.ptr)] := by
    simp [order_concat, Call.send?, Option.filter, hs]
  refine ⟨fun hj hh => ?_, ?_, fun k => ?_⟩
  · rw [he, List.getLast?_concat]
    obtain ⟨rfl, hl⟩ | ⟨hne, hj⟩ := Program.Config.after_calls_get? hj
    · rw [Call.send.inj hl, hp]
    · simp [hf hne hj] at hh
  · rw [he, List.map_append]
    simpa using h.nodup.concat (not_mem_order hr)
  · rw [he, Program.Config.after_history, storedIn_concat]
    simpa [hn] using (h.sublist k).trans (List.sublist_append_left ..)

theorem store (h : Ordered c) {q : ℕ × Option α} (hl : c.calls[i]? = some (.send s))
    (hh : (Call.send s).holds) (hs : (Call.send s).starts = false)
    (hq : (Call.send s').stored = some q) (hv : q.2 = s.ptr) (hp : s'.ptr = s.ptr)
    (hn : (i, s.ptr) ∉ storedIn q.1 c.history) :
    Ordered (c.after i (.send s) r' (.send s')) := by
  have he : order (c.after i (.send s) r' (.send s')).history = order c.history := by
    simp [order_concat, Call.send?, Option.filter, hs]
  have hlast := h.last hl hh
  refine ⟨fun hj hh' => ?_, he ▸ h.nodup, fun k => ?_⟩
  · rw [he]
    obtain ⟨rfl, hl'⟩ | ⟨_, hj⟩ := Program.Config.after_calls_get? hj
    · rw [hlast, Call.send.inj hl', hp]
    · exact h.last hj hh'
  · rw [he, Program.Config.after_history, storedIn_concat]
    by_cases hk : q.1 = k
    case neg => simpa [hq, Option.filter, hk] using h.sublist k
    case pos =>
      subst hk
      obtain ⟨init, hi⟩ := List.getLast?_eq_some_iff.mp hlast
      have hsub := h.sublist q.1
      rw [hi] at hsub ⊢
      simpa [hq, Option.filter, hv] using (sublist_of_not_mem hsub hn).append_right [(i, s.ptr)]

end Ordered

theorem Call.send?_step (h : (program α).step x r l = some (r', l')) (hl : l.send? = none) :
    l'.send? = none := by
  cases l <;> simp only [program, step, send?, reduceCtorEq] at h hl
  all_goals
    obtain ⟨_, _, h⟩ := Option.map_eq_some_iff.mp h
    exact (Prod.mk.inj h).right ▸ rfl

theorem Ordered.send (h : Ordered c) (hr : (receiving α).Reachable c)
    (hl : c.calls[i]? = some (.send s)) (hs : s.step b c.shared = some (r', s')) :
    Ordered (c.after i (.send s) r' (.send s')) := by
  have hw := wellFormed_of_receiving hr
  have hm {r : RouterIPC α} (h : WellFormed r) : (mutexProtocol α).locked r = false := h.mutex
  obtain ⟨hptr, hin⟩ := Send.carries_step (Send.carries hw hl).inner hs
  by_cases he : s.pc = .entered
  case pos =>
    obtain ⟨hf, rfl⟩ := Send.entered_step hs he
    have hsw := swept hw hl
    simp only [Send.Swept, he] at hsw
    refine h.acquire hsw (fun {_ s'} _ hj => ?_) (by simp [Call.starts, he]) rfl rfl
    by_contra hh
    have hlocked : c.shared.mutex = true :=
      (mutexProtocol α).locked_of_holds hm hw hj (Bool.eq_true_of_not_eq_false hh)
    simp [hf] at hlocked
  case neg =>
    have hh := Send.holds_of_step hs he
    have hst : (Call.send s).starts = false :=
      Bool.eq_false_of_not_eq_true fun ht => he (Send.pc_of_starts ht)
    cases hq : (Call.send s').stored
    case none =>
      refine h.quiet (fun s₁ hs₁ _ => ?_) (by simp [Call.send?, Option.filter, hst]) hq
      rw [← Call.send.inj hs₁, hptr]
      exact h.last hl hh
    case some q =>
      obtain ⟨j, n, p, hp, hn⟩ := Send.storing_of_step hs hq
      refine h.store hl hh hst hq ?_ hptr fun hmem => ?_
      · obtain ⟨i', n', p', hp', _, hv⟩ := Call.stored_send.mp hq
        exact hv.symm.trans ((hin i' n' q.1 p' hp').trans hptr)
      · exact not_mem_stores hw hl hp hn (mem_stores_of_storedIn (unshut hr).history hmem)

theorem ordered (h : (receiving α).Reachable c) : Ordered c := by
  refine Program.invariant_restrict (I := Ordered) ?_ ?_ ?_ |>.holds h
  · rintro _ rfl
    exact ⟨by simp, .nil, by simp [storedIn, order]⟩
  · intro c l hr h hq hs
    refine ⟨fun hj hh => ?_, h.nodup, h.sublist⟩
    obtain hj | ⟨_, rfl⟩ := Program.Config.enter_calls_get? hj
    · exact h.last hj hh
    · exact absurd hh <| Bool.eq_false_iff.mp (Call.holds_of_starts hs)
  · intro c i x l r' l' hr h hq hl hs
    cases hsend : l.send?
    case none =>
      have hsend' := Call.send?_step hs hsend
      refine h.quiet (fun s he _ => ?_) (by simp [hsend]) ?_
      · simp [he, Call.send?] at hsend'
      · by_contra hn
        obtain ⟨q, hq'⟩ := Option.ne_none_iff_exists'.mp hn
        have hc := Call.quiet_step ((unshut hr).calls l (List.mem_of_getElem? hl)) hq hs
        obtain ⟨s, he⟩ := Call.send_of_stored hc hq'
        simp [he, Call.send?] at hsend'
    case some s =>
      obtain rfl := Call.eq_send hsend
      simp only [program, Call.step, Option.map_eq_some_iff, Prod.mk.injEq] at hs
      obtain ⟨⟨_, s'⟩, hs, rfl, rfl⟩ := hs
      exact h.send hr hl hs

-- The pipe that a `Send` finds to be dead, and removes from the vector.
def Send.dead (r : RouterIPC α) (s : Send α) : Option ℕ :=
  match s.pc with
  | .sweeping i _ =>
    if i < SizeT.toInt r.pipes.length then r.pipes[i]?.filter (!r.alive ·) else none
  | _             => none

def burials (rs : Records α) : List ℕ :=
  rs.filterMap fun t => t.pre.2.send?.bind (Send.dead t.pre.1)

-- The steps of all calls up to the last one of the given call.
def upTo (i : ℕ) (rs : Records α) : Records α :=
  rs.rdropWhile (·.call ≠ i)

theorem burials_concat :
    burials (rs ++ [t]) = burials rs ++ (t.pre.2.send?.bind (Send.dead t.pre.1)).toList := by
  rw [burials, List.filterMap_append]
  congr 1

theorem Send.pipes_step (h : s.step b r = some (r', s')) (hk : k ∈ r.pipes) :
    k ∈ r'.pipes ∨ s.dead r = some k := by
  obtain ⟨ptr, mode, t, pc⟩ := s
  cases pc <;> simp only [step, reduceCtorEq] at h
  case entered =>
    simp only [Option.ite_none_left_eq_some, Option.some.injEq, Prod.mk.injEq] at h
    obtain ⟨_, rfl, rfl⟩ := h
    exact .inl hk
  case sweeping i n =>
    split at h
    case isFalse =>
      obtain ⟨rfl, rfl⟩ := Prod.mk.inj (Option.some.inj h)
      exact .inl hk
    case isTrue hlt =>
      obtain ⟨k', hk', h⟩ := Option.map_eq_some_iff.mp h
      split at h <;> obtain ⟨rfl, rfl⟩ := Prod.mk.inj h
      case h_2 => exact .inl ((Same.lock ‹r.lock k' = _›).pipes ▸ hk)
      case h_1 =>
        have hd := lock_eq_none.mp ‹r.lock k' = _›
        obtain ⟨hi, he⟩ := List.getElem?_eq_some_iff.mp hk'
        by_cases hkk : k = k'
        case pos => exact .inr (by simp [dead, hlt, hk', Option.filter, hd, hkk])
        case neg =>
          refine .inl <| (swapPop_perm hi).mem_iff.mpr ?_
          have := List.mem_cons.mp <| (List.getElem_cons_eraseIdx_perm hi).mem_iff.mpr hk
          exact this.resolve_left (he ▸ hkk)
  case sending j n k c =>
    split at h
    case h_1 =>
      obtain ⟨rfl, rfl⟩ := Prod.mk.inj (Option.some.inj h)
      exact .inl hk
    case h_2 =>
      obtain ⟨_, _, _, _, _, rfl, rfl⟩ := through_eq_some h
      exact .inl hk

theorem NumReceivers.pipes_step {s s' : NumReceivers} (h : s.step r = some (r', s')) :
    r'.pipes = r.pipes := by
  cases s <;> simp only [step, reduceCtorEq] at h
  case entered =>
    simp only [Option.ite_none_left_eq_some, Option.some.injEq, Prod.mk.injEq] at h
    exact h.right.left ▸ rfl
  case sweeping =>
    split at h
    case h_1 => exact (Prod.mk.inj (Option.some.inj h)).left ▸ rfl
    case h_2 =>
      split at h <;> obtain ⟨rfl, rfl⟩ := Prod.mk.inj (Option.some.inj h)
      case h_1    => rfl
      case h_2 hl => exact (Same.lock hl).pipes
  case counting => exact (Prod.mk.inj (Option.some.inj h)).left ▸ rfl

-- A pipe stays in the vector until a `Send` finds it to be dead.
theorem pipes_step (hl : l.quiet) (h : (program α).step x r l = some (r', l')) (hk : k ∈ r.pipes) :
    k ∈ r'.pipes ∨ l.send?.bind (Send.dead r) = some k := by
  cases Call.steps h
  case send hs         => exact Send.pipes_step hs hk
  case shutdown        => simp [Call.quiet] at hl
  case numReceivers hs => exact .inl <| NumReceivers.pipes_step hs ▸ hk
  case receiver hs     =>
    refine .inl ?_
    cases Receiver.effect hs
    case quiet s _ _         => exact s.pipes ▸ hk
    case acquire hr          => exact hr ▸ hk
    case letGo hh _ _ _      => simp [Call.holds] at hh
    case swapPop hh _ _      => simp [Call.holds] at hh
    case construct hr _      => exact hr ▸ hk
    case push hr _ _         => exact hr ▸ List.mem_append_left _ hk

-- A pipe that was registered before the call with index `m` was made. Each call since has had it in the
-- vector in its last step, unless the pipe was found to be dead before.
structure Kept (k m : ℕ) (c : Config α) : Prop where
  pipes : k ∈ c.shared.pipes ∨ k ∈ burials c.history
  last  : ∀ i t, m ≤ i → (c.recordsOf i).getLast? = some t →
    k ∈ t.pre.1.pipes ∨ k ∈ burials (upTo i c.history)

theorem Kept.after {m : ℕ} (h : Kept k m c) (hl : l.quiet)
    (hs : (program α).step x c.shared l = some (r', l')) : Kept k m (c.after i l r' l') where
  pipes := by
    rw [Program.Config.after_history, burials_concat, List.mem_append]
    obtain hk | hk := h.pipes
    case inr => exact .inr (.inl hk)
    case inl =>
      obtain hk | hk := pipes_step hl hs hk
      · exact .inl hk
      · exact .inr (.inr (by simp [hk]))
  last j t hj ht := by
    by_cases he : j = i
    case pos =>
      subst he
      rw [Program.Config.recordsOf_after_self, List.getLast?_concat] at ht
      obtain rfl := Option.some.inj ht
      rw [Program.Config.after_history, upTo, List.rdropWhile_concat_neg _ _ _ (by simp),
        burials_concat, List.mem_append]
      exact h.pipes.imp_right .inl
    case neg =>
      rw [Program.Config.recordsOf_after_ne he] at ht
      rw [Program.Config.after_history, upTo,
        List.rdropWhile_concat_pos _ _ _ (by simpa using Ne.symm he)]
      exact h.last j t hj ht

theorem kept {as : List (Program.Action (Call α) (Choice α))} (h : (receiving α).Reachable c₁)
    (hr : (receiving α).Run c₁ as c₂) (hk : k ∈ c₁.shared.pipes) : Kept k c₁.calls.length c₂ := by
  refine hr.preserves (I := Kept k c₁.calls.length) h (fun {c a c'} hr hi hs => ?_) ?_
  · obtain ⟨l, rfl, _, rfl⟩ | ⟨i, x, l, r', l', rfl, hl, hp, rfl⟩ := Program.next_cases hs.right
    · exact ⟨hi.pipes, hi.last⟩
    · exact hi.after ((unshut hr).calls l (List.mem_of_getElem? hl)) hp
  · refine ⟨.inl hk, fun i t hi ht => ?_⟩
    rw [Program.recordsOf_eq_nil_of_length_le (wellFormed_of_receiving h) i hi] at ht
    simp at ht

-- The fate of the pointer in a pipe that is in the vector when a `Send` is about to return.
theorem Send.fate_of_returned (h : (receiving α).Reachable c) (hs : c.calls[i]? = some (.send s))
    (hr : s.pc = .returned n) :
    (errors (c.recordsOf i)).length = n ∧ (errors (c.recordsOf i)).Nodup ∧
    ∃ t ∈ (c.recordsOf i).getLast?, t.pre.1.pipes.length < 2 ^ 31 → ∀ k ∈ t.pre.1.pipes,
      (i, s.ptr) ∈ storedIn k c.history ∨ k ∈ errors (c.recordsOf i) := by
  have hw := wellFormed_of_receiving h
  have hf := fates hw hs
  have hsw := swept hw hs
  simp only [Swept, hr] at hsw
  obtain ⟨t, ht, hnod, hlen, hv, _⟩ := hsw
  have hcount k := hf.count k
  simp only [refusals_eq_nil h, pending, hr, List.count_nil, Option.toList_none, add_zero] at hcount
  have hnv : (visits (c.recordsOf i)).Nodup := hv ▸ hnod.sublist (List.take_sublist ..)
  refine ⟨by simpa [errorCount, hr] using hf.errors, ?_, t, ht, fun hlt k hk => ?_⟩
  · refine List.nodup_iff_count_le_one.mpr fun k => ?_
    have := List.nodup_iff_count_le_one.mp hnv k
    have := hcount k
    omega
  · rw [SizeT.toInt_of_lt hlt] at hlen
    rw [List.take_of_length_le (Int.ofNat_le.mp hlen)] at hv
    have hpos := List.count_pos_iff.mpr (hv.symm ▸ hk)
    rw [hcount k] at hpos
    by_cases hst : k ∈ stores (c.recordsOf i)
    case pos => exact .inl (mem_storedIn_of_stores (carries hw hs) hst)
    case neg =>
      rw [List.count_eq_zero_of_not_mem hst, zero_add] at hpos
      exact .inr (List.count_pos_iff.mp hpos)

-- The calls to `Send` are totally ordered, and each pipe gets its pointers in that order. A pointer whose
-- `Send` began when a pipe was already registered is only missing from that pipe if the `Send` has counted
-- an error for it, or if it was found to be dead by the time that the `Send` returned.
theorem send_ordered {as : List (Program.Action (Call α) (Choice α))}
    (h : (receiving α).Reachable c₁) (hr : (receiving α).Run c₁ as c₂) :
    ((order c₂.history).map Prod.fst).Nodup ∧
    (∀ k, (storedIn k c₂.history).Sublist (order c₂.history)) ∧
    ∀ {k i s n}, k ∈ c₁.shared.pipes → c₁.calls.length ≤ i → c₂.calls[i]? = some (.send s) →
      s.pc = .returned n →
        (errors (c₂.recordsOf i)).length = n ∧ (errors (c₂.recordsOf i)).Nodup ∧
        ∃ t ∈ (c₂.recordsOf i).getLast?, t.pre.1.pipes.length < 2 ^ 31 →
          (i, s.ptr) ∈ storedIn k c₂.history ∨ k ∈ errors (c₂.recordsOf i) ∨
            k ∈ burials (upTo i c₂.history) := by
  have h₂ := hr.reachable h
  refine ⟨(ordered h₂).nodup, (ordered h₂).sublist, fun {k i s n} hk hi hs hp => ?_⟩
  obtain ⟨hn, hnod, t, ht, hf⟩ := Send.fate_of_returned h₂ hs hp
  refine ⟨hn, hnod, t, ht, fun hlt => ?_⟩
  obtain hm | hm := (kept h hr hk).last i t hi ht
  · exact (hf hlt k hm).imp_right .inl
  · exact .inr (.inr hm)

theorem send_ordered_run : ∃ c : Config ℕ,
    c.calls[1]? = some (.send { ptr := some 7, pc := .returned 0 }) ∧
    (1, some 7) ∈ storedIn 0 c.history ∧ (storedIn 0 c.history).Sublist (order c.history) := by
  obtain ⟨c₁, h, hk, hl, hc⟩ : ∃ c₁ : Config ℕ, (receiving ℕ).Reachable c₁ ∧ 0 ∈ c₁.shared.pipes ∧
      c₁.calls.length ≤ 1 ∧ Option.any (fun c => c.calls[1]? = some
          (.send { ptr := some 7, pc := .returned 0 }) ∧ burials (upTo 1 c.history) = [] ∧
          ∀ t ∈ (c.recordsOf 1).getLast?, t.pre.1.pipes.length < 2 ^ 31)
        (System.exec (program ℕ).next (fun _ a => Quiet a) c₁ [
          .enter (.send { ptr := some 7 }), .run 1 {}, .run 1 {}, .run 1 {}, .run 1 {}, .run 1 {},
          .run 1 {}, .run 1 {}, .run 1 {}, .run 1 {}]) :=
    Program.exec_reachable (s := new) rfl <| show Option.any _ (System.exec _ _ _ [
      .enter (.receiver (.registering 1)), .run 0 {}, .run 0 {}]) by decide +kernel
  obtain ⟨c₂, he, hq⟩ := (Option.any_eq_true ..).mp hc
  obtain ⟨hs, hb, hlt⟩ := of_decide_eq_true hq
  obtain ⟨_, hsub, hf⟩ := send_ordered h (System.exec_run he)
  obtain ⟨hn, _, t, ht, hf⟩ := hf hk hl hs rfl
  refine ⟨c₂, hs, ?_, hsub 0⟩
  simpa [List.length_eq_zero_iff.mp hn, hb] using hf (hlt t ht)

-- A pipe that dies between the beginning of a `Send` and its turn is not counted as an error.
theorem send_misses_dying : ∃ (c₁ c₂ : Config ℕ) (as : _), (receiving ℕ).Reachable c₁ ∧
    (receiving ℕ).Run c₁ as c₂ ∧ 1 ∈ c₁.shared.pipes ∧ c₁.shared.alive 1 ∧ c₁.calls.length = 2 ∧
    c₂.calls[2]? = some (.send { ptr := some 7, pc := .returned 0 }) ∧
    errors (c₂.recordsOf 2) = [] ∧ storedIn 0 c₂.history = [(2, some 7)] ∧
    storedIn 1 c₂.history = [] := by
  obtain ⟨c₁, h, hk, ha, hl, hc⟩ : ∃ c₁ : Config ℕ, (receiving ℕ).Reachable c₁ ∧
      1 ∈ c₁.shared.pipes ∧ c₁.shared.alive 1 ∧ c₁.calls.length = 2 ∧ Option.any (fun c =>
          c.calls[2]? = some (.send { ptr := some 7, pc := .returned 0 }) ∧
          errors (c.recordsOf 2) = [] ∧ storedIn 0 c.history = [(2, some 7)] ∧
          storedIn 1 c.history = [])
        (System.exec (program ℕ).next (fun _ a => Quiet a) c₁ [
          .enter (.send { ptr := some 7 }), .run 2 {}, .run 2 {}, .run 1 {}, .run 2 {}, .run 2 {},
          .run 2 {}, .run 2 {}, .run 2 {}, .run 2 {}, .run 2 {}, .run 2 {}]) :=
    Program.exec_reachable (s := new) rfl <| show Option.any _ (System.exec _ _ _ [
      .enter (.receiver (.registering 1)), .run 0 {}, .run 0 {},
      .enter (.receiver (.registering 1)), .run 1 {}, .run 1 {}]) by decide +kernel
  obtain ⟨c₂, he, hq⟩ := (Option.any_eq_true ..).mp hc
  exact ⟨c₁, c₂, _, h, System.exec_run he, hk, ha, hl, of_decide_eq_true hq⟩

end RouterIPC
