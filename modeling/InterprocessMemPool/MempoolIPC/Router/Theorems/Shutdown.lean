import InterprocessMemPool.MempoolIPC.Pipe.Theorems.Tokens
import InterprocessMemPool.MempoolIPC.Router.Theorems.Holders
import InterprocessMemPool.MempoolIPC.Router.Theorems.Next

namespace RouterIPC

variable {α : Type*} {r r' : RouterIPC α} {c : Config α} {l l' : Call α} {x : Choice α} {i j k : ℕ}

-- Two calls with a strong pointer to a pipe.
theorem two_le_strong (h : ((program α).system (· = new)).Reachable c) (hi : c.calls[i]? = some l)
    (hj : c.calls[j]? = some l') (hne : i ≠ j) (hk : l.handle = some k) (hk' : l'.handle = some k) :
    2 ≤ c.shared.strong k := by
  have := Program.Config.add_le_total (w := (·.holding k)) hi hj hne
  have := total_holding_eq h k
  simp only [Call.holding, hk, hk', if_true] at *
  omega

def pipe (r : RouterIPC α) (k : ℕ) : Option (PipeIPC α) :=
  r.segment[k]?.map (·.pipe)

section

variable {p : PipeIPC α}

theorem pipe_lock (h : r.lock k = some r') : r'.pipe j = r.pipe j := by
  simp only [lock, Option.ite_none_right_eq_some, Option.some.injEq] at h
  obtain ⟨_, rfl⟩ := h
  simp only [pipe, modify, List.getElem?_modify]
  cases r.segment[j]? <;> split <;> rfl

theorem pipe_release (h : k = j → 2 ≤ r.strong j) : (r.release k).pipe j = r.pipe j := by
  simp only [pipe, release, modify, List.getElem?_modify, strong] at h ⊢
  cases he : r.segment[j]? <;> split <;> simp_all [PipeIPC.Counted.release]
  omega

theorem pipe_within (h : k ≠ j) : (r.modify k fun e => { e with pipe := p }).pipe j = r.pipe j := by
  simp [pipe, modify, h]

theorem pipe_construct (h : 0 < r.strong j) :
    ({ r with segment := r.segment ++ [⟨p, 1⟩] } : RouterIPC α).pipe j = r.pipe j := by
  have hj : j < r.segment.length := by
    by_contra hj
    simp [strong, List.getElem?_eq_none (not_lt.mp hj)] at h
  simp [pipe, List.getElem?_append_left hj]

end

-- There is no free slot in the pipe.
def full (r : RouterIPC α) (k : ℕ) : Bool :=
  (r.pipe k).any fun p => p.nempty = 0

-- A `Send` without a timeout has still to wait for a free slot in the pipe.
def Call.queues (l : Call α) (r : RouterIPC α) (k : ℕ) : Bool :=
  match l with
  | .send s =>
    match s.pc with
    | .sending _ _ j d => j = k ∧ d.wait = .wait ∧
        (d.pc = .waiting ∨ d.pc = .entered ∧ (r.pipe k).any (!·.shutdown))
    | _                => false
  | _       => false

-- And there is none.
def Call.awaits (l : Call α) (r : RouterIPC α) (k : ℕ) : Bool :=
  l.queues r k && r.full k

theorem Call.awaits_iff : l.awaits r k ↔ l.queues r k ∧ r.full k :=
  Bool.and_eq_true_iff

theorem Call.awaits_congr (h : r'.pipe k = r.pipe k) : l.awaits r' k = l.awaits r k := by
  simp only [awaits, queues, full, h]

theorem Call.handle_of_queues (h : l.queues r k) : l.handle = some k := by
  cases l <;> simp only [queues, Bool.false_eq_true] at h
  case send s => cases hp : s.pc <;> simp_all [handle]

theorem Call.holds_of_queues (h : l.queues r k) : l.holds := by
  cases l <;> simp only [queues, Bool.false_eq_true] at h
  case send s => cases hp : s.pc <;> simp_all [holds]

-- A receiver of the pipe is in a `Receive`, or in the loop of a consumer.
def Call.receivesFrom (l : Call α) (k : ℕ) : Bool :=
  match l with
  | .receiver (.calling j b) => j = k && b.receives
  | _                        => false

-- The full pipe that a `Send` without a timeout turns to.
def Call.turnsTo (l : Call α) (r : RouterIPC α) : Option ℕ :=
  match l with
  | .send s =>
    match s.pc with
    | .sweeping m _ =>
      if s.args.wait = .wait then
        r.pipes[m]?.filter fun k => r.full k && (r.pipe k).any (!·.shutdown)
      else none
    | _             => none
  | _       => none

theorem Call.receivesFrom_of_turnsTo (h : l.turnsTo r = some k) : l.receivesFrom j = false := by
  cases l <;> simp_all [turnsTo, receivesFrom]

-- The pipe in which a receiver is done with a `Receive` that has left no free slot, or takes the last one for
-- a `Send` of its own.
def Call.leaves (l : Call α) (r : RouterIPC α) : Option ℕ :=
  match l with
  | .receiver (.calling k b) =>
    match b with
    | .send d => if d.pc = .waiting ∧ (r.pipe k).any (·.nempty = 1) then some k else none
    | _       => if b.receives ∧ b.returned ∧ r.full k then some k else none
  | _                        => none

def Received (calls : List (Call α)) (k : ℕ) : Prop :=
  ∃ l ∈ calls, l.receivesFrom k

instance {calls : List (Call α)} : Decidable (Received calls k) :=
  inferInstanceAs (Decidable (∃ l ∈ calls, l.receivesFrom k))

-- The next step of the call leaves no `Send` behind that waits for a slot of a pipe nobody receives from.
def Call.Serves (c : Config α) (i : ℕ) (l : Call α) : Prop :=
  (∀ k ∈ l.turnsTo c.shared, Received c.calls k) ∧
  ∀ k ∈ l.leaves c.shared, (∃ l ∈ c.calls, l.queues c.shared k) → Received (c.calls.eraseIdx i) k

instance : Decidable (Call.Serves c i l) :=
  inferInstanceAs (Decidable ((∀ k ∈ l.turnsTo c.shared, Received c.calls k) ∧ ∀ k ∈ l.leaves c.shared,
    (∃ l ∈ c.calls, l.queues c.shared k) → Received (c.calls.eraseIdx i) k))

-- From the call of a `Shutdown` until it has the mutex, a pipe is received from as long as a `Send` waits in it
-- for a free slot without a timeout.
def Served (c : Config α) : Program.Action (Call α) (Choice α) → Prop
  | .enter l => l = .shutdown .entered → ∀ l ∈ c.calls, ∀ k ∈ l.handle, l.awaits c.shared k → Received c.calls k
  | .run i _ => .shutdown .entered ∈ c.calls → ∀ l ∈ c.calls[i]?, l.Serves c i

instance [DecidableEq α] (a : Program.Action (Call α) (Choice α)) : Decidable (Served c a) :=
  match a with
  | .enter l => inferInstanceAs (Decidable (l = .shutdown .entered →
      ∀ l ∈ c.calls, ∀ k ∈ l.handle, l.awaits c.shared k → Received c.calls k))
  | .run i _ => inferInstanceAs (Decidable (.shutdown .entered ∈ c.calls → ∀ l ∈ c.calls[i]?, l.Serves c i))

-- A `Send` on a pipe that has still to wait afterwards had just entered.
theorem waiting_of_step {p p' : PipeIPC α} {d d' : PipeIPC.Send α} {b : Bool}
    (h : d.step b p = some (p', d')) (hd : d'.pc = .waiting ∨ d'.pc = .entered) :
    d.pc = .entered ∧ p.shutdown = false ∧ p' = p ∧ d'.wait = d.wait := by
  obtain ⟨ptr, mode, t, pc⟩ := d
  cases pc <;> simp only [PipeIPC.Send.step, Option.some.injEq, Prod.mk.injEq, reduceCtorEq] at h
  case entered =>
    obtain ⟨rfl, rfl⟩ := h
    cases hs : p.shutdown
    case false => exact ⟨rfl, rfl, rfl, rfl⟩
    case true  => simp [hs] at hd
  case waiting =>
    obtain ⟨_, _, h⟩ := Option.map_eq_some_iff.mp h
    simp [← (Prod.mk.inj h).right] at hd
  case checking ok =>
    rw [← h.right] at hd
    simp only at hd
    split at hd <;> simp at hd
  case storing =>
    split at h <;> simp [← (Prod.mk.inj (Option.some.inj h)).right] at hd
  all_goals simp [← h.right] at hd

theorem Send.awaits_of_next {s s' : Send α} {b : Bool} (h : Next b r s r' s')
    (ha : (Call.send s').awaits r' k) : (Call.send s).awaits r k ∨ (Call.send s).turnsTo r = some k := by
  cases h
  case take mode timeout i n j hi hj hl =>
    rw [Call.awaits_congr (pipe_lock hl)] at ha
    simp only [Call.awaits, Call.queues, Bool.and_eq_true, decide_eq_true_eq] at ha
    obtain ⟨⟨rfl, hw, hd⟩, hf⟩ := ha
    have hs : (r.pipe j).any (!·.shutdown) := by simpa using hd
    exact .inr (by simp [Call.turnsTo, args, hw, hj, hf, hs])
  case within i n j d e p d' _ he hs =>
    simp only [Call.awaits, Call.queues, Bool.and_eq_true, decide_eq_true_eq] at ha
    obtain ⟨⟨rfl, hw, hd⟩, hf⟩ := ha
    obtain ⟨hent, hsd, rfl, hw'⟩ := waiting_of_step hs (hd.imp_right And.left)
    have hn : e.pipe.nempty = 0 := by simpa [full, pipe, RouterIPC.modify, he] using hf
    refine .inl (Call.awaits_iff.mpr ⟨?_, ?_⟩)
    · simp [Call.queues, pipe, he, hent, hsd, ← hw', hw]
    · simp [full, pipe, he, hn]
  all_goals simp [Call.awaits, Call.queues] at ha

theorem awaits_of_step (h : (program α).step x r l = some (r', l')) (ha : l'.awaits r' k) :
    l.awaits r k ∨ l.turnsTo r = some k := by
  cases Call.steps h
  case send hs => exact Send.awaits_of_next (Send.next_of_step hs) ha
  all_goals simp [Call.awaits, Call.queues] at ha

-- While another call has the mutex, only receivers take steps.
theorem receiver_of_step (h : (program α).step x r l = some (r', l')) (hm : r.mutex = true) (hl : l.holds = false) :
    ∃ s s', l = .receiver s ∧ l' = .receiver s' ∧ Receiver.Next x r s r' s' := by
  cases Call.steps h
  case receiver hs     => exact ⟨_, _, rfl, rfl, Receiver.next_of_step hs⟩
  case send hs         => cases Send.next_of_step hs <;> simp_all [Call.holds]
  case shutdown hs     => cases Shutdown.next_of_step hs <;> simp_all [Call.holds]
  case numReceivers hs => cases NumReceivers.next_of_step hs <;> simp_all [Call.holds]

theorem receivesFrom_of_next {s s' : Receiver α} (h : Receiver.Next x r s r' s')
    (hk : (Call.receiver s).receivesFrom k) (hf : r.full k) :
    (Call.receiver s').receivesFrom k ∨ (Call.receiver s).leaves r = some k := by
  cases h <;> simp only [Call.receivesFrom, Bool.false_eq_true, Bool.and_eq_true, decide_eq_true_eq] at hk
  case report b hb =>
    obtain ⟨rfl, hr⟩ := hk
    cases b <;> simp_all [Call.leaves, PipeIPC.Call.receives]
  case within b b' e p hb _ hs =>
    have := PipeIPC.Call.receives_of_step hs
    exact .inl (by simp [Call.receivesFrom, hk, this])

theorem receivesFrom_of_step (h : (program α).step x r l = some (r', l')) (hk : l.receivesFrom k) (hf : r.full k) :
    l'.receivesFrom k ∨ l.leaves r = some k := by
  cases Call.steps h
  case receiver hs => exact receivesFrom_of_next (Receiver.next_of_step hs) hk hf
  all_goals simp [Call.receivesFrom] at hk

-- What a step in the pipe that is not one of a `Receive` means for a `Send` that waits in it.
theorem queues_of_within {b b' : PipeIPC.Call α} {e : PipeIPC.Counted α} {p : PipeIPC α} {y : Bool}
    (he : r.segment[k]? = some e) (hs : b.step y e.pipe = some (p, b'))
    (ha : l.awaits (r.modify k fun e => { e with pipe := p }) k) :
    l.queues r k ∧ (r.full k ∨ (Call.receiver (.calling k b)).leaves r = some k) := by
  have hpipe : (r.modify k fun e => { e with pipe := p }).pipe k = some p := by
    simp [pipe, RouterIPC.modify, he]
  have hr : r.pipe k = some e.pipe := by simp [pipe, he]
  obtain ⟨hq, hf⟩ := Call.awaits_iff.mp ha
  constructor
  · cases l <;> simp only [Call.queues, Bool.false_eq_true] at hq ⊢
    case send s =>
      cases hp : s.pc <;> simp only [hp, Bool.false_eq_true, decide_eq_true_eq] at hq ⊢
      refine hq.imp_right <| And.imp_right <| Or.imp_right <| And.imp_right fun hd => ?_
      simp only [hpipe, Option.any_some, Bool.not_eq_true'] at hd
      simpa [hr] using (PipeIPC.step_transition hs).shutdown_eq_false hd
  · simp only [full, hpipe, hr, Option.any_some, decide_eq_true_eq] at hf ⊢
    obtain hz | hpos := Nat.eq_zero_or_pos e.pipe.nempty
    case inl => exact .inl hz
    case inr =>
      obtain ⟨d, rfl, hd, hn⟩ := PipeIPC.waiting_of_nempty hs (by omega)
      exact .inr (by simp [Call.leaves, hd, hr, hn, hf])

-- A step of another call than the `Send` that waits.
theorem awaits_of_next {s s' : Receiver α} (h : Receiver.Next x r s r' s') (hm : r.mutex = true)
    (hpos : 0 < r.strong k) (htwo : s = .holding k → 2 ≤ r.strong k) (ha : l.awaits r' k) :
    l.awaits r k ∨ (Call.receiver s').receivesFrom k ∨
      (Call.receiver s).leaves r = some k ∧ l.queues r k := by
  have same (hp : r'.pipe k = r.pipe k) : l.awaits r k := Call.awaits_congr hp ▸ ha
  cases h
  case discard hm' | push hm' => simp [hm] at hm'
  case exhausted | call | report => exact .inl ha
  case construct => exact .inl (same (pipe_construct hpos))
  case copy hl => exact .inl (same (pipe_lock hl))
  case drop => exact .inl (same (pipe_release fun hk => hk ▸ htwo (hk ▸ rfl)))
  case within j b b' e p hb he hs =>
    by_cases hk : j = k
    case neg => exact .inl (same (pipe_within hk))
    case pos =>
      subst hk
      obtain ⟨hq, hf | hl⟩ := queues_of_within he hs ha
      case inl => exact .inl (Call.awaits_iff.mpr ⟨hq, hf⟩)
      case inr => exact .inr (.inr ⟨hl, hq⟩)

theorem Received.after (h : Received (c.calls.eraseIdx i) k) : Received (c.after i l r' l').calls k := by
  obtain ⟨l₁, hm, hk⟩ := h
  obtain ⟨j, hne, hj⟩ := List.mem_eraseIdx_iff_getElem?.mp hm
  exact ⟨l₁, List.mem_of_getElem? (i := j) (by rwa [Program.Config.after, List.getElem?_set_ne hne.symm]), hk⟩

theorem Received.self (hl : c.calls[i]? = some l) (h : l'.receivesFrom k) :
    Received (c.after i l r' l').calls k := by
  obtain ⟨hi, _⟩ := List.getElem?_eq_some_iff.mp hl
  exact ⟨l', List.mem_of_getElem? (i := i) (by simp [Program.Config.after, hi]), h⟩

theorem Received.others (h : Received c.calls k) (hl : c.calls[i]? = some l) (hk : l.receivesFrom k = false) :
    Received (c.calls.eraseIdx i) k := by
  obtain ⟨l₁, hm, hk₁⟩ := h
  obtain ⟨j, hj⟩ := List.mem_iff_getElem?.mp hm
  refine ⟨l₁, List.mem_eraseIdx_iff_getElem?.mpr ⟨j, ?_, hj⟩, hk₁⟩
  rintro rfl
  obtain rfl := Option.some.inj (hl.symm.trans hj)
  simp [hk] at hk₁

-- If nobody else receives, then it is the call that takes the step.
theorem Received.step (h : Received c.calls k) (hl : c.calls[i]? = some l)
    (hs : (program α).step x c.shared l = some (r', l')) (hc : Call.Serves c i l)
    (hq : ∃ l ∈ c.calls, l.awaits c.shared k) : Received (c.after i l r' l').calls k := by
  cases hk : l.receivesFrom k
  case false => exact .after (h.others hl hk)
  case true =>
    obtain ⟨l₂, hl₂, ha⟩ := hq
    obtain ⟨hq, hf⟩ := Call.awaits_iff.mp ha
    obtain hk' | hk' := receivesFrom_of_step hs hk hf
    · exact .self hl hk'
    · exact .after (hc.right k hk' ⟨l₂, hl₂, hq⟩)

theorem ne_entered_of_step (h : (program α).step x r l = some (r', l')) : l' ≠ .shutdown .entered := by
  cases Call.steps h
  case shutdown hs => cases Shutdown.next_of_step hs <;> simp
  all_goals simp

theorem received (h : (((program α).system (· = new)).restrict Served).Reachable c) :
    .shutdown .entered ∈ c.calls → ∀ {i : ℕ} {l : Call α} {k : ℕ}, c.calls[i]? = some l → l.awaits c.shared k →
      Received c.calls k := by
  refine Program.invariant_restrict (I := fun c => .shutdown .entered ∈ c.calls →
    ∀ {i : ℕ} {l : Call α} {k : ℕ}, c.calls[i]? = some l → l.awaits c.shared k → Received c.calls k)
    ?_ ?_ ?_ |>.holds h
  · intro _ _ _ i l k hl
    simp at hl
  · intro c l _ h hc hs hsd i l' k hl ha
    obtain ⟨hq, _⟩ := Call.awaits_iff.mp ha
    obtain hl | ⟨_, rfl⟩ := Program.Config.enter_calls_get? hl
    case inr => exact absurd (Call.handle_of_queues hq) (by simp [Call.handle_of_starts hs])
    case inl =>
      have ⟨l₁, hm, hk⟩ : Received c.calls k := by
        obtain hsd | hsd := List.mem_append.mp hsd
        · exact h hsd hl ha
        · exact hc (List.mem_singleton.mp hsd).symm l' (List.mem_of_getElem? hl) k (Call.handle_of_queues hq) ha
      exact ⟨l₁, List.mem_append_left _ hm, hk⟩
  · intro c i x l r' l' hr h hc hl hs hsd j l₁ k hj ha
    have hsd := (List.mem_or_eq_of_mem_set hsd).resolve_right (ne_entered_of_step hs).symm
    have hc := hc hsd l hl
    have kept {j : ℕ} {l₁ : Call α} (hj : c.calls[j]? = some l₁) (ha : l₁.awaits c.shared k) :=
      (h hsd hj ha).step hl hs hc ⟨l₁, List.mem_of_getElem? hj, ha⟩
    obtain ⟨rfl, rfl⟩ | ⟨hne, hj₁⟩ := Program.Config.after_calls_get? hj
    case inl =>
      obtain ha' | ht := awaits_of_step hs ha
      · exact kept hl ha'
      · exact .after ((hc.left k ht).others hl (Call.receivesFrom_of_turnsTo ht))
    case inr =>
      obtain ⟨hq, _⟩ := Call.awaits_iff.mp ha
      have hh := Call.holds_of_queues hq
      have hk := Call.handle_of_queues hq
      have hm : c.shared.mutex = true :=
        (mutexProtocol α).locked_of_holds (by rintro _ rfl; rfl) hr.of_restrict hj₁ hh
      have hfree : l.holds = false := by
        by_contra hl'
        exact hne <| (mutexProtocol α).unique (by rintro _ rfl; rfl) hr.of_restrict hj₁ hl hh
          ((Bool.not_eq_false _).mp hl')
      obtain ⟨s, s', rfl, rfl, hn⟩ := receiver_of_step hs hm hfree
      have htwo (he : s = .holding k) : 2 ≤ c.shared.strong k :=
        two_le_strong hr.of_restrict hj₁ hl hne hk (by rw [he]; rfl)
      obtain ha' | hk' | ⟨hlv, hq'⟩ := awaits_of_next hn hm (strong_pos_of_handle hr.of_restrict hj₁ hk) htwo ha
      · exact kept hj₁ ha'
      · exact .self hl hk'
      · exact .after (hc.right k hlv ⟨l₁, List.mem_of_getElem? hj₁, hq'⟩)

-- A `Shutdown` waits for the mutex, which a `Send` has that is blocked in a full pipe nobody receives from, and
-- no call can take a step. What a receiver does not call is not a step.
structure Deadlocked (c : Config α) (k : ℕ) : Prop where
  waiting   : .shutdown .entered ∈ c.calls
  blocked   : ∃ s i n d, .send s ∈ c.calls ∧ s.pc = .sending i n k d ∧ d.pc = .waiting
  receivers : ∀ b, .receiver (.calling k b) ∈ c.calls → b.receives = false
  stuck     : ∀ l ∈ c.calls, (∀ j, l ≠ .receiver (.holding j)) → ∀ x, (program α).step x c.shared l = none

-- A call that is blocked in a pipe waits for a slot of it.
theorem awaits_of_blocked {s : Send α} {m n : ℕ} {d : PipeIPC.Send α} {e : PipeIPC.Counted α}
    (hp : s.pc = .sending m n k d) (hw : d.pc = .waiting) (he : r.segment[k]? = some e)
    (hs : ∀ x, (program α).step x r (.send s) = none) : (Call.send s).awaits r k := by
  have hs := hs { expired := true }
  simp only [program, Call.step, Send.step, hp, hw, Option.map_eq_none_iff, through, he,
    Option.bind_some, PipeIPC.Send.step, Semaphore.Wait.step_eq_none_iff] at hs
  obtain ⟨hn, hd | ⟨_, hx⟩⟩ := hs
  · exact Call.awaits_iff.mpr ⟨by simp [Call.queues, hp, hd, hw], by simp [full, pipe, he, hn]⟩
  · cases hx

def blocked : PipeIPC.Send ℕ where
  ptr         := some 2
  enqueueMode := .waitIfFull
  pc          := .waiting

theorem deadlocked_of_idle {s : Receiver ℕ} {n : ℕ} {c : Config ℕ} (hr : s = .holding 0 ∨ s = .dropped)
    (hs : c.shared = ⟨[⟨⟨0, 0, 1, 1, 0, 1, [some 1], false⟩, n⟩], true, [0]⟩)
    (hc : c.calls = [.receiver s, .send { ptr := some 1, pc := .returned 0 },
      .send { ptr := some 2, enqueueMode := .waitIfFull, pc := .sending 0 0 0 blocked }, .shutdown .entered]) :
    Deadlocked c 0 ∧ c.calls[0]? = some (.receiver s) := by
  refine ⟨⟨by simp [hc], ?_, ?_, ?_⟩, by simp [hc]⟩
  · rw [hc]
    exact ⟨_, 0, 0, _, List.mem_of_getElem? (i := 2) rfl, rfl, rfl⟩
  · intro b hb
    obtain rfl | rfl := hr <;> simp [hc] at hb
  · rw [hs, hc]
    simp only [List.forall_mem_cons]
    refine ⟨fun hne _ => ?_, fun _ _ => rfl, fun _ _ => rfl, fun _ _ => rfl, by simp⟩
    obtain rfl | rfl := hr
    · exact absurd rfl (hne 0)
    · rfl

end RouterIPC
