import InterprocessMemPool.MempoolIPC.Pipe.Theorems.Tokens

namespace PipeIPC

variable {α : Type*} {p p' : PipeIPC α} {c : Config α} {l : Call α} {capacity : SizeT}
variable {os : List (Fifo.Op (Option α))} {o : Option (Fifo.Op (Option α))} {ptr : Option α}

-- The ring after the given stores and takes, as long as every `Send` has stored into the slot behind
-- the last stored pointer. A take that finds nothing moves `indexPop` past the slot that the next
-- pointer will be stored in, which is what `push_eq` keeps count of.
structure Layout (capacity : SizeT) (p : PipeIPC α) (os : List (Fifo.Op (Option α))) : Prop where
  items_length : p.items.length = capacity.toNat
  pop_lt       : p.indexPop < capacity
  push_lt      : p.indexPush < capacity
  holds        : Ring.Holds none p.items p.indexPop.toNat (Fifo.log os).queue
  push_eq      : p.indexPush.toNat + (Fifo.log os).misses ≡
    p.indexPop.toNat + (Fifo.log os).queue.length [MOD capacity.toNat]
  hits         : Fifo.enqueued os = (Fifo.log os).hits ++ (Fifo.log os).queue

namespace Layout

theorem init (h : 0 < capacity) : Layout capacity (new (α := α) capacity) [] where
  items_length := by simp [new]
  pop_lt       := h
  push_lt      := h
  holds        := Ring.Holds.replicate _
  push_eq      := rfl
  hits         := rfl

theorem capacity_pos (h : Layout capacity p os) : 0 < capacity :=
  UInt64.lt_of_le_of_lt UInt64.zero_le h.push_lt

theorem pop_lt_length (h : Layout capacity p os) : p.indexPop.toNat < p.items.length :=
  h.items_length ▸ UInt64.lt_iff_toNat_lt.mp h.pop_lt

-- The slot that is stored into next is the one behind the queue if and only if the takes that found
-- nothing add up to full turns of the ring.
theorem push_eq_iff (h : Layout capacity p os) :
    p.indexPush.toNat = (p.indexPop.toNat + (Fifo.log os).queue.length) % p.items.length ↔
      capacity.toNat ∣ (Fifo.log os).misses := by
  have hp := UInt64.lt_iff_toNat_lt.mp h.push_lt
  rw [h.items_length, ← h.push_eq]
  nth_rewrite 1 [← Nat.mod_eq_of_lt hp]
  exact (Nat.left_modEq_add_iff).trans Iff.rfl

theorem store (h : Layout capacity p os) (hc : p.capacity = capacity)
    (hl : (Fifo.log os).queue.length < capacity.toNat) (hd : capacity.toNat ∣ (Fifo.log os).misses) :
    Layout capacity (p.store ptr) (os ++ [.enq ptr]) := by
  constructor <;> simp only [Fifo.log_concat, PipeIPC.store, hc]
  case items_length => simpa using h.items_length
  case pop_lt       => exact h.pop_lt
  case push_lt      => exact SizeT.succ_mod_lt h.capacity_pos
  case holds        =>
    rw [h.push_eq_iff.mpr hd]
    exact h.holds.enq (h.items_length ▸ hl)
  case push_eq      =>
    rw [SizeT.toNat_succ_mod h.push_lt]
    refine (Nat.mod_modEq _ _).add_right _ |>.trans ?_
    simpa [Nat.add_right_comm, ← Nat.add_assoc] using h.push_eq.add_right 1
  case hits         => simp [Fifo.Log.apply, h.hits]

theorem take_eq_headD (h : Layout capacity p os) :
    p.take.1 = (Fifo.log os).queue.headD none := by
  simp [PipeIPC.take, h.holds.pop_slot h.pop_lt_length]

theorem take (h : Layout capacity p os) (hc : p.capacity = capacity) :
    Layout capacity p.take.2 (os ++ [.deq p.take.1]) := by
  have ht := h.take_eq_headD
  constructor
  case items_length => simpa [PipeIPC.take] using h.items_length
  case pop_lt       => exact hc ▸ SizeT.succ_mod_lt (hc ▸ h.capacity_pos)
  case push_lt      => exact h.push_lt
  case holds        =>
    have := h.holds.deq h.pop_lt_length
    rw [h.items_length, ← SizeT.toNat_succ_mod h.pop_lt, ← hc] at this
    rw [Fifo.log_concat, Fifo.Log.apply_deq_queue]
    exact this
  case push_eq      =>
    have hm := Fifo.Log.apply_deq_misses (g := Fifo.log os) (a := p.take.1)
    simp only [Fifo.log_concat, Fifo.Log.apply_deq_queue]
    refine Nat.ModEq.add_right_cancel' (Fifo.log os).queue.length ?_
    calc p.indexPush.toNat + ((Fifo.log os).apply (.deq p.take.1)).misses + (Fifo.log os).queue.length
      _ = p.indexPush.toNat + (Fifo.log os).misses + ((Fifo.log os).queue.tail.length + 1) := by omega
      _ ≡ p.indexPop.toNat + (Fifo.log os).queue.length + ((Fifo.log os).queue.tail.length + 1)
          [MOD capacity.toNat] := h.push_eq.add_right _
      _ = p.indexPop.toNat + 1 + ((Fifo.log os).queue.tail.length + (Fifo.log os).queue.length) := by
        omega
      _ ≡ (p.indexPop.toNat + 1) % capacity.toNat +
          ((Fifo.log os).queue.tail.length + (Fifo.log os).queue.length)
          [MOD capacity.toNat] := (Nat.mod_modEq _ _).symm.add_right _
      _ = _ := by
        simp only [PipeIPC.take]
        rw [hc, SizeT.toNat_succ_mod h.pop_lt, Nat.add_assoc]
  case hits         =>
    rw [ht, Fifo.log_concat, Fifo.enqueued_concat_deq, h.hits]
    cases hq : (Fifo.log os).queue <;> simp [Fifo.Log.apply, hq]

theorem after {φ φ' : Phase} (h : Layout capacity p os) (t : Transition p φ p' φ' o)
    (hc : p.capacity = capacity) (hs : φ = .storing →
      (Fifo.log os).queue.length < capacity.toNat ∧ capacity.toNat ∣ (Fifo.log os).misses) :
    Layout capacity p' (os ++ o.toList) := by
  cases t <;> simp only [Option.toList, List.append_nil]
  case store => exact h.store hc (hs rfl).left (hs rfl).right
  case take  => exact h.take hc
  all_goals exact ⟨h.items_length, h.pop_lt, h.push_lt, h.holds, h.push_eq, h.hits⟩

end Layout

-- The action is a step of a call that is in the given phase.
def At (φ : Phase) (c : Config α) : Program.Action (Call α) Bool → Prop
  | .enter _ => False
  | .run i _ => c.calls[i]?.map Call.phase = some φ

instance {φ : Phase} : DecidablePred (At φ c)
  | .enter _ => inferInstanceAs (Decidable False)
  | .run i _ => inferInstanceAs (Decidable (c.calls[i]?.map Call.phase = some φ))

theorem at_run {φ : Phase} {i : ℕ} {x : Bool} (hl : c.calls[i]? = some l) :
    At φ c (.run i x) ↔ l.phase = φ := by
  simp [At, hl]

-- No `Send` stores while `indexPush` and `indexPop` are out of step.
def StoresInStep (c : Config α) (a : Program.Action (Call α) Bool) : Prop :=
  At .storing c a → c.shared.capacity.toNat ∣ (Fifo.log (ops c)).misses

instance {a : Program.Action (Call α) Bool} : Decidable (StoresInStep c a) :=
  inferInstanceAs (Decidable (At .storing c a → c.shared.capacity.toNat ∣ (Fifo.log (ops c)).misses))

-- A call that is about to store has a slot to itself.
theorem length_lt_of_storing {i : ℕ} (h : (system α capacity).Reachable c)
    (hl : c.calls[i]? = some l) (hp : l.phase = .storing) : (queue c).length < capacity.toNat := by
  have h₁ := (tokens h).room
  have h₂ : l.phase.stores ≤ inFlight c Phase.stores := inFlight_le hl
  simp only [hp, Phase.stores, if_true] at h₂
  omega

theorem layout (hc : 0 < capacity) (h : ((system α capacity).restrict StoresInStep).Reachable c) :
    Layout capacity c.shared (ops c) := by
  refine Program.invariant_restrict (I := fun c => Layout capacity c.shared (ops c)) ?_ ?_ ?_
    |>.holds h
  · rintro _ rfl
    exact .init hc
  · intro _ _ _ h _ _
    exact h
  · intro c i x l p' l' hr h hs hl hp
    have hc := (tokens hr.of_restrict).capacity_eq
    rw [ops_after]
    refine h.after (step_transition hp) hc fun hφ => ?_
    exact ⟨length_lt_of_storing hr.of_restrict hl hφ, hc ▸ hs ((at_run hl).mpr hφ)⟩

end PipeIPC
