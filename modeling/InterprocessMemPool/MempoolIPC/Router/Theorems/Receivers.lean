import InterprocessMemPool.MempoolIPC.Router.Theorems.Holders
import InterprocessMemPool.MempoolIPC.Router.Theorems.Next

namespace RouterIPC

variable {α : Type*} {r r' r₀ : RouterIPC α} {c : Config α} {l l' : Call α} {i k n : ℕ}
variable {rs : Records α} {t : Program.Record (RouterIPC α) (Call α)}

theorem alive_iff : r.alive k ↔ 0 < r.strong k := by
  simp only [alive, strong]
  cases r.segment[k]? <;> simp [PipeIPC.Counted.alive]

-- A pipe that has been destroyed stays so.
theorem Grip.alive (g : Grip r l r' l') (hk : k < r.segment.length) (ha : r'.alive k) : r.alive k := by
  rw [alive_iff] at ha ⊢
  cases g
  case keep h hr           => simpa [strong, hr] using ha
  case lock j h h' hr      =>
    rw [strong_lock hr] at ha
    split at ha
    case isTrue hj  => exact hj ▸ alive_iff.mp (alive_of_lock hr)
    case isFalse hj => exact ha
  case release j h h' hr   =>
    rw [hr, strong_release] at ha
    split at ha <;> omega
  case within hr           => rwa [hr, strong_within] at ha
  case construct h h' hr   =>
    rw [hr, strong_construct, if_neg hk.ne'] at ha
    exact ha

-- The pipes in the vector that have not been destroyed yet.
def livingPipes (r : RouterIPC α) : ℕ :=
  r.pipes.countP (r.alive ·)

-- `n` pipes have been counted of the first `i`, since the router was as in `r₀`.
structure Counting (r₀ r : RouterIPC α) (i n : ℕ) : Prop where
  pipes : r.pipes = r₀.pipes
  alive : ∀ k ∈ r.pipes, r.alive k → r₀.alive k
  least : (r.pipes.take i).countP (r.alive ·) ≤ n
  most  : n ≤ (r₀.pipes.take i).countP (r₀.alive ·)

namespace Counting

theorem start : Counting r { r with mutex := true } 0 0 where
  pipes     := rfl
  alive _ _ := id
  least     := by simp
  most      := by simp

theorem frame (h : Counting r₀ r i n) (hp : r'.pipes = r.pipes) (ha : ∀ k ∈ r.pipes, r'.alive k → r.alive k) :
    Counting r₀ r' i n where
  pipes      := hp.trans h.pipes
  alive k hk := h.alive k (hp ▸ hk) ∘ ha k (hp ▸ hk)
  least      := by
    rw [hp]
    exact (List.countP_mono_left fun k hk => ha k (List.mem_of_mem_take hk)).trans h.least
  most       := h.most

theorem skip (h : Counting r₀ r i n) (hk : r.pipes[i]? = some k) (hd : r.alive k = false) :
    Counting r₀ r (i + 1) n where
  pipes := h.pipes
  alive := h.alive
  least := by simpa [List.take_add_one, hk, hd] using h.least
  most  := by
    rw [List.take_add_one, List.countP_append]
    exact h.most.trans (Nat.le_add_right ..)

theorem count (h : Counting r₀ r i n) (hk : r.pipes[i]? = some k) (ha : r₀.alive k) :
    Counting r₀ r (i + 1) (n + 1) where
  pipes := h.pipes
  alive := h.alive
  least := by
    rw [List.take_add_one, List.countP_append, hk]
    exact Nat.add_le_add h.least (List.countP_le_length.trans_eq rfl)
  most  := by
    rw [List.take_add_one, List.countP_append, ← h.pipes, hk]
    have := h.most
    simpa [ha, h.pipes] using this

theorem finish (h : Counting r₀ r i n) (hi : r.pipes[i]? = none) : r.livingPipes ≤ n ∧ n ≤ r₀.livingPipes := by
  have hle := List.getElem?_eq_none_iff.mp hi
  have h₁ := h.least
  have h₂ := h.most
  rw [List.take_of_length_le hle] at h₁
  rw [← h.pipes, List.take_of_length_le hle, h.pipes] at h₂
  exact ⟨h₁, h₂⟩

end Counting

-- What a call knows by the steps that it has taken.
def NumReceivers.Counted (rs : Records α) (r : RouterIPC α) : NumReceivers → Prop
  | .entered        => rs = []
  | .sweeping i n   => ∃ t₀ ∈ rs.head?, Counting t₀.pre.1 r i n
  | .counting i n k => ∃ t₀ ∈ rs.head?, Counting t₀.pre.1 r i n ∧ r.pipes[i]? = some k ∧ t₀.pre.1.alive k
  | .returned n     => ∃ t₀ ∈ rs.head?, ∃ t₁ ∈ rs.getLast?, t₁.pre.1.livingPipes ≤ n ∧ n ≤ t₀.pre.1.livingPipes

namespace NumReceivers

variable {s s' : NumReceivers}

theorem counted_frame (h : s.Counted rs r) (hp : (Call.numReceivers (α := α) s).holds → r'.pipes = r.pipes)
    (ha : (Call.numReceivers (α := α) s).holds → ∀ k ∈ r.pipes, r'.alive k → r.alive k) : s.Counted rs r' := by
  cases s
  case entered | returned => exact h
  case sweeping           =>
    obtain ⟨t₀, ht, hc⟩ := h
    exact ⟨t₀, ht, hc.frame (hp rfl) (ha rfl)⟩
  case counting           =>
    obtain ⟨t₀, ht, hc, hk, hk₀⟩ := h
    exact ⟨t₀, ht, hc.frame (hp rfl) (ha rfl), by rw [hp rfl, hk], hk₀⟩

theorem counted_step (h : s.Counted rs r) (hn : Next r s r' s') (ht : t.pre.1 = r)
    (ha : ∀ k ∈ r.pipes, r'.alive k → r.alive k) : s'.Counted (rs ++ [t]) r' := by
  have head {t₀} (h : t₀ ∈ rs.head?) : t₀ ∈ (rs ++ [t]).head? := by
    rw [List.head?_append, Option.mem_def.mp h]
    rfl
  cases hn
  case acquire =>
    obtain rfl : rs = [] := h
    exact ⟨t, rfl, ht ▸ .start⟩
  case finish hi =>
    obtain ⟨t₀, ht₀, hc⟩ := h
    refine ⟨t₀, head ht₀, t, by simp, ?_⟩
    rw [ht]
    exact hc.finish hi
  case skip hk hd =>
    obtain ⟨t₀, ht₀, hc⟩ := h
    exact ⟨t₀, head ht₀, hc.skip hk (lock_eq_none.mp hd)⟩
  case take hk hl =>
    obtain ⟨t₀, ht₀, hc⟩ := h
    have hp := (Same.lock hl).pipes
    refine ⟨t₀, head ht₀, hc.frame hp ha, by rw [hp, hk], ?_⟩
    exact hc.alive _ (List.mem_of_getElem? hk) (alive_of_lock hl)
  case report =>
    obtain ⟨t₀, ht₀, hc, hk, hk₀⟩ := h
    exact ⟨t₀, head ht₀, (hc.count hk hk₀).frame rfl ha⟩

end NumReceivers

theorem counted (h : ((program α).system WellFormed).Reachable c) {s : NumReceivers}
    (hs : c.calls[i]? = some (.numReceivers s)) : s.Counted (c.recordsOf i) c.shared := by
  refine Program.invariant (I := fun c => ∀ {i : ℕ} {s : NumReceivers}, c.calls[i]? = some (.numReceivers s) →
    s.Counted (c.recordsOf i) c.shared) ?_ ?_ ?_ |>.holds h hs
  · intro _ _ _ _ hl
    simp at hl
  · intro c l hr h hs i s hl
    cases Program.Config.enter_calls_get? hl
    case inl hl => exact h hl
    case inr hl =>
      rw [Program.Config.recordsOf_enter, Program.recordsOf_eq_nil_of_length_le hr i hl.left.ge]
      rw [← hl.right] at hs
      obtain rfl : s = .entered := of_decide_eq_true hs
      rfl
  · intro c i x l r' l' hr h hl hp j s hj
    have hlt := (registered hr).lt
    have ha (k : ℕ) (hk : k ∈ c.shared.pipes) := (grip hp).alive (hlt k hk)
    obtain ⟨rfl, rfl⟩ | ⟨hne, hj⟩ := Program.Config.after_calls_get? hj
    case inl =>
      rw [Program.Config.recordsOf_after_self]
      cases Call.steps hp
      case numReceivers hp => exact NumReceivers.counted_step (h hl) (NumReceivers.next_of_step hp) rfl ha
    case inr =>
      rw [Program.Config.recordsOf_after_ne hne]
      refine NumReceivers.counted_frame (h hj) (fun hh => ?_) fun _ => ha
      exact pipes_of_holds WellFormed.mutex hr hj hh hl hne hp

-- The number that is returned lies between the living pipes at the end of the call and those at its beginning.
theorem numReceivers_bounds (h : ((program α).system WellFormed).Reachable c)
    (hs : c.calls[i]? = some (.numReceivers (.returned n))) :
    ∃ t₀ ∈ (c.recordsOf i).head?, ∃ t₁ ∈ (c.recordsOf i).getLast?,
      t₁.pre.1.livingPipes ≤ n ∧ n ≤ t₀.pre.1.livingPipes :=
  counted h hs

-- One of two pipes is destroyed after the other has been counted.
theorem numReceivers_bounds_run : ∃ c : Config ℕ, c.calls[2]? = some (.numReceivers (.returned 1)) ∧
    ∃ t₀ ∈ (c.recordsOf 2).head?, ∃ t₁ ∈ (c.recordsOf 2).getLast?,
      t₁.pre.1.livingPipes ≤ 1 ∧ 1 ≤ t₀.pre.1.livingPipes := by
  obtain ⟨c, hc, hs⟩ : ∃ c : Config ℕ, (((program ℕ).system WellFormed).restrict fun _ _ => True).Reachable c ∧
      c.calls[2]? = some (.numReceivers (.returned 1)) :=
    Program.exec_reachable (s := new) .new <| show Option.any _ (System.exec _ _ _ [
      .enter (.receiver (.registering 1)), .run 0 {}, .run 0 {},
      .enter (.receiver (.registering 1)), .run 1 {}, .run 1 {},
      .enter (.numReceivers .entered), .run 2 {}, .run 2 {}, .run 2 {}, .run 1 {}, .run 2 {},
      .run 2 {}]) by decide +kernel
  exact ⟨c, hs, numReceivers_bounds hc.of_restrict hs⟩

end RouterIPC
