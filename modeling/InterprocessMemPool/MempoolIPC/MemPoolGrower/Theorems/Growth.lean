import InterprocessMemPool.Concurrency.Mutex
import InterprocessMemPool.MempoolIPC.MemPoolGrower.Theorems.Extent

theorem List.flatMap_set_sublist {α β : Type*} {f : α → List β} {as : List α} {a b : α} {i : ℕ}
    (ha : as[i]? = some a) (h : (f b).Sublist (f a)) : ((as.set i b).flatMap f).Sublist (as.flatMap f) := by
  induction as generalizing i
  case nil => simp
  case cons _ as ih =>
    cases i
    case zero =>
      obtain rfl := Option.some.inj ha
      exact h.append (.refl _)
    case succ => exact (List.Sublist.refl _).append (ih ha)

namespace IPC.MemPoolGrowerIPC

variable {segment : ℕ} {layout : Layout} {count : SizeT} {g g' : MemPoolGrowerIPC} {m : Mapping segment}
variable {memory : Memory segment} {p : MemPoolIPC} {gen gen' : Generation} {c : Config segment}
variable {l l' : Call segment} {i k e : ℕ}

inductive MakePooled.Next (layout : Layout) (m : Mapping segment) (memory : Memory segment)
    (g : MemPoolGrowerIPC) : MakePooled → MemPoolGrowerIPC → MakePooled → Prop
  | lock (h : g.mutex = false) : Next layout m memory g .entered { g with mutex := true } (.pooling true .entered)
  | pool {first : Bool} {c c' : MemPoolIPC.MakePooled} {gen : Generation} {p : MemPoolIPC}
    (hg : g.generations[g.pool]? = some gen) (hs : MemPoolIPC.MakePooled.Next m gen.pool c p c') :
    Next layout m memory g (.pooling first c)
      (g.set g.pool { gen with pool := p, use_count := gen.use_count + c'.made.toNat })
      (.pooling first c')
  | give {first : Bool} {e : ℕ} : Next layout m memory g (.pooling first (.returned (some e)))
      { g with mutex := false } (.returned (some (g.pool, e)))
  | full : Next layout m memory g (.pooling true (.returned none)) g .growing
  | null : Next layout m memory g (.pooling false (.returned none)) { g with mutex := false } (.returned none)
  | bad_alloc : Next layout m memory g .growing { g with mutex := false } .threw
  | fault {gen : Generation} {f : Fault} (hg : g.generations[g.pool]? = some gen)
    (hn : MemPoolIPC.new memory layout (g.newSize gen.pool) gen.pool.countPerElement = .error f)
    (hf : f ≠ .bad_alloc) : Next layout m memory g .growing g .faulted
  | grow {gen : Generation} {p : MemPoolIPC} (hg : g.generations[g.pool]? = some gen)
    (hn : MemPoolIPC.new memory layout (g.newSize gen.pool) gen.pool.countPerElement = .ok p)
    (hp : p.buffers.Pairwise (·.Apart ·)) (ha : ∀ b ∈ p.buffers, ∀ b' ∈ g.allocated, b.Apart b') :
    Next layout m memory g .growing (g.assign p) (.pooling false .entered)

-- A step of the call of the current pool.
theorem MakePooled.step_pooling {first : Bool} {c : MemPoolIPC.MakePooled} (hc : ∀ e, c ≠ .returned e) :
    MakePooled.step layout m memory g (.pooling first c) =
      g.generations[g.pool]?.bind fun gen => (c.step m false gen.pool).map fun (p, c') =>
        (g.set g.pool { gen with pool := p, use_count := gen.use_count + c'.made.toNat }, .pooling first c') := by
  cases c
  case returned e => exact absurd rfl (hc e)
  all_goals
    refine Option.bind_congr fun gen _ => Option.map_congr fun s hs => ?_
    obtain ⟨p, c'⟩ := s
    clear hs
    cases c'
    case returned e => cases e <;> rfl
    all_goals rfl

theorem MakePooled.next_of_step {c c' : MakePooled} (h : c.step layout m memory g = some (g', c')) :
    MakePooled.Next layout m memory g c g' c' := by
  have hpool {first : Bool} {c₀ : MemPoolIPC.MakePooled} (hc : ∀ e, c₀ ≠ .returned e)
      (h : MakePooled.step layout m memory g (.pooling first c₀) = some (g', c')) :
      MakePooled.Next layout m memory g (.pooling first c₀) g' c' := by
    rw [MakePooled.step_pooling hc] at h
    obtain ⟨gen, hg, h⟩ := Option.bind_eq_some_iff.mp h
    obtain ⟨⟨p, c₁⟩, hs, h⟩ := Option.map_eq_some_iff.mp h
    obtain ⟨rfl, rfl⟩ := Prod.mk.inj h
    exact .pool hg (MemPoolIPC.MakePooled.next_of_step hs)
  cases c
  case entered =>
    simp only [MakePooled.step, Option.ite_none_left_eq_some, Option.some.injEq] at h
    obtain ⟨rfl, rfl⟩ := Prod.mk.inj h.right
    exact .lock (by simpa using h.left)
  case pooling first c₀ =>
    cases c₀
    case returned r =>
      cases r
      case some e =>
        obtain ⟨rfl, rfl⟩ := Prod.mk.inj (Option.some.inj h)
        exact .give
      case none =>
        cases first <;> obtain ⟨rfl, rfl⟩ := Prod.mk.inj (Option.some.inj h)
        case true  => exact .full
        case false => exact .null
    all_goals exact hpool (by simp) h
  case growing =>
    obtain ⟨gen, hg, h⟩ := Option.bind_eq_some_iff.mp h
    split at h
    case h_1 =>
      obtain ⟨rfl, rfl⟩ := Prod.mk.inj (Option.some.inj h)
      exact .bad_alloc
    case h_2 f hne hn =>
      obtain ⟨rfl, rfl⟩ := Prod.mk.inj (Option.some.inj h)
      exact .fault hg hn hne
    case h_3 p hn =>
      rw [Option.ite_none_right_eq_some] at h
      obtain ⟨rfl, rfl⟩ := Prod.mk.inj (Option.some.inj h.right)
      exact .grow hg hn h.left.left h.left.right
  all_goals cases h

-- The calls that are in the critical section.
def MakePooled.locks : MakePooled → Bool
  | .pooling _ _ | .growing | .faulted => true
  | _                                  => false

-- The call has returned `nullptr` or is about to, or there is no telling what it does.
def MakePooled.failed : MakePooled → Bool
  | .returned none | .pooling false (.returned none) => true
  | .pooling _ (.crashed _) | .faulted               => true
  | _                                                => false

namespace Call

def locks : Call segment → Bool
  | .makePooled _ c => c.locks
  | _               => false

def failed : Call segment → Bool
  | .makePooled _ c => c.failed
  | _               => false

-- The next step of the call is to construct a larger pool.
def grows : Call segment → Bool
  | .makePooled _ c => c = .growing
  | _               => false

-- The call has a pool in front of it that was constructed for it.
def fresh : Call segment → Bool
  | .makePooled _ c => c = .pooling false .entered
  | _               => false

-- The position of the block of which the call makes an element.
def inHand : Call segment → Option SizeT
  | .makePooled m (.pooling _ c) => c.inHand.map (· - m.base)
  | _                            => none

theorem locks_of_inHand (h : l.inHand.isSome) : l.locks := by
  cases l
  case makePooled c => cases c <;> first | rfl | cases h
  all_goals cases h

theorem locks_of_fresh (h : l.fresh) : l.locks := by
  cases l
  case makePooled c =>
    simp only [fresh, decide_eq_true_eq] at h
    exact h ▸ rfl
  all_goals cases h

end Call

def lock : (program segment layout).Mutex where
  locked := MemPoolGrowerIPC.mutex
  holds  := Call.locks
  starts {l} h := by
    cases l
    case makePooled c =>
      obtain rfl := of_decide_eq_true h
      rfl
    all_goals rfl
  step {memory g l g' l'} h := by
    cases l <;> simp only [program, Call.step, Option.map_eq_some_iff] at h
    case makePooled m c =>
      obtain ⟨⟨g', c'⟩, hs, h⟩ := h
      obtain ⟨rfl, rfl⟩ := Prod.mk.inj h
      cases MakePooled.next_of_step hs
      case lock hm => exact .inl ⟨hm, rfl, rfl, rfl⟩
      case give | null | bad_alloc => exact .inr (.inl ⟨rfl, rfl, rfl⟩)
      case pool | full | fault | grow => exact .inr (.inr ⟨rfl, rfl⟩)
    case copy =>
      obtain ⟨g', hs, h⟩ := h
      obtain ⟨rfl, rfl⟩ := Prod.mk.inj h
      obtain ⟨gen, _, hs⟩ := Option.bind_eq_some_iff.mp hs
      obtain ⟨p, _, rfl⟩ := Option.map_eq_some_iff.mp hs
      exact .inr (.inr ⟨rfl, rfl⟩)
    case release =>
      obtain ⟨g', hs, h⟩ := h
      obtain ⟨rfl, rfl⟩ := Prod.mk.inj h
      obtain ⟨gen, _, hs⟩ := Option.bind_eq_some_iff.mp hs
      obtain ⟨p, _, rfl⟩ := Option.map_eq_some_iff.mp hs
      exact .inr (.inr ⟨rfl, rfl⟩)
    case done => cases h

-- The positions of the blocks that calls make elements of, which are blocks of the grower's pool.
def hand (c : Config segment) (k : ℕ) : List SizeT :=
  if k = c.shared.pool then c.held Call.inHand else []

@[simp]
theorem hand_pool : hand c c.shared.pool = c.held Call.inHand :=
  if_pos rfl

theorem hand_after_set {k' : ℕ} : hand (c.after i l (c.shared.set k gen) l') k' =
    if k' = c.shared.pool then (c.after i l (c.shared.set k gen) l').held Call.inHand else [] :=
  rfl

theorem hand_of_ne (h : k ≠ c.shared.pool) : hand c k = [] :=
  if_neg h

theorem hand_perm {c' : Config segment} (hh : (c'.held Call.inHand).Perm (c.held Call.inHand))
    (hp : c'.shared.pool = c.shared.pool) (k : ℕ) : (hand c' k).Perm (hand c k) := by
  by_cases hk : k = c.shared.pool
  case pos => simpa [hand, hp, hk] using hh
  case neg => simp [hand, hp, hk]

structure Kept (layout : Layout) (count : SizeT) (c : Config segment) : Prop where
  last     : c.shared.pool + 1 = c.shared.generations.length
  rate     : c.shared.growthRate = 2
  sound    : ∀ {k : ℕ} {gen : Generation}, c.shared.generations[k]? = some gen →
    gen.Sound segment layout count (k = c.shared.pool) (hand c k)
  apart    : c.shared.allocated.Pairwise (·.Apart ·)
  fresh    : ∀ {l}, l ∈ c.calls → l.fresh → ∃ gen, c.shared.generations[c.shared.pool]? = some gen ∧
    gen.pool.elements = [] ∧ 0 < gen.pool.myObjectAllocator.nAvailable
  answered : ∀ {l}, l ∈ c.calls → ¬l.failed

namespace Kept

theorem current (h : Kept layout count c) (hk : c.shared.generations[c.shared.pool]? = some gen) :
    gen.Sound segment layout count true (c.held Call.inHand) := by
  simpa using h.sound hk

theorem calls {s' : MemPoolGrowerIPC} (h : Kept layout count c) (hf : ¬l'.failed) :
    ∀ {l₁}, l₁ ∈ (c.after i l s' l').calls → ¬l₁.failed := by
  intro l₁ hm
  obtain hm | rfl := List.mem_or_eq_of_mem_set hm
  · exact h.answered hm
  · exact hf

-- A step that does not touch any of the generations.
theorem stay {s' : MemPoolGrowerIPC} (h : Kept layout count c) (hl : c.calls[i]? = some l)
    (hg : s'.generations = c.shared.generations) (hp : s'.pool = c.shared.pool)
    (hr : s'.growthRate = c.shared.growthRate) (hh : l'.inHand = l.inHand) (hf : ¬l'.fresh)
    (hf' : ¬l'.failed) : Kept layout count (c.after i l s' l') := by
  constructor
  case last     => simpa only [Program.Config.after_shared, hg, hp] using h.last
  case rate     => exact hr.trans h.rate
  case sound    =>
    intro k gen hk
    simp only [Program.Config.after_shared, hg, hp] at hk ⊢
    refine (h.sound hk).congr ?_
    exact hand_perm (Program.Config.held_after_of_eq hl hh) hp k
  case apart    => simpa only [Program.Config.after_shared, allocated, hg] using h.apart
  case fresh    =>
    intro l₁ hm hfr
    simp only [Program.Config.after_shared, hg, hp]
    obtain hm | rfl := List.mem_or_eq_of_mem_set hm
    · exact h.fresh hm hfr
    · exact absurd hfr hf
  case answered => exact h.calls hf'

theorem allocated_set (hk : g.generations[k]? = some gen) (hb : gen'.pool.buffers = gen.pool.buffers)
    (hf : gen.freed → gen'.freed) : (g.set k gen').allocated.Sublist g.allocated := by
  refine List.flatMap_set_sublist hk ?_
  rw [hb]
  by_cases hfr : gen.freed
  case pos => simp [hfr, hf hfr]
  case neg => by_cases hfr' : gen'.freed <;> simp [hfr, hfr']

-- A step that changes one of the generations, and keeps it where it is.
theorem update (h : Kept layout count c) (hk : c.shared.generations[k]? = some gen)
    (hs : gen'.Sound segment layout count (k = c.shared.pool) (hand (c.after i l (c.shared.set k gen') l') k))
    (ho : ∀ k' ≠ k, (hand (c.after i l (c.shared.set k gen') l') k').Perm (hand c k'))
    (hb : gen'.pool.buffers = gen.pool.buffers) (hfr : gen.freed → gen'.freed)
    (hfresh : ∀ {l₁}, l₁ ∈ (c.after i l (c.shared.set k gen') l').calls → l₁.fresh →
      l₁ ∈ c.calls ∧ k ≠ c.shared.pool)
    (hf : ¬l'.failed) : Kept layout count (c.after i l (c.shared.set k gen') l') := by
  constructor
  case last     => simpa [MemPoolGrowerIPC.set] using h.last
  case rate     => exact h.rate
  case sound    =>
    intro k' gen₁ hk'
    simp only [Program.Config.after_shared, MemPoolGrowerIPC.set, List.getElem?_set] at hk'
    split at hk'
    case isTrue he  =>
      obtain ⟨_, hk'⟩ := Option.ite_none_right_eq_some.mp hk'
      obtain rfl := Option.some.inj hk'
      exact he ▸ hs
    case isFalse he => exact (h.sound hk').congr (ho k' (Ne.symm he))
  case apart    => exact h.apart.sublist (allocated_set hk hb hfr)
  case fresh    =>
    intro l₁ hm hf
    have ⟨hm, hne⟩ := hfresh hm hf
    simpa only [Program.Config.after_shared, MemPoolGrowerIPC.set, List.getElem?_set_ne hne] using h.fresh hm hf
  case answered => exact h.calls hf

-- An element that is in use was made of a block of its pool, so no call has been given that pool since
-- it was constructed.
theorem ne_of_fresh {l₁ : Call segment} {el : Element} (h : Kept layout count c) (hm : l₁ ∈ c.calls) (hf : l₁.fresh)
    (hk : c.shared.generations[k]? = some gen) (he : gen.pool.elements[e]? = some el) :
    k ≠ c.shared.pool := by
  rintro rfl
  have ⟨gen₁, hk₁, hn, _⟩ := h.fresh hm hf
  obtain rfl := Option.some.inj (hk.symm.trans hk₁)
  simp [hn] at he

-- What a call does to one element.
theorem use {el : Element} (h : Kept layout count c) (hl : c.calls[i]? = some l) (hi : l.inHand = none)
    (hk : c.shared.generations[k]? = some gen) (he : gen.pool.elements[e]? = some el)
    (hs : gen'.Sound segment layout count (k = c.shared.pool) (hand c k))
    (hb : gen'.pool.buffers = gen.pool.buffers) (hfr : gen.freed → gen'.freed) :
    Kept layout count (c.after i l (c.shared.set k gen') .done) := by
  have hp : ((c.after i l (c.shared.set k gen') .done).held Call.inHand).Perm (c.held Call.inHand) :=
    Program.Config.held_after_of_eq hl hi.symm
  have hh (k' : ℕ) : (hand (c.after i l (c.shared.set k gen') .done) k').Perm (hand c k') :=
    hand_perm hp rfl k'
  refine h.update hk (hs.congr (hh k)) (fun k' _ => hh k') hb hfr (fun {l₁} hm hf => ?_) (by simp [Call.failed])
  obtain hm | rfl := List.mem_or_eq_of_mem_set hm
  · exact ⟨hm, h.ne_of_fresh hm hf hk he⟩
  · cases hf

theorem copy (h : Kept layout count c) (hl : c.calls[i]? = some (.copy m k e))
    (hs : c.shared.copy m k e = some g) : Kept layout count (c.after i (.copy m k e) g .done) := by
  obtain ⟨gen, hk, hm⟩ := Option.bind_eq_some_iff.mp hs
  obtain ⟨p, hc, rfl⟩ := Option.map_eq_some_iff.mp hm
  have ⟨el, he, _⟩ := MemPoolIPC.copy_eq hc
  have hsound := h.sound hk
  exact h.use hl rfl hk he (hsound.copy hc) (hsound.buffers_of_copy hc) id

theorem release (h : Kept layout count c) (hl : c.calls[i]? = some (.release m k e))
    (hs : c.shared.release m k e = some g) : Kept layout count (c.after i (.release m k e) g .done) := by
  obtain ⟨gen, hk, hm⟩ := Option.bind_eq_some_iff.mp hs
  obtain ⟨p, hr, rfl⟩ := Option.map_eq_some_iff.mp hm
  have ⟨el, he⟩ := MemPoolIPC.exists_of_release hr
  have hsound := h.sound hk
  have hb := hsound.buffers_of_release hr
  refine h.use hl rfl hk he (hsound.release hr) ?_ ?_
  · split <;> exact hb
  · intro hf
    split <;> simp [Generation.release, hf]

end Kept

variable {C : Config segment → Program.Action (Call segment) (Memory segment) → Prop}

-- Nobody else is in the critical section.
theorem held_perm (hr : ((system segment layout p).restrict C).Reachable c) (hl : c.calls[i]? = some l)
    (hh : l.locks) : (c.held Call.inHand).Perm l.inHand.toList :=
  lock.held_perm (by rintro _ rfl; rfl) Call.locks_of_inHand hr.of_restrict hl hh

theorem not_fresh (hr : ((system segment layout p).restrict C).Reachable c) (hl : c.calls[i]? = some l)
    (hh : l.locks) {s' : MemPoolGrowerIPC} {l₁ : Call segment} (hm : l₁ ∈ (c.after i l s' l').calls)
    (hf : l₁.fresh) : l₁ = l' := by
  have ⟨j, hj⟩ := List.getElem?_of_mem hm
  obtain ⟨_, h⟩ | ⟨hne, hj⟩ := Program.Config.after_calls_get? hj
  · exact h
  · have := lock.unique (by rintro _ rfl; rfl) hr.of_restrict hj hl (Call.locks_of_fresh hf) hh
    exact absurd this hne

namespace Kept

theorem pool {first : Bool} {c₁ c₂ : MemPoolIPC.MakePooled} (hr : ((system segment layout p).restrict C).Reachable c)
    (h : Kept layout count c) (hcount : 0 < count) (hl : c.calls[i]? = some (.makePooled m (.pooling first c₁)))
    (hk : c.shared.generations[c.shared.pool]? = some gen) {p₁ : MemPoolIPC}
    (hs : MemPoolIPC.MakePooled.Next m gen.pool c₁ p₁ c₂) :
    Kept layout count (c.after i (.makePooled m (.pooling first c₁))
      (c.shared.set c.shared.pool { gen with pool := p₁, use_count := gen.use_count + c₂.made.toNat })
      (.makePooled m (.pooling first c₂))) := by
  have hsound := (h.current hk).congr (held_perm hr hl rfl).symm
  have hin (c₀ : MemPoolIPC.MakePooled) : (Call.inHand (.makePooled m (.pooling first c₀))).toList =
      c₀.inHand.toList.map (· - m.base) := by
    simp only [Call.inHand]
    cases c₀.inHand <;> rfl
  rw [hin] at hsound
  have hcrash (ptr : Address) : c₂ ≠ .crashed ptr := hsound.not_crashed hs
  refine h.update hk ?_ ?_ hs.buffers_eq id ?_ ?_
  · have hp := Program.Config.held_after Call.inHand (c.shared.set c.shared.pool { gen with
      pool      := p₁
      use_count := gen.use_count + c₂.made.toNat }) (.makePooled m (.pooling first c₂)) hl
    have hp := (hp.trans ((held_perm hr hl rfl).append_left _)).trans List.perm_append_comm
    rw [List.perm_append_left_iff, hin] at hp
    rw [hand_after_set, if_pos rfl, decide_eq_true rfl]
    exact (hsound.step hs).congr hp
  · intro k' hne
    rw [hand_after_set, if_neg hne, hand_of_ne hne]
  · intro l₁ hm hf
    obtain rfl := not_fresh hr hl rfl hm hf
    cases hs <;> simp [Call.fresh] at hf
  · cases hs
    case empty he =>
      cases first
      case true  => exact Bool.false_ne_true
      case false =>
        have ⟨gen₁, hk₁, _, ha⟩ := h.fresh (List.mem_of_getElem? hl) (by simp [Call.fresh])
        obtain rfl := Option.some.inj (hk.symm.trans hk₁)
        rw [hsound.nAvailable_of_loan hcount he] at ha
        exact absurd ha (UInt64.lt_irrefl 0)
    case crash => exact absurd rfl (hcrash _)
    all_goals cases first <;> exact Bool.false_ne_true

theorem allocated_assign (hk : g.generations[g.pool]? = some gen) :
    (g.assign p).allocated = (g.set g.pool gen.release).allocated ++ p.buffers := by
  simp [allocated, assign, MemPoolGrowerIPC.set, List.modify_eq_set_getElem?, hk]

-- As its size does not wrap around, the pool is larger than the one before.
theorem newSize_pos (hr : g.growthRate = 2) (hf : Fits layout p.nElements count) : 0 < g.newSize p := by
  simp only [newSize, hr]
  split
  case isTrue  => exact Nat.one_pos
  case isFalse hn =>
    have := SizeT.toNat_pos_iff.mpr (UInt64.pos_iff_ne_zero.mpr hn)
    have := hf.right.right
    rw [← SizeT.toNat_pos_iff, UInt64.toNat_mul, UInt64.toNat_ofNat,
      show (2 : ℕ) % 2 ^ 64 = 2 from rfl]
    omega

theorem grow {p₁ : MemPoolIPC} (hr : ((system segment layout p).restrict C).Reachable c)
    (h : Kept layout count c) (hl : c.calls[i]? = some (.makePooled m .growing))
    (hk : c.shared.generations[c.shared.pool]? = some gen)
    (hn : MemPoolIPC.new memory layout (c.shared.newSize gen.pool) gen.pool.countPerElement = .ok p₁)
    (hp : p₁.buffers.Pairwise (·.Apart ·)) (ha : ∀ b ∈ p₁.buffers, ∀ b' ∈ c.shared.allocated, b.Apart b')
    (hf : Fits layout (c.shared.newSize gen.pool) gen.pool.countPerElement) :
    Kept layout count (c.after i (.makePooled m .growing) (c.shared.assign p₁)
      (.makePooled m (.pooling false .entered))) := by
  have hsound := h.current hk
  have hheld := List.perm_nil.mp (held_perm hr hl rfl)
  have hheld' : (c.after i (.makePooled m .growing) (c.shared.assign p₁)
      (.makePooled m (.pooling false .entered))).held Call.inHand = [] := by
    rw [← List.perm_nil, ← hheld]
    exact Program.Config.held_after_of_eq hl rfl
  have hhand (k : ℕ) : hand (c.after i (.makePooled m .growing) (c.shared.assign p₁)
      (.makePooled m (.pooling false .entered))) k = [] := by
    rw [hand, hheld', ite_self]
  have hlast := h.last
  rw [hsound.count_eq] at hn hf
  obtain ⟨_, ho, hsize, _, helements⟩ := MemPoolIPC.new_eq_ok hn
  constructor
  case last     => simp [assign]
  case rate     => exact h.rate
  case sound    =>
    intro k gen₁ hk₁
    rw [hhand]
    show gen₁.Sound segment layout count (k = c.shared.generations.length) []
    simp only [Program.Config.after_shared, assign, List.getElem?_append, List.length_modify] at hk₁
    split at hk₁
    case isFalse hlt =>
      obtain ⟨hlt', _⟩ := List.getElem?_eq_some_iff.mp hk₁
      obtain rfl : k = c.shared.generations.length := by
        simp only [List.length_singleton] at hlt'
        omega
      obtain rfl : { pool := p₁ } = gen₁ := by simpa using hk₁
      rw [decide_eq_true rfl]
      exact .of_new hf hn
    case isTrue hlt =>
      rw [decide_eq_false (by omega)]
      rw [List.getElem?_modify] at hk₁
      split at hk₁
      case isTrue he =>
        rw [← he, hk] at hk₁
        obtain rfl := Option.some.inj hk₁
        exact hheld ▸ hsound.supersede
      case isFalse he =>
        have := h.sound (by simpa using hk₁)
        rwa [hand_of_ne (Ne.symm he), decide_eq_false (Ne.symm he)] at this
  case apart    =>
    rw [Program.Config.after_shared, allocated_assign hk]
    have hsub : (c.shared.set c.shared.pool gen.release).allocated.Sublist c.shared.allocated :=
      allocated_set hk rfl fun hf => by simp [Generation.release, hf]
    refine List.pairwise_append.mpr ⟨h.apart.sublist hsub, hp, fun b hb b' hb' => ?_⟩
    exact (ha b' hb' b (hsub.subset hb)).symm
  case fresh    =>
    intro l₁ _ _
    refine ⟨{ pool := p₁ }, by simp [assign], helements, ?_⟩
    obtain ⟨_, _, hav, _⟩ := MemPoolIPC.sound_of_allocate ho
    rw [hav]
    exact newSize_pos h.rate hsound.fits
  case answered =>
    refine h.calls ?_
    exact Bool.false_ne_true

end Kept

-- No generation is constructed whose sizes wrap around.
def AllFit (layout : Layout) (c : Config segment) : Program.Action (Call segment) (Memory segment) → Prop
  | .enter _ => True
  | .run i _ => ∀ gen ∈ c.shared.generations[c.shared.pool]?, c.calls[i]?.any Call.grows →
    Fits layout (c.shared.newSize gen.pool) gen.pool.countPerElement

instance {c : Config segment} {a : Program.Action (Call segment) (Memory segment)} :
    Decidable (AllFit layout c a) :=
  match a with
  | .enter _ => .isTrue trivial
  | .run _ _ => inferInstanceAs (Decidable (∀ gen ∈ _, _ → Fits layout _ _))

namespace Kept

theorem init {n : SizeT} (hn : MemPoolIPC.new memory layout n count = .ok p) (hf : Fits layout n count)
    (hp : p.buffers.Pairwise (·.Apart ·)) :
    Kept layout count (⟨new p, [], []⟩ : Config segment) := by
  have ⟨_, _, hsize, _⟩ := MemPoolIPC.new_eq_ok hn
  constructor
  case last     => rfl
  case rate     => rfl
  case sound    =>
    intro k gen hk
    have ⟨hlt, _⟩ := List.getElem?_eq_some_iff.mp hk
    obtain rfl : k = 0 := Nat.lt_one_iff.mp hlt
    obtain rfl : { pool := p } = gen := Option.some.inj hk
    exact .of_new hf hn
  case apart    => simpa [allocated, new] using hp
  case fresh    => simp
  case answered => simp

theorem enter (h : Kept layout count c) (hs : l.starts) : Kept layout count (c.enter l) := by
  have hl : l.inHand = none ∧ ¬l.fresh ∧ ¬l.failed := by
    cases l
    case makePooled c₀ =>
      obtain rfl := of_decide_eq_true hs
      exact ⟨rfl, Bool.false_ne_true, Bool.false_ne_true⟩
    all_goals exact ⟨rfl, Bool.false_ne_true, Bool.false_ne_true⟩
  have hm {l₁ : Call segment} (hm : l₁ ∈ (c.enter l).calls) : l₁ ∈ c.calls ∨ l₁ = l := by
    simpa [Program.Config.enter] using hm
  constructor
  case last     => exact h.last
  case rate     => exact h.rate
  case sound    =>
    intro k gen hk
    have hh : ((c.enter l).held Call.inHand).Perm (c.held Call.inHand) := by
      simp [Program.Config.held_enter, hl.left]
    exact (h.sound hk).congr (hand_perm hh rfl k)
  case apart    => exact h.apart
  case fresh    =>
    intro l₁ hm₁ hf
    obtain hm₁ | rfl := hm hm₁
    · exact h.fresh hm₁ hf
    · exact absurd hf hl.right.left
  case answered =>
    intro l₁ hm₁
    obtain hm₁ | rfl := hm hm₁
    · exact h.answered hm₁
    · exact hl.right.right

theorem make_pooled {c₀ c₁ : MakePooled} {n : ℕ}
    (hr : ((system segment layout p).restrict C).Reachable c)
    (h : Kept layout count c) (hcount : 0 < count) (hC : AllFit layout c (.run n memory))
    (hl : c.calls[n]? = some (.makePooled m c₀)) (hs : c₀.step layout m memory c.shared = some (g, c₁)) :
    Kept layout count (c.after n (.makePooled m c₀) g (.makePooled m c₁)) := by
  have hfit (hc : c₀ = .growing) {gen : Generation} (hk : c.shared.generations[c.shared.pool]? = some gen) :
      Fits layout (c.shared.newSize gen.pool) gen.pool.countPerElement :=
    hC gen hk (by simp [hl, Call.grows, hc])
  cases MakePooled.next_of_step hs
  case pool hk hnext => exact h.pool hr hcount hl hk hnext
  case grow hk hn hp ha => exact h.grow hr hl hk hn hp ha (hfit rfl hk)
  case null => exact absurd rfl (h.answered (List.mem_of_getElem? hl))
  case fault hk hn hf => exact absurd (MemPoolIPC.new_error (hfit rfl hk) hn) hf
  all_goals exact h.stay hl rfl rfl rfl rfl Bool.false_ne_true Bool.false_ne_true

end Kept

theorem kept {n : SizeT} (hcount : 0 < count) (hn : MemPoolIPC.new memory layout n count = .ok p)
    (hf : Fits layout n count) (hp : p.buffers.Pairwise (·.Apart ·))
    (h : ((system segment layout p).restrict (AllFit layout)).Reachable c) : Kept layout count c := by
  refine Program.invariant_restrict (I := Kept layout count) ?_ ?_ ?_ |>.holds h
  · rintro _ rfl
    exact .init hn hf hp
  · exact fun _ h _ hs => h.enter hs
  · intro c i memory l g l' hr h hC hl hs
    cases l <;> simp only [program, Call.step, Option.map_eq_some_iff, reduceCtorEq] at hs
    case makePooled =>
      obtain ⟨⟨g, c₁⟩, hs, he⟩ := hs
      obtain ⟨rfl, rfl⟩ := Prod.mk.inj he
      exact h.make_pooled hr hcount hC hl hs
    case copy =>
      obtain ⟨g, hs, he⟩ := hs
      obtain ⟨rfl, rfl⟩ := Prod.mk.inj he
      exact h.copy hl hs
    case release =>
      obtain ⟨g, hs, he⟩ := hs
      obtain ⟨rfl, rfl⟩ := Prod.mk.inj he
      exact h.release hl hs

end IPC.MemPoolGrowerIPC
