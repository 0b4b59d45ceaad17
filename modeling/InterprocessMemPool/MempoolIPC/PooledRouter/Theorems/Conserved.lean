import InterprocessMemPool.MempoolIPC.MemPoolGrower.Theorems.Generations
import InterprocessMemPool.MempoolIPC.PooledRouter.Theorems.Handover

open References

namespace IPC.MemPoolIPC

variable {segment : ℕ} {p p' : MemPoolIPC} {s t : AllocatorState} {m : Mapping segment} {hand : List SizeT}
variable {ptr : Option ℕ} {ptrs : List (Option ℕ)} {h : Handover ℕ} {e j : ℕ} {el el' : Element}

-- The number of strong pointers to an element, which is 0 if there is no such element.
def uses (p : MemPoolIPC) (e : ℕ) : ℕ :=
  p.elements[e]?.elim 0 (·.use_count)

theorem uses_eq (he : p.elements[e]? = some el) : p.uses e = el.use_count := by
  simp [uses, he]

theorem uses_set (he : p.elements[e]? = some el) (hp : p'.elements = p.elements.set e el') :
    p'.uses j = if e = j then el'.use_count else p.uses j := by
  obtain ⟨hlt, _⟩ := List.getElem?_eq_some_iff.mp he
  simp only [uses, hp, List.getElem?_set]
  split <;> simp_all

theorem uses_append (hp : p'.elements = p.elements ++ [el]) (hu : el.use_count = 1) :
    p'.uses j = p.uses j + [some p.elements.length].count (some j) := by
  simp only [uses, hp, List.getElem?_append, List.count_singleton, beq_iff_eq, Option.some.injEq]
  split
  case isTrue hj  => simp [hj.ne']
  case isFalse hj =>
    rw [List.getElem?_eq_none (not_lt.mp hj)]
    obtain rfl | hne := eq_or_ne p.elements.length j
    · simp [hu]
    · rw [List.getElem?_eq_none (by simp; omega)]
      simp [hne]

namespace Lent

theorem copyPtr (hl : Lent s t p hand) (hc : p.copyPtr m ptr = some p') :
    Lent s t p' hand ∧ ∀ j, p'.uses j = p.uses j + [ptr].count (some j) := by
  cases ptr
  case none   => exact Option.some.inj hc ▸ ⟨hl, by simp⟩
  case some e =>
    refine ⟨hl.copy (m := m) hc, fun j => ?_⟩
    obtain ⟨el, he, _, rfl⟩ := copy_eq (m := m) hc
    rw [uses_set he rfl]
    simp only [List.count_singleton, beq_iff_eq, Option.some.injEq]
    split <;> simp_all [uses]

theorem reset (hl : Lent s t p hand) (hr : p.reset m ptr = some p') :
    Lent s t p' hand ∧ ∀ j, p'.uses j + [ptr].count (some j) = p.uses j := by
  cases ptr
  case none   => exact Option.some.inj hr ▸ ⟨hl, by simp⟩
  case some e =>
    refine ⟨hl.release hr, fun j => ?_⟩
    obtain ⟨el, he⟩ := exists_of_release hr
    simp only [List.count_singleton, beq_iff_eq, Option.some.injEq]
    obtain ⟨hu, rfl⟩ | ⟨hu, _, _, rfl⟩ := release_cases he (hl.settled el (List.mem_of_getElem? he)) hr
    all_goals
      rw [uses_set he rfl]
      split
      case isTrue hj  =>
        rw [← hj, uses_eq he]
        simp only
        omega
      case isFalse hj => simp

theorem copyAll (hl : Lent s t p hand) (hc : ptrs.foldlM (MemPoolIPC.copyPtr m) p = some p') :
    Lent s t p' hand ∧ ∀ j, p'.uses j = p.uses j + ptrs.count (some j) := by
  induction ptrs generalizing p
  case nil => exact Option.some.inj hc ▸ ⟨hl, by simp⟩
  case cons ptr ptrs ih =>
    rw [List.foldlM_cons] at hc
    obtain ⟨p₁, h₁, h₂⟩ := Option.bind_eq_some_iff.mp hc
    obtain ⟨hl₁, hu₁⟩ := hl.copyPtr h₁
    obtain ⟨hl₂, hu₂⟩ := ih hl₁ h₂
    refine ⟨hl₂, fun j => ?_⟩
    rw [hu₂, hu₁]
    simp only [List.count_cons, List.count_nil]
    omega

theorem resetAll (hl : Lent s t p hand) (hr : ptrs.foldlM (MemPoolIPC.reset m) p = some p') :
    Lent s t p' hand ∧ ∀ j, p'.uses j + ptrs.count (some j) = p.uses j := by
  induction ptrs generalizing p
  case nil => exact Option.some.inj hr ▸ ⟨hl, by simp⟩
  case cons ptr ptrs ih =>
    rw [List.foldlM_cons] at hr
    obtain ⟨p₁, h₁, h₂⟩ := Option.bind_eq_some_iff.mp hr
    obtain ⟨hl₁, hu₁⟩ := hl.reset h₁
    obtain ⟨hl₂, hu₂⟩ := ih hl₁ h₂
    refine ⟨hl₂, fun j => ?_⟩
    have h₁ := hu₁ j
    have h₂ := hu₂ j
    simp only [List.count_cons, List.count_nil] at h₁ ⊢
    omega

theorem handOver (hl : Lent s t p hand) (hh : p.handOver m h = some p') :
    Lent s t p' hand ∧ ∀ j, p'.uses j + h.released.count (some j) = p.uses j + h.copied.count (some j) := by
  obtain ⟨p₁, h₁, h₂⟩ := Option.bind_eq_some_iff.mp hh
  obtain ⟨hl₁, hu₁⟩ := hl.copyAll h₁
  obtain ⟨hl₂, hu₂⟩ := hl₁.resetAll h₂
  exact ⟨hl₂, fun j => by rw [hu₂, hu₁]⟩

end Lent
end IPC.MemPoolIPC

namespace RouterIPC.Call

variable {α : Type*} {l : Call α}

theorem locals_of_starts (h : l.starts) : l.locals = [] := by
  cases l <;> simp only [locals]
  case receiver s => cases s <;> simp_all [starts]

-- A call that has returned has no variables, and no pointer to a pipe.
theorem done_of_returned (h : l.returned) : l.locals = [] ∧ l.handle = none := by
  cases l <;> simp only [returned] at h
  case send s         => cases hp : s.pc <;> simp_all [locals, handle]
  case receiver s     => cases s <;> simp_all [locals, handle]
  case shutdown s     => cases s <;> simp_all [locals, handle]
  case numReceivers s => cases s <;> simp_all [locals, handle]

end RouterIPC.Call

namespace IPC.PooledRouter

variable {segment : ℕ} {p : MemPoolIPC} {s t : AllocatorState} {c : Config segment} {i : ℕ} {x : Choice}
variable {a a' : Party segment} {σ σ' : PooledRouter} {m : Mapping segment}

namespace Party

def Pc.ptrs : Pc → List (Option ℕ)
  | .making (.returned ptr) => [ptr]
  | .routing l              => l.ptrs
  | _                       => []

def Pc.borrowed : Pc → Option (Option ℕ)
  | .routing l => l.borrowed
  | _          => none

theorem Pc.borrowed_of_between {pc : Pc} (h : pc.between) : pc.borrowed = none := by
  cases pc
  case routing l =>
    cases l
    case receiver s => cases s <;> simp_all [between, borrowed, RouterIPC.Call.borrowed]
    all_goals simp [between] at h
  all_goals rfl

-- The variables of a party and of the call that it is in.
def ptrs (a : Party segment) : List (Option ℕ) :=
  a.ptr :: a.pc.ptrs

-- The position of the block of which the party makes an element.
def inHand (a : Party segment) : Option SizeT :=
  match a.pc with
  | .making c => c.inHand.map (· - a.m.base)
  | _         => none

def holding (a : Party segment) (k : ℕ) : ℕ :=
  match a.pc with
  | .routing l => l.holding k
  | _          => 0

end Party

-- The number of variables and of slots of pipes with a pointer to an element.
def holders (c : Config segment) (e : ℕ) : ℕ :=
  (c.places (·.router.slots) Party.ptrs).count (some e)

def hand (s : AllocatorState) (c : Config segment) : List SizeT :=
  (c.held Party.inHand).map (· - s.objects_alignedPtr)

structure Kept (s t : AllocatorState) (c : Config segment) : Prop where
  lent   : MemPoolIPC.Lent s t c.shared.pool (hand s c)
  exact  : Exact c.shared.pool.uses (c.places (·.router.slots) Party.ptrs)
  own    : ∀ a ∈ c.calls, a.pc.borrowed.isSome → a.ptr = none
  strong : ∀ k, c.total (·.holding k) = c.shared.router.strong k
  shaped : c.shared.router.Shaped

namespace Kept

theorem init {memory : Memory segment} {layout : Layout} {n count : SizeT}
    (hn : MemPoolIPC.new memory layout n count = .ok p) :
    Kept p.myObjectAllocator p.myControlBlockAllocator (⟨⟨p, .new⟩, [], []⟩ : Config segment) := by
  obtain ⟨_, _, _, _, he⟩ := MemPoolIPC.new_eq_ok hn
  constructor
  case lent   => exact MemPoolIPC.lent_of_new hn
  case exact  => exact fun e => by simp [MemPoolIPC.uses, he, Program.Config.places, RouterIPC.slots, RouterIPC.new]
  case own    => simp
  case strong => exact fun k => by simp [Program.Config.total, RouterIPC.strong, RouterIPC.new]
  case shaped => exact fun k e he => by simp [RouterIPC.new] at he

theorem enter (h : Kept s t c) (ha : a.starts) : Kept s t (c.enter a) := by
  obtain ⟨m, ptr, pc⟩ := a
  obtain ⟨rfl, rfl⟩ : ptr = none ∧ pc = .idle := of_decide_eq_true ha
  constructor
  case lent   =>
    refine h.lent.congr ?_
    simp [hand, Program.Config.held_enter, Party.inHand]
  case exact  => exact h.exact.congr fun e => Program.Config.count_places_enter e rfl
  case own    =>
    intro a' hm
    obtain hm | hm := List.mem_append.mp hm
    · exact h.own a' hm
    · exact fun _ => List.mem_singleton.mp hm ▸ rfl
  case strong => exact fun k => by simpa [Party.holding] using h.strong k
  case shaped => exact h.shaped

-- What a step has to provide.
theorem after (ho : Handover ℕ) (h : Kept s t c) (hl : c.calls[i]? = some a)
    (hlent : MemPoolIPC.Lent s t σ'.pool (hand s (c.after i a σ' a')))
    (hu : ∀ e, σ'.pool.uses e + ho.released.count (some e) = c.shared.pool.uses e + ho.copied.count (some e))
    (hm : ho.Moves (a.ptrs ++ c.shared.router.slots) (a'.ptrs ++ σ'.router.slots))
    (hown : a'.pc.borrowed.isSome → a'.ptr = none)
    (hst : ∀ k, c.shared.router.strong k + a'.holding k = σ'.router.strong k + a.holding k)
    (hsh : σ'.router.Shaped) : Kept s t (c.after i a σ' a') where
  lent   := hlent
  exact  := h.exact.hand_over (Program.Config.moves_after hl hm) hu
  own    := by
    intro a₁ hm
    obtain hm | rfl := List.mem_or_eq_of_mem_set hm
    · exact h.own a₁ hm
    · exact hown
  strong := by
    intro k
    have h₁ := c.total_after (·.holding k) σ' a' hl
    have h₂ := h.strong k
    have h₃ := hst k
    simp only [Program.Config.after_shared]
    omega
  shaped := hsh

theorem hand_perm (hl : c.calls[i]? = some a) (hh : a'.inHand = a.inHand) :
    (hand s (c.after i a σ' a')).Perm (hand s c) :=
  (Program.Config.held_after_of_eq hl hh).map _

-- A step that only moves pointers between places.
theorem hand_over {ho : Handover ℕ} {p' : MemPoolIPC} {r' : RouterIPC ℕ} (h : Kept s t c)
    (hl : c.calls[i]? = some a) (hp : c.shared.pool.handOver m ho = some p')
    (hm : ho.Moves (a.ptrs ++ c.shared.router.slots) (a'.ptrs ++ r'.slots))
    (hh : a'.inHand = a.inHand) (hown : a'.pc.borrowed.isSome → a'.ptr = none)
    (hst : ∀ k, c.shared.router.strong k + a'.holding k = r'.strong k + a.holding k) (hsh : r'.Shaped) :
    Kept s t (c.after i a ⟨p', r'⟩ a') := by
  obtain ⟨hlent, hu⟩ := h.lent.handOver hp
  exact h.after ho hl (hlent.congr (hand_perm hl hh)) hu hm hown hst hsh

-- A step that does not touch anything that is shared.
theorem stay (h : Kept s t c) (hl : c.calls[i]? = some a)
    (hm : ∀ e, a'.ptrs.count (some e) = a.ptrs.count (some e)) (hh : a'.inHand = a.inHand)
    (hown : a'.pc.borrowed.isSome → a'.ptr = none) (hst : ∀ k, a'.holding k = a.holding k) :
    Kept s t (c.after i a c.shared a') := by
  refine h.after {} hl (h.lent.congr (hand_perm hl hh)) (fun _ => rfl) ?_ hown ?_ h.shaped
  · exact .of_count rfl fun e => by simp [hm e]
  · exact fun k => by rw [hst k]

-- A call of `make_pooled` has the block that it has taken in its hand until there is an element in it.
theorem making {c₁ c₂ : MemPoolIPC.MakePooled} {p' : MemPoolIPC} (h : Kept s t c) (hl : c.calls[i]? = some a)
    (ha : a.pc = .making c₁) (hst : MemPoolIPC.MakePooled.Next a.m c.shared.pool c₁ p' c₂) :
    Kept s t (c.after i a { c.shared with pool := p' } { a with pc := .making c₂ }) := by
  obtain ⟨m, ptr, pc⟩ := a
  obtain rfl : pc = .making c₁ := ha
  cases hst
  case empty =>
    refine h.stay hl (fun e => ?_) rfl (by simp [Party.Pc.borrowed]) fun _ => rfl
    simp [Party.ptrs, Party.Pc.ptrs, List.count_cons]
  case construct | crash => exact h.stay hl (fun _ => rfl) rfl (by simp [Party.Pc.borrowed]) fun _ => rfl
  case take ptr' b hb =>
    have hp := Program.Config.held_after Party.inHand
      { c.shared with pool := { c.shared.pool with myObjectAllocator := b } }
      ⟨m, ptr, .making (.constructing ptr')⟩ hl
    refine h.after {} hl ((h.lent.loan hb).congr ?_) (fun _ => rfl) ?_ (by simp [Party.Pc.borrowed])
      (fun _ => rfl) h.shaped
    · rw [AllocatorState.offsetOf_eq]
      exact hp.map _
    · exact .of_count rfl fun _ => rfl
  case pool ptr' control b hb =>
    have hp := Program.Config.held_after Party.inHand
      { c.shared with pool := { c.shared.pool with myControlBlockAllocator := b } }
      ⟨m, ptr, .making (.returned (some c.shared.pool.elements.length))⟩ hl
    refine h.after { copied := [some c.shared.pool.elements.length] } hl ?_ ?_ ?_
      (by simp [Party.Pc.borrowed]) (fun _ => rfl) h.shaped
    · refine MemPoolIPC.Lent.pool (h.lent.congr ?_) hb
      rw [AllocatorState.offsetOf_eq]
      exact hp.map (· - s.objects_alignedPtr)
    · exact fun e => MemPoolIPC.uses_append rfl rfl
    · intro e
      simp only [Party.ptrs, Party.Pc.ptrs, List.count_append, List.count_cons, List.count_nil]
      omega

theorem entered (h : Kept s t c) (hl : c.calls[i]? = some a) (ha : a.pc = .idle) :
    Kept s t (c.after i a c.shared { a with pc := .making .entered }) := by
  obtain ⟨m, ptr, pc⟩ := a
  obtain rfl : pc = .idle := ha
  exact h.stay hl (fun _ => rfl) rfl (by simp [Party.Pc.borrowed]) fun _ => rfl

-- The variable gets the element that has been made, instead of the one that was there.
theorem made {ptr : Option ℕ} {p' : MemPoolIPC} (h : Kept s t c) (hl : c.calls[i]? = some a)
    (ha : a.pc = .making (.returned ptr)) (hp : c.shared.pool.handOver a.m { released := [a.ptr] } = some p') :
    Kept s t (c.after i a { c.shared with pool := p' } { a with ptr, pc := .idle }) := by
  obtain ⟨m, ptr', pc⟩ := a
  obtain rfl : pc = .making (.returned ptr) := ha
  refine h.hand_over hl hp ?_ rfl (by simp [Party.Pc.borrowed]) (fun _ => rfl) h.shaped
  intro e
  simp [Party.ptrs, Party.Pc.ptrs, List.count_cons]

-- Between two calls, the variable can be assigned any pointer to an element that there still is.
theorem assigned {ptr : Option ℕ} {p' : MemPoolIPC} (h : Kept s t c) (hl : c.calls[i]? = some a)
    (ha : a.pc.between) (hp : c.shared.pool.handOver a.m { copied := [ptr], released := [a.ptr] } = some p') :
    Kept s t (c.after i a { c.shared with pool := p' } { a with ptr }) := by
  refine h.hand_over hl hp ?_ rfl (by simp [Party.Pc.borrowed_of_between ha]) (fun _ => rfl) h.shaped
  intro e
  simp [Party.ptrs, List.count_cons]
  omega

-- A call on the router gets the variable, or it does not.
theorem called {l : RouterIPC.Call ℕ} {ptr : Option ℕ} (h : Kept s t c) (hl : c.calls[i]? = some a)
    (ha : a.pc = .idle) (hs : l.starts) (hb : lend a.ptr none l.borrowed = some ptr) :
    Kept s t (c.after i a c.shared { a with ptr, pc := .routing l }) := by
  obtain ⟨m, ptr', pc⟩ := a
  obtain rfl : pc = .idle := ha
  refine h.stay hl ?_ rfl (eq_none_of_lend hb (by simp)) ?_
  · intro e
    have := count_lend hb e
    simp only [Party.ptrs, Party.Pc.ptrs, RouterIPC.Call.ptrs, RouterIPC.Call.locals_of_starts hs,
      List.append_nil]
    exact this
  · intro k
    simp [Party.holding, RouterIPC.Call.holding, RouterIPC.Call.handle_of_starts hs]

theorem returned {l : RouterIPC.Call ℕ} {ptr : Option ℕ} (h : Kept s t c) (hl : c.calls[i]? = some a)
    (ha : a.pc = .routing l) (hr : l.returned) (hb : lend a.ptr l.borrowed none = some ptr) :
    Kept s t (c.after i a c.shared { a with ptr, pc := .idle }) := by
  obtain ⟨m, ptr', pc⟩ := a
  obtain rfl : pc = .routing l := ha
  refine h.stay hl ?_ rfl (by simp [Party.Pc.borrowed]) ?_
  · intro e
    have := count_lend_back hb (h.own _ (List.mem_of_getElem? hl)) e
    simp only [Party.ptrs, Party.Pc.ptrs, RouterIPC.Call.ptrs, (RouterIPC.Call.done_of_returned hr).left,
      List.append_nil]
    exact this
  · intro k
    simp [Party.holding, RouterIPC.Call.holding, (RouterIPC.Call.done_of_returned hr).right]

theorem routed {l l' : RouterIPC.Call ℕ} {r' : RouterIPC ℕ} {x : RouterIPC.Choice ℕ} {ptr : Option ℕ} {p' : MemPoolIPC}
    (h : Kept s t c) (hl : c.calls[i]? = some a)
    (ha : a.pc = .routing l) (hs : l.step x c.shared.router = some (r', l'))
    (hb : lend a.ptr l.borrowed l'.borrowed = some ptr)
    (hp : c.shared.pool.handOver a.m (l.handover x c.shared.router) = some p') :
    Kept s t (c.after i a ⟨p', r'⟩ { a with ptr, pc := .routing l' }) := by
  have hk : ∀ k, l.holding k ≤ c.shared.router.strong k := by
    intro k
    rw [← h.strong]
    have := c.le_total (w := (·.holding k)) hl
    simp only [Party.holding, ha] at this
    exact this
  have hk' : ∀ k, l.handle = some k → 0 < c.shared.router.strong k := by
    intro k he
    have := hk k
    simp only [RouterIPC.Call.holding, he, if_true] at this
    exact this
  have ho := h.own a (List.mem_of_getElem? hl)
  obtain ⟨m, ptr', pc⟩ := a
  obtain rfl : pc = .routing l := ha
  have hg := RouterIPC.grip (x := x) hs
  refine h.hand_over hl hp ?_ rfl (eq_none_of_lend hb ho) (fun k => hg.strong_eq (hk k)) (h.shaped.grip hg)
  exact RouterIPC.Call.moves h.shaped hk' ho hb hs

theorem next (h : Kept s t c) (hl : c.calls[i]? = some a) (hs : a.step x c.shared = some (σ', a')) :
    Kept s t (c.after i a σ' a') := by
  unfold Party.step at hs
  split at hs
  case h_1 ptr _ =>
    obtain ⟨hb, hs⟩ := Option.ite_none_right_eq_some.mp hs
    obtain ⟨p', hp, hs⟩ := Option.map_eq_some_iff.mp hs
    obtain ⟨rfl, rfl⟩ := Prod.mk.inj hs
    exact h.assigned hl hb hp
  case h_2 =>
    obtain ⟨hb, hs⟩ := Option.ite_none_right_eq_some.mp hs
    obtain ⟨rfl, rfl⟩ := Prod.mk.inj (Option.some.inj hs)
    exact h.entered hl hb
  case h_3 l _ =>
    obtain ⟨⟨hb, hst⟩, hs⟩ := Option.ite_none_right_eq_some.mp hs
    obtain ⟨ptr, hp, hs⟩ := Option.map_eq_some_iff.mp hs
    obtain ⟨rfl, rfl⟩ := Prod.mk.inj hs
    exact h.called hl hb hst hp
  case h_4 =>
    split at hs
    case h_1 => cases hs
    case h_2 hp =>
      obtain ⟨p', hh, hs⟩ := Option.map_eq_some_iff.mp hs
      obtain ⟨rfl, rfl⟩ := Prod.mk.inj hs
      exact h.made hl hp hh
    case h_3 hp =>
      obtain ⟨⟨p', c'⟩, hst, hs⟩ := Option.map_eq_some_iff.mp hs
      obtain ⟨rfl, rfl⟩ := Prod.mk.inj hs
      exact h.making hl hp (MemPoolIPC.MakePooled.next_of_step hst)
    case h_4 hp =>
      split at hs
      case isTrue hr =>
        obtain ⟨ptr, hb, hs⟩ := Option.map_eq_some_iff.mp hs
        obtain ⟨rfl, rfl⟩ := Prod.mk.inj hs
        exact h.returned hl hp hr hb
      case isFalse =>
        obtain ⟨⟨r', l'⟩, hst, hs⟩ := Option.bind_eq_some_iff.mp hs
        obtain ⟨ptr, hb, hs⟩ := Option.bind_eq_some_iff.mp hs
        obtain ⟨p', hh, hs⟩ := Option.map_eq_some_iff.mp hs
        obtain ⟨rfl, rfl⟩ := Prod.mk.inj hs
        exact h.routed hl hp hst hb hh

end Kept

variable {memory : Memory segment} {layout : Layout} {n count : SizeT}

theorem kept (hn : MemPoolIPC.new memory layout n count = .ok p) (h : (system segment p).Reachable c) :
    Kept p.myObjectAllocator p.myControlBlockAllocator c := by
  refine Program.invariant (I := Kept p.myObjectAllocator p.myControlBlockAllocator) ?_ ?_ ?_ |>.holds h
  · rintro _ rfl
    exact .init hn
  · exact fun _ h hs => h.enter hs
  · exact fun _ h hl hs => h.next hl hs

-- What there is of the pool's blocks, and of pointers to its elements. `s` is the pool of objects when it was
-- set up.
structure Conserved (s : AllocatorState) (c : Config segment) : Prop where
  use_count : ∀ (e : ℕ) el, c.shared.pool.elements[e]? = some el → el.use_count = holders c e
  known     : ∀ e, 0 < holders c e → e < c.shared.pool.elements.length
  distinct  : ∀ (e₁ e₂ : ℕ) el₁ el₂, c.shared.pool.elements[e₁]? = some el₁ → c.shared.pool.elements[e₂]? = some el₂ →
    0 < holders c e₁ → 0 < holders c e₂ → el₁.object = el₂.object → e₁ = e₂
  free_iff  : ∀ o ∈ s.blocks, o ∈ c.shared.pool.myObjectAllocator.free ↔ o ∉ hand s c ∧
    ∀ (e : ℕ) el, c.shared.pool.elements[e]? = some el → el.object - s.objects_alignedPtr = o → holders c e = 0
  available : c.shared.pool.myObjectAllocator.nAvailable.toNat + (hand s c).length +
    (List.range c.shared.pool.elements.length).countP (0 < holders c ·) = s.nElementsTotal.toNat

namespace Kept

theorem use_count (h : Kept s t c) {e : ℕ} {el : Element} (he : c.shared.pool.elements[e]? = some el) :
    el.use_count = holders c e := by
  rw [← MemPoolIPC.uses_eq he]
  exact h.exact e

theorem owned_iff (h : Kept s t c) {e : ℕ} {el : Element} (he : c.shared.pool.elements[e]? = some el) :
    el.phase = .owned ↔ 0 < holders c e := by
  rw [← h.use_count he]
  obtain ⟨_, ⟨hu, hp⟩ | ⟨hu, hp⟩⟩ := h.lent.settled el (List.mem_of_getElem? he) <;> simp [hu, hp]

theorem mem_lent (h : Kept s t c) {o : SizeT} : o ∈ c.shared.pool.lent (·.object - s.objects_alignedPtr) ↔
    ∃ (e : ℕ) (el : Element), c.shared.pool.elements[e]? = some el ∧ 0 < holders c e ∧
      el.object - s.objects_alignedPtr = o := by
  simp only [MemPoolIPC.lent, List.mem_filterMap, Option.ite_none_right_eq_some, Option.some.injEq]
  constructor
  · rintro ⟨el, hm, hp, ho⟩
    obtain ⟨e, he⟩ := List.getElem?_of_mem hm
    exact ⟨e, el, he, (h.owned_iff he).mp hp, ho⟩
  · rintro ⟨e, el, he, hp, ho⟩
    exact ⟨el, List.mem_of_getElem? he, (h.owned_iff he).mpr hp, ho⟩

-- The elements that somebody has a pointer to are those that have not been returned.
theorem owned_eq (h : Kept s t c) :
    c.shared.pool.owned = (List.range c.shared.pool.elements.length).countP (0 < holders c ·) := by
  have hr : (List.range c.shared.pool.elements.length).map (c.shared.pool.elements[·]?) =
      c.shared.pool.elements.map some := by
    refine List.ext_getElem? fun e => ?_
    by_cases he : e < c.shared.pool.elements.length <;> simp [he]
  have hc := congrArg (List.countP (·.any (Element.phase · = .owned))) hr
  rw [List.countP_map, List.countP_map] at hc
  refine hc.symm.trans (List.countP_congr fun e he => ?_)
  have he := List.getElem?_eq_getElem (List.mem_range.mp he)
  simpa [he] using h.owned_iff he

theorem conserved_of_laid (h : Kept s t c) (hl : AllocatorState.Laid segment s) : Conserved s c := by
  have hlist := h.lent.objects.list
  have hout := (hlist.nodup hl.blocks_nodup).of_append_right
  constructor
  case use_count => exact fun e el he => h.use_count he
  case known     =>
    intro e he
    by_contra hn
    have := h.exact e
    simp only [MemPoolIPC.uses, List.getElem?_eq_none (not_lt.mp hn), Option.elim_none] at this
    exact he.ne this
  case distinct  =>
    intro e₁ e₂ el₁ el₂ h₁ h₂ hp₁ hp₂ ho
    have hp := List.pairwise_filterMap.mp hout.of_append_right
    obtain ⟨hlt₁, rfl⟩ := List.getElem?_eq_some_iff.mp h₁
    obtain ⟨hlt₂, rfl⟩ := List.getElem?_eq_some_iff.mp h₂
    have hw₁ := (h.owned_iff h₁).mpr hp₁
    have hw₂ := (h.owned_iff h₂).mpr hp₂
    have ho := congrArg (· - s.objects_alignedPtr) ho
    obtain hlt | heq | hlt := lt_trichotomy e₁ e₂
    · exact absurd ho (List.pairwise_iff_getElem.mp hp e₁ e₂ hlt₁ hlt₂ hlt _ (if_pos hw₁) _ (if_pos hw₂))
    · exact heq
    · exact absurd ho.symm (List.pairwise_iff_getElem.mp hp e₂ e₁ hlt₂ hlt₁ hlt _ (if_pos hw₂) _ (if_pos hw₁))
  case free_iff  =>
    intro o ho
    rw [AllocatorState.free, hlist.mem_take_iff hl.blocks_nodup ho, List.mem_append, not_or, h.mem_lent]
    refine and_congr_right fun _ => ?_
    constructor
    · exact fun hn e el he hel => Nat.eq_zero_of_not_pos fun hp => hn ⟨e, el, he, hp, hel⟩
    · rintro hn ⟨e, el, he, hp, hel⟩
      exact hp.ne' (hn e el he hel)
  case available =>
    have : c.shared.pool.myObjectAllocator.nAvailable.toNat + _ = _ := hlist.top_add_length
    rw [List.length_append, MemPoolIPC.lent_length, h.owned_eq, AllocatorState.blocks, List.length_map,
      List.length_range] at this
    omega

end Kept

theorem conserved (hn : MemPoolIPC.new memory layout n count = .ok p) (hf : Fits layout n count) (hc : 0 < count)
    (hT : 0 < layout.sizeT) (h : (system segment p).Reachable c) : Conserved p.myObjectAllocator c :=
  (kept hn h).conserved_of_laid (AllocatorState.laid hc hT hf.left (MemPoolIPC.new_eq_ok hn).right.left).left

-- A process makes an element, sends it, and resets its own pointer. The receiver never takes the element
-- out of its pipe, and it is the end of the pipe that returns the element to the pool.
theorem conserved_run : ∃ p, MemPoolIPC.new MemPoolIPC.smallMemory MemPoolIPC.smallLayout 1 1 = .ok p ∧
    ∃ c : Config 4096, (c.shared.pool.elements.map (·.phase) = [.destroyed] ∧
      c.shared.pool.myObjectAllocator.nAvailable = 1) ∧ Conserved p.myObjectAllocator c := by
  have ⟨p, hp⟩ : ∃ p, MemPoolIPC.new MemPoolIPC.smallMemory MemPoolIPC.smallLayout 1 1 = .ok p := ⟨_, rfl⟩
  have ⟨c, hr, hq⟩ : ∃ c, ((system 4096 p).restrict fun _ _ => True).Reachable c ∧
      c.shared.pool.elements.map (·.phase) = [.destroyed] ∧ c.shared.pool.myObjectAllocator.nAvailable = 1 := by
    obtain rfl := Except.ok.inj hp
    exact Program.exec_reachable rfl <| show Option.any _ (System.exec _ _ _ [
      .enter { m := MemPoolIPC.low.m }, .run 0 { act := some (.call (.receiver (.registering 1))) }, .run 0 {},
      .run 0 {},
      .enter { m := MemPoolIPC.high.m }, .run 1 { act := some .make }, .run 1 {}, .run 1 {}, .run 1 {}, .run 1 {},
      .run 1 { act := some (.call (.send { ptr := some 0 })) }, .run 1 {}, .run 1 {}, .run 1 {}, .run 1 {}, .run 1 {},
      .run 1 {}, .run 1 {}, .run 1 {}, .run 1 {}, .run 1 {}, .run 1 { act := some (.assign none) },
      .run 0 {}]) by decide +kernel
  exact ⟨p, hp, c, hq, conserved hp (by decide) (by decide) (by decide) hr.of_restrict⟩

end IPC.PooledRouter
