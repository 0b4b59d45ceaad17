import InterprocessMemPool.MempoolIPC.MemPoolGrower.Theorems.Growth

namespace IPC

-- The blocks of both pools: the free ones, the ones of which calls make elements, and those of the
-- elements that have not been returned are all there are, and no two of them are the same.
structure MemPoolIPC.Returned (hand : List SizeT) (p : MemPoolIPC) : Prop where
  settled  : ∀ el ∈ p.elements, el.Settled
  objects  : (p.myObjectAllocator.free ++ (hand ++ p.lent (·.object)).map
    (· - p.myObjectAllocator.objects_alignedPtr)).Perm p.myObjectAllocator.blocks
  controls : (p.myControlBlockAllocator.free ++ (p.lent (·.control)).map
    (· - p.myControlBlockAllocator.objects_alignedPtr)).Perm p.myControlBlockAllocator.blocks
  distinct : p.myObjectAllocator.blocks.Nodup ∧ p.myControlBlockAllocator.blocks.Nodup

namespace Generation.Sound

open MemPoolIPC

variable {segment : ℕ} {layout : Layout} {count : SizeT} {current : Bool} {hand : List SizeT}
variable {gen : Generation}

theorem returned (h : gen.Sound segment layout count current hand) (hT : 0 < layout.sizeT)
    (hControl : 0 < layout.sizeControl) (hc : 0 < count) : gen.pool.Returned hand := by
  have ⟨memory, p, hn, hl⟩ := h.lent
  have ⟨hcontrols, hobjects, _⟩ := new_eq_ok hn
  have hblocks {s a : AllocatorState} {out : List SizeT} (hs : s.Sound ⟨a, out⟩) : a.blocks = s.blocks := by
    have he : a = _ := hs.eq
    rw [he]
    rfl
  have hbase {s a : AllocatorState} {out : List SizeT} (hs : s.Sound ⟨a, out⟩) :
      a.objects_alignedPtr = s.objects_alignedPtr :=
    hs.objects_eq
  constructor
  case settled  => exact hl.settled
  case objects  =>
    rw [hblocks hl.objects, hbase hl.objects, List.map_append, ← lent_sub]
    exact hl.objects.list.perm
  case controls =>
    rw [hblocks hl.controls, hbase hl.controls, ← lent_sub]
    exact hl.controls.list.perm
  case distinct =>
    rw [hblocks hl.objects, hblocks hl.controls]
    have hlaid := AllocatorState.laid hc hT h.fits.left hobjects
    have hlaid' := AllocatorState.laid Nat.one_pos hControl (by simpa using h.fits.right.left) hcontrols
    exact ⟨hlaid.left.blocks_nodup, hlaid'.left.blocks_nodup⟩

theorem owned_eq_zero_iff (h : gen.Sound segment layout count current hand) :
    gen.pool.owned = 0 ↔ ∀ el ∈ gen.pool.elements, el.use_count = 0 := by
  have ⟨_, _, _, hl⟩ := h.lent
  rw [owned, List.countP_eq_zero]
  refine forall₂_congr fun el hm => ?_
  obtain ⟨_, ⟨hu, hp⟩ | ⟨hu, hp⟩⟩ := hl.settled el hm <;> simp [hp, hu]
  omega

-- A generation is freed as soon as it is not the grower's pool and none of its elements is in use.
theorem freed_iff (h : gen.Sound segment layout count current hand) :
    gen.freed ↔ current = false ∧ ∀ el ∈ gen.pool.elements, el.use_count = 0 := by
  rw [h.freed, h.use_count, ← h.owned_eq_zero_iff, Nat.add_eq_zero_iff, Bool.toNat_eq_zero]

theorem bytes_of_freed (h : gen.Sound segment layout count current hand) (hf : gen.freed) :
    gen.bytes layout count = [] := by
  have ho := h.owned_eq_zero_iff.mpr (h.freed_iff.mp hf).right
  have hz (f : Element → SizeT) : gen.pool.lent f = [] := List.eq_nil_of_length_eq_zero <| by rw [lent_length, ho]
  simp [Generation.bytes, spans, hz]

end Generation.Sound

namespace MemPoolGrowerIPC

variable {segment : ℕ} {layout : Layout} {count n : SizeT} {p : MemPoolIPC} {c : Config segment}
variable {memory : Memory segment}

-- The step has left the generations alone, so also the pool.
def Unchanged (r : Program.Record MemPoolGrowerIPC (Call segment)) : Prop :=
  r.post.1.generations = r.pre.1.generations ∧ r.post.1.pool = r.pre.1.pool ∧
    r.post.1.nReconstructions = r.pre.1.nReconstructions

-- Elements that live at the same time do not overlap, whatever generations they are of.
structure Separated (layout : Layout) (count : SizeT) (c : Config segment) : Prop where
  answered : ∀ {m : Mapping segment} {c₀ : MakePooled}, .makePooled m c₀ ∈ c.calls → ¬c₀.failed
  disjoint : (c.shared.generations.flatMap (Generation.bytes layout count)).Pairwise Disjoint
  returned : ∀ {k : ℕ} {gen : Generation}, c.shared.generations[k]? = some gen →
    gen.pool.Returned (hand c k)
  freed    : ∀ {k : ℕ} {gen : Generation}, c.shared.generations[k]? = some gen →
    (gen.freed ↔ k ≠ c.shared.pool ∧ ∀ el ∈ gen.pool.elements, el.use_count = 0)
  threw    : ∀ {i : ℕ} {m : Mapping segment}, c.calls[i]? = some (.makePooled m .threw) →
    ∀ r ∈ c.recordsOf i, Unchanged r

theorem Kept.disjoint (h : Kept layout count c) (hT : 0 < layout.sizeT) (hControl : 0 < layout.sizeControl)
    (hc : 0 < count) : (c.shared.generations.flatMap (Generation.bytes layout count)).Pairwise Disjoint := by
  have ⟨hin, hbetween⟩ := List.pairwise_flatMap.mp h.apart
  have hbytes (gen : Generation) (hm : gen ∈ c.shared.generations) : (gen.bytes layout count).Pairwise Disjoint ∧
      ∀ bytes ∈ gen.bytes layout count,
        ∃ b ∈ (if gen.freed then [] else gen.pool.buffers), b.Covers bytes := by
    have ⟨k, hk⟩ := List.getElem?_of_mem hm
    have hin := hin gen hm
    by_cases hf : gen.freed
    case pos => simp [(h.sound hk).bytes_of_freed hf]
    case neg =>
      rw [if_neg hf] at hin ⊢
      exact (h.sound hk).bytes hT hControl hc hin
  refine List.pairwise_flatMap.mpr ⟨fun gen hm => (hbytes gen hm).left, hbetween.imp_of_mem ?_⟩
  intro gen gen' hm hm' hapart bytes hb bytes' hb'
  have ⟨b, hmb, hcov⟩ := (hbytes gen hm).right bytes hb
  have ⟨b', hmb', hcov'⟩ := (hbytes gen' hm').right bytes' hb'
  exact (hapart b hmb b' hmb').disjoint hcov hcov'

-- A call whose pool was empty has changed nothing until it has constructed another one.
def Steady (l : Call segment) (rs : List (Program.Record MemPoolGrowerIPC (Call segment))) : Prop :=
  match l with
  | .makePooled _ (.pooling true c) => c = .entered ∨ c = .returned none → ∀ r ∈ rs, Unchanged r
  | .makePooled _ (.pooling false _) | .makePooled _ (.returned _) | .makePooled _ .faulted => True
  | .makePooled _ _ => ∀ r ∈ rs, Unchanged r
  | _ => True

theorem steady {Init : MemPoolGrowerIPC → Prop} {i : ℕ} {l : Call segment}
    (h : ((program segment layout).system Init).Reachable c) (hl : c.calls[i]? = some l) :
    Steady l (c.recordsOf i) := by
  refine Program.local_invariant (J := Steady) ?_ ?_ h hl
  · intro l hs
    cases l
    case makePooled =>
      obtain rfl := of_decide_eq_true hs
      simp [Steady]
    all_goals trivial
  · intro i memory g l g' l' rs hJ hs
    have happend (hu : Unchanged ⟨i, (g, l), (g', l')⟩) (hrs : ∀ r ∈ rs, Unchanged r) :
        ∀ r ∈ rs ++ [⟨i, (g, l), (g', l')⟩], Unchanged r :=
      List.forall_mem_append.mpr ⟨hrs, List.forall_mem_singleton.mpr hu⟩
    cases l <;> simp only [program, Call.step, Option.map_eq_some_iff, reduceCtorEq] at hs
    case makePooled =>
      obtain ⟨⟨g, c₁⟩, hs, he⟩ := hs
      obtain ⟨rfl, rfl⟩ := Prod.mk.inj he
      cases MakePooled.next_of_step hs
      case lock => exact fun _ => happend ⟨rfl, rfl, rfl⟩ hJ
      case full => exact happend ⟨rfl, rfl, rfl⟩ (hJ (.inr rfl))
      case bad_alloc => exact happend ⟨rfl, rfl, rfl⟩ hJ
      case give | null | fault | grow => trivial
      case pool first c₁ c₂ gen p₁ hk hnext =>
        cases first
        case false => trivial
        case true =>
          intro hc
          cases hnext
          -- The pool that has no element for the call stays as it is.
          case empty =>
            refine happend ⟨?_, rfl, rfl⟩ (hJ (.inl rfl))
            obtain ⟨hlt, he⟩ := List.getElem?_eq_some_iff.mp hk
            have hset : g.generations.set g.pool gen = g.generations := by
              rw [← he]
              exact List.set_getElem_self hlt
            exact hset
          all_goals simp at hc
    case copy | release =>
      obtain ⟨g, _, he⟩ := hs
      obtain ⟨rfl, rfl⟩ := Prod.mk.inj he
      trivial

theorem generations_apart (hT : 0 < layout.sizeT) (hControl : 0 < layout.sizeControl) (hc : 0 < count)
    (hn : MemPoolIPC.new memory layout n count = .ok p) (hf : Fits layout n count)
    (hp : p.buffers.Pairwise (·.Apart ·))
    (h : ((system segment layout p).restrict (AllFit layout)).Reachable c) : Separated layout count c := by
  have hk := kept hc hn hf hp h
  constructor
  case answered => exact fun hm => hk.answered hm
  case disjoint => exact hk.disjoint hT hControl hc
  case returned => exact fun hg => (hk.sound hg).returned hT hControl hc
  case freed    =>
    intro k gen hg
    simpa using (hk.sound hg).freed_iff
  case threw    => exact fun hl => steady h.of_restrict hl

-- The memory that a pool of a segment of 8192 bytes is constructed in.
def memoryAt (position : SizeT) (h : position.toNat + 1024 ≤ 8192) : Memory 8192 :=
  have hp {k : ℕ} (hk : k < 1024) : (position + UInt64.ofNat k).toNat = position.toNat + k := by
    rw [UInt64.toNat_add, UInt64.toNat_ofNat_of_lt' (show k < 2 ^ 64 by omega), Nat.mod_eq_of_lt (by omega)]
  {
    controls        := .freeAt position 256 (by simp; omega)
    controlPointers := .freeAt (position + UInt64.ofNat 256) 256 (by rw [hp (by omega)]; simp; omega)
    objects         := .freeAt (position + UInt64.ofNat 512) 256 (by rw [hp (by omega)]; simp; omega)
    objectPointers  := .freeAt (position + UInt64.ofNat 768) 256 (by rw [hp (by omega)]; simp; omega) }

theorem exists_of_any {ε α : Type*} {x : Except ε α} {q r : α → Prop} [DecidablePred q] [DecidablePred r]
    (h : x.toOption.any fun a => q a ∧ r a) : ∃ a, x = .ok a ∧ q a ∧ r a := by
  cases x
  case error => cases h
  case ok a  => exact ⟨a, rfl, of_decide_eq_true h⟩

def exampleLayout : Layout where
  sizeT        := 8
  alignT       := 8
  sizeControl  := 48
  alignControl := 8

def earlyMemory : Memory 8192 :=
  memoryAt 1024 (by decide)

def lateMemory : Memory 8192 :=
  memoryAt 4096 (by decide)

-- The segment as it is mapped by two processes.
def lower : Mapping 8192 :=
  have h : 0 < (65536 : Address).toNat ∧ (65536 : Address).toNat + 8192 ≤ 2 ^ 64 := by decide
  ⟨65536, h.left, h.right⟩

def upper : Mapping 8192 :=
  have h : 0 < (1048576 : Address).toNat ∧ (1048576 : Address).toNat + 8192 ≤ 2 ^ 64 := by decide
  ⟨1048576, h.left, h.right⟩

-- The pool of the second process grows, and then the first process releases the only element of the
-- first generation.
theorem generations_apart_run : ∃ p, MemPoolIPC.new earlyMemory exampleLayout 1 1 = .ok p ∧
    ∃ c : Config 8192, c.shared.generations.map (fun gen => (gen.freed, gen.pool.owned)) = [(true, 0), (false, 1)] ∧
      Separated exampleLayout 1 c := by
  have he : (MemPoolIPC.new earlyMemory exampleLayout 1 1).toOption.any fun p =>
      p.buffers.Pairwise (·.Apart ·) ∧ Option.any
        (fun c => c.shared.generations.map (fun gen => (gen.freed, gen.pool.owned)) = [(true, 0), (false, 1)])
        (System.exec (program 8192 exampleLayout).next (AllFit exampleLayout) ⟨new p, [], []⟩ [
          .enter (.makePooled lower .entered), .run 0 lateMemory, .run 0 lateMemory, .run 0 lateMemory,
          .run 0 lateMemory, .run 0 lateMemory,
          .enter (.makePooled upper .entered), .run 1 lateMemory, .run 1 lateMemory, .run 1 lateMemory,
          .run 1 lateMemory,
          .run 1 lateMemory, .run 1 lateMemory, .run 1 lateMemory, .run 1 lateMemory,
          .enter (.release upper 0 0), .run 2 lateMemory]) := by decide +kernel
  obtain ⟨p, hn, hp, he⟩ := exists_of_any he
  have ⟨c, hr, hc⟩ := Program.exec_reachable_of_eq he
  exact ⟨p, hn, c, hc, generations_apart (by decide) (by decide) (by decide) hn (by decide) hp hr⟩

-- Two elements of 2⁶¹ times 8 bytes need 2⁶⁵ bytes, which is 0 for the pool. It gets a buffer of 0 bytes,
-- and both of them are at its position.
theorem not_apart : ∃ p, MemPoolIPC.new earlyMemory exampleLayout 2 (2 ^ 61) = .ok p ∧
    p.buffers.Pairwise (·.Apart ·) ∧
    ∃ c, (system 8192 exampleLayout p).Reachable c ∧ ¬Separated exampleLayout (2 ^ 61) c := by
  have he : (MemPoolIPC.new earlyMemory exampleLayout 2 (2 ^ 61)).toOption.any fun p =>
      p.buffers.Pairwise (·.Apart ·) ∧ Option.any
        (fun c => c.shared.generations.map (fun gen => gen.pool.lent (·.object)) = [[1536, 1536]])
        (System.exec (program 8192 exampleLayout).next (fun _ _ => True) ⟨new p, [], []⟩ [
          .enter (.makePooled lower .entered), .run 0 lateMemory, .run 0 lateMemory, .run 0 lateMemory,
          .run 0 lateMemory, .run 0 lateMemory,
          .enter (.makePooled lower .entered), .run 1 lateMemory, .run 1 lateMemory, .run 1 lateMemory,
          .run 1 lateMemory, .run 1 lateMemory]) := by
    decide +kernel
  obtain ⟨p, hn, hp, he⟩ := exists_of_any he
  have ⟨c, hr, hc⟩ := Program.exec_reachable_of_eq he
  refine ⟨p, hn, hp, c, hr.of_restrict, fun h => ?_⟩
  have ⟨gen, hg, hl⟩ := List.map_eq_singleton_iff.mp hc
  have hd := h.disjoint
  simp only [hg, List.flatMap_cons, Generation.bytes, hl, spans, List.map_cons, List.cons_append,
    List.pairwise_cons] at hd
  have := hd.left _ (List.mem_cons_self)
  rw [Set.Ico_disjoint_Ico, min_self, max_self] at this
  have hpos : 0 < exampleLayout.sizeT.toNat * (2 ^ 61 : SizeT).toNat := by decide +kernel
  omega

end MemPoolGrowerIPC
end IPC
