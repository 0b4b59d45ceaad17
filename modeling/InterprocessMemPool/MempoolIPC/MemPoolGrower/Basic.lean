import InterprocessMemPool.MempoolIPC.MemPool.Basic

-- Two buffers share no byte of the segment.
def RawMemoryIPC.Apart (b b' : RawMemoryIPC) : Prop :=
  ∀ x ∈ b.raw, ∀ y ∈ b'.raw,
    x.toNat + b.rawSize.toNat ≤ y.toNat ∨ y.toNat + b'.rawSize.toNat ≤ x.toNat

instance (b b' : RawMemoryIPC) : Decidable (b.Apart b') :=
  decidable_of_iff (b.raw.all fun x => b'.raw.all fun y =>
    x.toNat + b.rawSize.toNat ≤ y.toNat ∨ y.toNat + b'.rawSize.toNat ≤ x.toNat) <| by
      simp [RawMemoryIPC.Apart, Option.all_eq_true]

namespace IPC

def MemPoolIPC.buffers (p : MemPoolIPC) : List RawMemoryIPC :=
  [p.myControlBlockAllocator.objectsBuffer, p.myControlBlockAllocator.pointersBuffer,
    p.myObjectAllocator.objectsBuffer, p.myObjectAllocator.pointersBuffer]

-- A pool that was constructed, with the number of shared pointers to the states of its two allocators.
-- The allocators of the grower's `pool` have one of each, as have those in the control block of every
-- element. They are always copied and released together.
structure Generation where
  pool      : MemPoolIPC
  use_count : ℕ := 1
  freed     : Bool := false

-- The states and their buffers are freed with the last shared pointer.
def Generation.release (g : Generation) : Generation :=
  { g with use_count := g.use_count - 1, freed := g.freed || g.use_count = 1 }

-- All generations that were constructed, oldest first, of which `pool` is the one with that index.
structure MemPoolGrowerIPC where
  generations      : List Generation
  pool             : ℕ
  mutex            : Bool
  growthRate       : SizeT
  nReconstructions : SizeT

namespace MemPoolGrowerIPC

variable {segment : ℕ}

def new (p : MemPoolIPC) : MemPoolGrowerIPC where
  generations      := [{ pool := p }]
  pool             := 0
  mutex            := false
  growthRate       := 2
  nReconstructions := 0

def allocated (g : MemPoolGrowerIPC) : List RawMemoryIPC :=
  g.generations.flatMap fun gen => if gen.freed then [] else gen.pool.buffers

def newSize (g : MemPoolGrowerIPC) (p : MemPoolIPC) : SizeT :=
  if p.nElements = 0 then 1 else g.growthRate * p.nElements

def set (g : MemPoolGrowerIPC) (k : ℕ) (gen : Generation) : MemPoolGrowerIPC :=
  { g with generations := g.generations.set k gen }

-- `c` is the call to `pool.make_pooled`, which is the second one if it is not `first`. An element is
-- referred to by the index of its generation and its index there. `faulted` is a call in which there is
-- no telling what the construction of the new pool does.
inductive MakePooled
  | entered
  | pooling (first : Bool) (c : MemPoolIPC.MakePooled)
  | growing
  | returned (ptr : Option (ℕ × ℕ))
  | threw
  | faulted
  deriving DecidableEq

-- The assignment of the pool that `ReConstruct` has returned.
def assign (g : MemPoolGrowerIPC) (p : MemPoolIPC) : MemPoolGrowerIPC :=
  { g with
    generations      := g.generations.modify g.pool Generation.release ++ [{ pool := p }]
    pool             := g.generations.length
    nReconstructions := g.nReconstructions + 1 }

-- `memory` are the answers of the segment manager, which does not hand out bytes that are in use. If there
-- are not enough of them, then it takes back what `ReConstruct` has got so far. The control block of an
-- element copies the deleter and the allocator.
def MakePooled.step (layout : Layout) (m : Mapping segment) (memory : Memory segment) (g : MemPoolGrowerIPC) :
    MakePooled → Option (MemPoolGrowerIPC × MakePooled)
  | .entered         => if g.mutex then none else some ({ g with mutex := true }, .pooling true .entered)
  | .pooling first c =>
    match c with
    | .returned (some e) => some ({ g with mutex := false }, .returned (some (g.pool, e)))
    | .returned none     =>
      if first then some (g, .growing) else some ({ g with mutex := false }, .returned none)
    | c                  =>
      g.generations[g.pool]?.bind fun gen => (c.step m false gen.pool).map fun (p, c') =>
        let use_count := match c' with
          | .returned (some _) => gen.use_count + 1
          | _                  => gen.use_count
        (g.set g.pool { gen with pool := p, use_count }, .pooling first c')
  | .growing         =>
    g.generations[g.pool]?.bind fun gen =>
      match MemPoolIPC.new memory layout (g.newSize gen.pool) gen.pool.countPerElement with
      | .error .bad_alloc => some ({ g with mutex := false }, .threw)
      | .error _          => some (g, .faulted)
      | .ok p             =>
        if p.buffers.Pairwise (·.Apart ·) ∧ ∀ b ∈ p.buffers, ∀ b' ∈ g.allocated, b.Apart b' then
          some (g.assign p, .pooling false .entered)
        else none
  | .returned _      => none
  | .threw           => none
  | .faulted         => none

-- With the last pointer to an element, its control block and the allocators therein are destroyed.
def release (m : Mapping segment) (g : MemPoolGrowerIPC) (k e : ℕ) : Option MemPoolGrowerIPC :=
  g.generations[k]?.bind fun gen => (gen.pool.release m e).map fun p =>
    let gen := { gen with pool := p }
    g.set k (if p.elements[e]?.any (·.phase = .destroyed) then gen.release else gen)

def copy (m : Mapping segment) (g : MemPoolGrowerIPC) (k e : ℕ) : Option MemPoolGrowerIPC :=
  g.generations[k]?.bind fun gen => (MemPoolIPC.Use.copy.step m gen.pool e).map fun p =>
    g.set k { gen with pool := p }

-- A call, and where its process has mapped the segment.
inductive Call (segment : ℕ)
  | makePooled (m : Mapping segment) (c : MakePooled)
  | copy (m : Mapping segment) (k e : ℕ)
  | release (m : Mapping segment) (k e : ℕ)
  | done

namespace Call

def starts : Call segment → Bool
  | .makePooled _ c => c = .entered
  | .done           => false
  | _               => true

def step (layout : Layout) (memory : Memory segment) (g : MemPoolGrowerIPC) :
    Call segment → Option (MemPoolGrowerIPC × Call segment)
  | .makePooled m c => (c.step layout m memory g).map fun (g', c') => (g', .makePooled m c')
  | .copy m k e     => (g.copy m k e).map fun g' => (g', .done)
  | .release m k e  => (g.release m k e).map fun g' => (g', .done)
  | .done           => none

end Call

def program (segment : ℕ) (layout : Layout) :
    Program MemPoolGrowerIPC (Call segment) (Memory segment) where
  starts := Call.starts
  step   := Call.step layout

abbrev Config (segment : ℕ) := Program.Config MemPoolGrowerIPC (Call segment)

-- A grower whose first pool has just been constructed.
def system (segment : ℕ) (layout : Layout) (p : MemPoolIPC) :=
  (program segment layout).system (· = new p)

end MemPoolGrowerIPC
end IPC
