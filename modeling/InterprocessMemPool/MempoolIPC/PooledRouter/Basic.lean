import InterprocessMemPool.Concurrency.References
import InterprocessMemPool.MempoolIPC.MemPool.Basic
import InterprocessMemPool.MempoolIPC.Router.Basic

open References

-- What the calls on a pipe do to the pointers that they are given and to those in the pipe.
namespace PipeIPC

variable {α : Type*}

def Send.handover (p : PipeIPC α) (c : Send α) : Handover α :=
  match c.pc with
  | .storing =>
    if p.capacity = 0 then {}
    else { copied := [c.ptr], released := [p.items[p.indexPush.toNat]?.getD none] }
  | _        => {}

def Receive.handover (p : PipeIPC α) (c : Receive α) : Handover α :=
  match c.pc with
  | .entered => { released := [c.ptr] }
  | .taking  =>
    if p.capacity = 0 then {}
    else { copied := [p.take.1], released := [c.ptr, p.take.1] }
  | _        => {}

-- The pointer is a variable of the body of the loop.
def Consumer.handover (p : PipeIPC α) : Consumer α → Handover α
  | .receiving c =>
    match c.pc with
    | .returned _ => { released := [c.ptr] }
    | _           => c.handover p
  | _            => {}

namespace Call

def handover (p : PipeIPC α) : Call α → Handover α
  | .send c     => c.handover p
  | .receive c  => c.handover p
  | .shutdown _ => {}
  | .consumer c => c.handover p

-- The variable that the call has been given by reference.
def borrowed : Call α → Option (Option α)
  | .send c    => some c.ptr
  | .receive c => some c.ptr
  | _          => none

-- The variables of the call itself.
def locals : Call α → List (Option α)
  | .consumer (.receiving c) => [c.ptr]
  | _                        => []

end Call
end PipeIPC

namespace RouterIPC

variable {α : Type*}

-- What the destructor of a pipe resets, if there is only one strong pointer left to release.
def remains (r : RouterIPC α) (k : ℕ) : List (Option α) :=
  match r.segment[k]? with
  | none   => []
  | some e => if e.strong = 1 then e.pipe.items else []

def within (r : RouterIPC α) (k : ℕ) (f : PipeIPC α → Handover α) : Handover α :=
  match r.segment[k]? with
  | none   => {}
  | some e => f e.pipe

def Send.handover (r : RouterIPC α) (s : Send α) : Handover α :=
  match s.pc with
  | .sending _ _ k c =>
    match c.pc with
    | .returned _ => { released := r.remains k }
    | _           => r.within k c.handover
  | _                => {}

def Receiver.handover (x : Choice α) (r : RouterIPC α) : Receiver α → Handover α
  | .pushing k   => if x.noMemory then { released := r.remains k } else {}
  | .holding k   =>
    match x.call with
    | none   => { released := r.remains k }
    | some _ => {}
  | .calling k c => if c.returned then {} else r.within k c.handover
  | _            => {}

def Shutdown.handover (r : RouterIPC α) : Shutdown → Handover α
  | .shuttingDown _ k .returned => { released := r.remains k }
  | _                           => {}

def NumReceivers.handover (r : RouterIPC α) : NumReceivers → Handover α
  | .counting _ _ k => { released := r.remains k }
  | _               => {}

namespace Call

def handover (x : Choice α) (r : RouterIPC α) : Call α → Handover α
  | .send s         => s.handover r
  | .receiver s     => s.handover x r
  | .shutdown s     => s.handover r
  | .numReceivers s => s.handover r

def borrowed : Call α → Option (Option α)
  | .send s                   => some s.ptr
  | .receiver (.calling _ c)  => c.borrowed
  | _                         => none

def locals : Call α → List (Option α)
  | .receiver (.calling _ c) => c.locals
  | _                        => []

def returned : Call α → Bool
  | .send s         =>
    match s.pc with
    | .returned _ => true
    | _           => false
  | .receiver s     =>
    match s with
    | .dropped => true
    | _        => false
  | .shutdown s     => s = .returned
  | .numReceivers s =>
    match s with
    | .returned _ => true
    | _           => false

end Call
end RouterIPC

namespace IPC

namespace MemPoolIPC

variable {segment : ℕ}

-- A null pointer does not refer to an element.
def copyPtr (m : Mapping segment) (p : MemPoolIPC) : Option ℕ → Option MemPoolIPC
  | none   => some p
  | some e => Use.copy.step m p e

def reset (m : Mapping segment) (p : MemPoolIPC) : Option ℕ → Option MemPoolIPC
  | none   => some p
  | some e => p.release m e

-- The assignment to a shared pointer copies the new pointer before it releases the old one.
def handOver (m : Mapping segment) (p : MemPoolIPC) (h : Handover ℕ) : Option MemPoolIPC :=
  (h.copied.foldlM (copyPtr m) p).bind fun p => h.released.foldlM (reset m) p

end MemPoolIPC

-- A pool and a router for the pointers to its elements. A pointer is the index of its element.
structure PooledRouter where
  pool   : MemPoolIPC
  router : RouterIPC ℕ

namespace PooledRouter

variable {segment : ℕ}

inductive Party.Pc
  | idle
  | making (c : MemPoolIPC.MakePooled)
  | routing (l : RouterIPC.Call ℕ)
  deriving DecidableEq

-- A thread of a process, with one variable for a pointer to an element.
structure Party (segment : ℕ) where
  m   : Mapping segment
  ptr : Option ℕ := none
  pc  : Party.Pc := .idle

-- What a party does next where the call that it is in does not determine that.
inductive Act
  | assign (ptr : Option ℕ)
  | make
  | call (l : RouterIPC.Call ℕ)

structure Choice where
  router : RouterIPC.Choice ℕ := {}
  act : Option Act := none

namespace Party

-- The party is not in a call of a member function.
def Pc.between : Pc → Bool
  | .idle                               => true
  | .routing (.receiver (.holding _))   => true
  | _                                   => false

-- No constructor throws, there are no weak pointers, and the release of the last pointer is a single step: it
-- destroys the element and returns its block and that of its control block.
def step (x : Choice) (s : PooledRouter) (a : Party segment) : Option (PooledRouter × Party segment) :=
  match x.act with
  | some (.assign ptr) =>
    if a.pc.between then
      (s.pool.handOver a.m { copied := [ptr], released := [a.ptr] }).map fun pool =>
        ({ s with pool }, { a with ptr })
    else none
  | some .make         => if a.pc = .idle then some (s, { a with pc := .making .entered }) else none
  | some (.call l)     =>
    if a.pc = .idle ∧ l.starts then
      (lend a.ptr none l.borrowed).map fun ptr => (s, { a with ptr, pc := .routing l })
    else none
  | none               =>
    match a.pc with
    | .idle                   => none
    | .making (.returned ptr) => (s.pool.handOver a.m { released := [a.ptr] }).map fun pool =>
        ({ s with pool }, { a with ptr, pc := .idle })
    | .making c               => (c.step a.m false s.pool).map fun (pool, c) =>
        ({ s with pool }, { a with pc := .making c })
    | .routing l              =>
      if l.returned then
        (lend a.ptr l.borrowed none).map fun ptr => (s, { a with ptr, pc := .idle })
      else
        (l.step x.router s.router).bind fun (router, l') =>
          (lend a.ptr l.borrowed l'.borrowed).bind fun ptr =>
            (s.pool.handOver a.m (l.handover x.router s.router)).map fun pool =>
              ({ pool, router }, { a with ptr, pc := .routing l' })

def starts (a : Party segment) : Bool :=
  a.ptr = none ∧ a.pc = .idle

end Party

def program (segment : ℕ) : Program PooledRouter (Party segment) Choice where
  starts := Party.starts
  step   := Party.step

abbrev Config (segment : ℕ) := Program.Config PooledRouter (Party segment)

-- All runs of any number of processes that share a pool and a router that have just been constructed.
def system (segment : ℕ) (p : MemPoolIPC) :=
  (program segment).system (· = ⟨p, .new⟩)

end PooledRouter
end IPC
