import InterprocessMemPool.Concurrency.Mutex
import InterprocessMemPool.MempoolIPC.Pipe.Basic

-- A pipe in shared memory, and the number of strong pointers to it among all processes.
structure PipeIPC.Counted (α : Type*) where
  pipe   : PipeIPC α
  strong : ℕ
  deriving DecidableEq

-- A weak pointer is the position of its pipe in `segment`, which has all pipes that were ever
-- constructed. A pipe that is out of strong pointers has been destroyed.
structure RouterIPC (α : Type*) where
  segment : List (PipeIPC.Counted α)
  mutex   : Bool
  pipes   : List ℕ
  deriving DecidableEq

namespace PipeIPC

variable {α : Type*}

-- The destructor. There is no call left that could be interleaved with it.
def destroy (p : PipeIPC α) : PipeIPC α :=
  { p with
    shutdown := true
    nstored  := p.nstored + 1
    nempty   := p.nempty + 1
    items    := [] }

def Counted.alive (e : Counted α) : Bool :=
  0 < e.strong

def Counted.release (e : Counted α) : Counted α where
  pipe   := if e.strong = 1 then e.pipe.destroy else e.pipe
  strong := e.strong - 1

end PipeIPC

namespace RouterIPC

variable {α : Type*}

def new : RouterIPC α where
  segment := []
  mutex   := false
  pipes   := []

def alive (r : RouterIPC α) (k : ℕ) : Bool :=
  r.segment[k]?.any PipeIPC.Counted.alive

def modify (r : RouterIPC α) (k : ℕ) (f : PipeIPC.Counted α → PipeIPC.Counted α) : RouterIPC α :=
  { r with segment := r.segment.modify k f }

-- `weak_ptr::lock`
def lock (r : RouterIPC α) (k : ℕ) : Option (RouterIPC α) :=
  if r.alive k then some (r.modify k fun e => { e with strong := e.strong + 1 }) else none

-- The destructor of a strong pointer.
def release (r : RouterIPC α) (k : ℕ) : RouterIPC α :=
  r.modify k .release

-- A step of a call that is made through a strong pointer.
def through {β γ : Type*} (r : RouterIPC α) (k : ℕ) (c : β)
    (step : PipeIPC α → β → Option (PipeIPC α × β)) (f : β → γ) : Option (RouterIPC α × γ) :=
  r.segment[k]?.bind fun e => (step e.pipe c).map fun (p, c') =>
    (r.modify k fun e => { e with pipe := p }, f c')

-- `pipes[i] = pipes.back(); pipes.pop_back();`
def swapPop (pipes : List ℕ) (i : ℕ) : List ℕ :=
  (pipes.set i <| pipes.getLast?.getD 0).dropLast

inductive Send.Pc (α : Type*)
  | entered
  | sweeping (i n : ℕ)
  | sending (i n k : ℕ) (c : PipeIPC.Send α)
  | returned (n : ℕ)
  deriving DecidableEq

structure Send (α : Type*) where
  ptr : Option α
  enqueueMode : PipeIPC.EnqueueMode := .softFailIfFull
  timeout_seconds : SizeT := 0
  pc : Send.Pc α := .entered
  deriving DecidableEq

-- The arguments that are forwarded to each pipe.
def Send.args (s : Send α) : PipeIPC.Send α where
  ptr             := s.ptr
  enqueueMode     := s.enqueueMode
  timeout_seconds := s.timeout_seconds

-- The index `i` is an `int`. It does not overflow as it is bounded by `(int)pipes.size()`.
def Send.step (expired : Bool) (r : RouterIPC α) (s : Send α) : Option (RouterIPC α × Send α) :=
  match s.pc with
  | .entered         =>
    if r.mutex then none else some ({ r with mutex := true }, { s with pc := .sweeping 0 0 })
  | .sweeping i n    =>
    if i < SizeT.toInt r.pipes.length then
      r.pipes[i]?.map fun k =>
        match r.lock k with
        | none    => ({ r with pipes := swapPop r.pipes i }, s)
        | some r' => (r', { s with pc := .sending i n k s.args })
    else some ({ r with mutex := false }, { s with pc := .returned n })
  | .sending i n k c =>
    match c.pc with
    | .returned hadError =>
      some (r.release k, { s with pc := .sweeping (i + 1) (if hadError then n + 1 else n) })
    | _                  =>
      r.through k c (PipeIPC.Send.step expired) fun c' => { s with pc := .sending i n k c' }
  | .returned _      => none

-- A process that registers as a receiver, and what it does with the strong pointer that it is given.
-- Further copies of such a pointer are receivers of their own.
inductive Receiver (α : Type*)
  | registering (capacity_in : SizeT)
  | pushing (k : ℕ)
  | copying (k : ℕ)
  | holding (k : ℕ)
  | calling (k : ℕ) (c : PipeIPC.Call α)
  | dropped
  deriving DecidableEq

-- Whatever the state of a call does not determine: whether its deadline has expired, whether the
-- segment has no memory left, and which member function of its pipe a receiver calls next, if any.
structure Choice (α : Type*) where
  expired : Bool := false
  noMemory : Bool := false
  call : Option (PipeIPC.Call α) := none
  deriving DecidableEq

def Receiver.step (x : Choice α) (r : RouterIPC α) : Receiver α → Option (RouterIPC α × Receiver α)
  | .registering capacity_in =>
    if x.noMemory then some (r, .dropped)
    else some ({ r with segment := r.segment ++ [⟨.new capacity_in, 1⟩] }, .pushing r.segment.length)
  | .pushing k               =>
    if r.mutex then none
    else if x.noMemory then some (r.release k, .dropped)
    else some ({ r with pipes := r.pipes ++ [k] }, .holding k)
  | .copying k               => (r.lock k).map fun r' => (r', .holding k)
  | .holding k               =>
    match x.call with
    | none   => some (r.release k, .dropped)
    | some c => if c.starts then some (r, .calling k c) else none
  | .calling k c             =>
    match c.returned with
    | true  => some (r, .holding k)
    | false => r.through k c (PipeIPC.Call.step x.expired) fun c' => .calling k c'
  | .dropped                 => none

inductive Shutdown
  | entered
  | sweeping (i : ℕ)
  | shuttingDown (i k : ℕ) (c : PipeIPC.Shutdown)
  | returned
  deriving DecidableEq

def Shutdown.step (r : RouterIPC α) : Shutdown → Option (RouterIPC α × Shutdown)
  | .entered            => if r.mutex then none else some ({ r with mutex := true }, .sweeping 0)
  | .sweeping i         =>
    match r.pipes[i]? with
    | none   => some ({ r with mutex := false }, .returned)
    | some k =>
      match r.lock k with
      | none    => some (r, .sweeping (i + 1))
      | some r' => some (r', .shuttingDown i k .entered)
  | .shuttingDown i k c =>
    match c with
    | .returned => some (r.release k, .sweeping (i + 1))
    | _         => r.through k c PipeIPC.Shutdown.step fun c' => .shuttingDown i k c'
  | .returned           => none

inductive NumReceivers
  | entered
  | sweeping (i count : ℕ)
  | counting (i count k : ℕ)
  | returned (count : ℕ)
  deriving DecidableEq

def NumReceivers.step (r : RouterIPC α) : NumReceivers → Option (RouterIPC α × NumReceivers)
  | .entered            => if r.mutex then none else some ({ r with mutex := true }, .sweeping 0 0)
  | .sweeping i count   =>
    match r.pipes[i]? with
    | none   => some ({ r with mutex := false }, .returned count)
    | some k =>
      match r.lock k with
      | none    => some (r, .sweeping (i + 1) count)
      | some r' => some (r', .counting i count k)
  | .counting i count k => some (r.release k, .sweeping (i + 1) (count + 1))
  | .returned _         => none

inductive Call (α : Type*)
  | send (s : Send α)
  | receiver (s : Receiver α)
  | shutdown (s : Shutdown)
  | numReceivers (s : NumReceivers)
  deriving DecidableEq

namespace Call

def starts : Call α → Bool
  | .send s                     =>
    match s.pc with
    | .entered => true
    | _        => false
  | .receiver (.registering _)  => true
  | .receiver (.copying _)      => true
  | .receiver _                 => false
  | .shutdown s                 => s = .entered
  | .numReceivers s             => s = .entered

def step (x : Choice α) (r : RouterIPC α) : Call α → Option (RouterIPC α × Call α)
  | .send s         => (s.step x.expired r).map fun (r', s') => (r', .send s')
  | .receiver s     => (s.step x r).map fun (r', s') => (r', .receiver s')
  | .shutdown s     => (s.step r).map fun (r', s') => (r', .shutdown s')
  | .numReceivers s => (s.step r).map fun (r', s') => (r', .numReceivers s')

end Call

def program (α : Type*) : Program (RouterIPC α) (Call α) (Choice α) where
  starts := Call.starts
  step   := Call.step

abbrev Config (α : Type*) := Program.Config (RouterIPC α) (Call α)

end RouterIPC
