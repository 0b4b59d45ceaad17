import InterprocessMemPool.Concurrency.Calls
import InterprocessMemPool.Concurrency.Fifo
import InterprocessMemPool.Concurrency.Semaphore
import InterprocessMemPool.Machine

-- The `SharedPtr_T` of the source is `Option α`, where `none` is the null pointer. The mutex is not
-- a component of the state, as each locked scope is a single atomic step.
structure PipeIPC (α : Type*) where
  indexPush : SizeT
  indexPop  : SizeT
  capacity  : SizeT
  size      : SizeT
  nempty    : ℕ
  nstored   : ℕ
  items     : List (Option α)
  shutdown  : Bool
  deriving DecidableEq

namespace PipeIPC

variable {α : Type*}

inductive EnqueueMode
  | waitIfFull
  | softFailIfFull
  deriving DecidableEq

-- The constructor of `interprocess_semaphore` takes an `unsigned int`, so the count that `nempty`
-- starts with is what the conversion leaves of `capacity_in`.
def new (capacity_in : SizeT) : PipeIPC α where
  indexPush := 0
  indexPop  := 0
  capacity  := capacity_in
  size      := 0
  nempty    := capacity_in.toNat % 2 ^ 32
  nstored   := 0
  items     := List.replicate capacity_in.toNat none
  shutdown  := false

-- The locked scope of `Send`.
def store (p : PipeIPC α) (ptr : Option α) : PipeIPC α :=
  { p with
    items     := p.items.set p.indexPush.toNat ptr
    indexPush := (p.indexPush + 1) % p.capacity
    size      := p.size + 1 }

-- The locked scope of `Receive`, together with the pointer that it copies out of the pipe.
def take (p : PipeIPC α) : Option α × PipeIPC α :=
  (p.items[p.indexPop.toNat]?.getD none,
    { p with
      items    := p.items.set p.indexPop.toNat none
      indexPop := (p.indexPop + 1) % p.capacity
      size     := p.size - 1 })

section

variable {p : PipeIPC α} {ptr : Option α}

@[simp]
theorem store_capacity : (p.store ptr).capacity = p.capacity :=
  rfl

@[simp]
theorem store_nempty : (p.store ptr).nempty = p.nempty :=
  rfl

@[simp]
theorem store_nstored : (p.store ptr).nstored = p.nstored :=
  rfl

@[simp]
theorem store_shutdown : (p.store ptr).shutdown = p.shutdown :=
  rfl

@[simp]
theorem take_capacity : p.take.2.capacity = p.capacity :=
  rfl

@[simp]
theorem take_nempty : p.take.2.nempty = p.nempty :=
  rfl

@[simp]
theorem take_nstored : p.take.2.nstored = p.nstored :=
  rfl

@[simp]
theorem take_shutdown : p.take.2.shutdown = p.shutdown :=
  rfl

end

def operatorBool (p : PipeIPC α) : Bool :=
  !p.shutdown || 0 < p.size

inductive Send.Pc
  | entered
  | waiting
  | checking (success : Bool)
  | storing
  | posting
  | returned (hadError : Bool)
  | faulted
  deriving DecidableEq

structure Send (α : Type*) where
  ptr : Option α
  enqueueMode : EnqueueMode := .softFailIfFull
  timeout_seconds : SizeT := 0
  pc : Send.Pc := .entered
  deriving DecidableEq

def Send.wait (c : Send α) : Semaphore.Wait :=
  match c.enqueueMode with
  | .softFailIfFull => .tryWait
  | .waitIfFull     => if 0 ≠ c.timeout_seconds then .timedWait else .wait

-- Reducing an index modulo a capacity of 0 has no defined result. This is what `faulted` stands for.
def Send.step (expired : Bool) (p : PipeIPC α) (c : Send α) : Option (PipeIPC α × Send α) :=
  match c.pc with
  | .entered          => some (p, { c with pc := if p.shutdown then .returned false else .waiting })
  | .waiting          => (c.wait.step expired p.nempty).map fun (n, success) =>
      ({ p with nempty := n }, { c with pc := .checking success })
  | .checking success => some (p, { c with
      pc := if success && !p.shutdown then .storing else .returned true })
  | .storing          =>
    if p.capacity = 0 then some (p, { c with pc := .faulted })
    else some (p.store c.ptr, { c with pc := .posting })
  | .posting          => some ({ p with nstored := p.nstored + 1 }, { c with pc := .returned false })
  | .returned _       => none
  | .faulted          => none

inductive Receive.Pc
  | entered
  | waiting
  | taking
  | posting
  | returned (timedout : Bool)
  | faulted
  deriving DecidableEq

structure Receive (α : Type*) where
  ptr : Option α := none
  timeout_seconds : SizeT := 0
  pc : Receive.Pc := .entered
  deriving DecidableEq

def Receive.wait (c : Receive α) : Semaphore.Wait :=
  if 0 ≠ c.timeout_seconds then .timedWait else .wait

def Receive.step (expired : Bool) (p : PipeIPC α) (c : Receive α) :
    Option (PipeIPC α × Receive α) :=
  match c.pc with
  | .entered    => some (p, { c with ptr := none, pc := .waiting })
  | .waiting    => (c.wait.step expired p.nstored).map fun (n, success) =>
      ({ p with nstored := n }, { c with pc := if success then .taking else .returned true })
  | .taking     =>
    if p.capacity = 0 then some (p, { c with pc := .faulted })
    else some (p.take.2, { c with ptr := p.take.1, pc := .posting })
  | .posting    => some ({ p with nempty := p.nempty + 1 }, { c with pc := .returned false })
  | .returned _ => none
  | .faulted    => none

inductive Shutdown
  | entered
  | postingStored
  | postingEmpty
  | returned
  deriving DecidableEq

def Shutdown.step (p : PipeIPC α) : Shutdown → Option (PipeIPC α × Shutdown)
  | .entered       => some ({ p with shutdown := true }, .postingStored)
  | .postingStored => some ({ p with nstored := p.nstored + 1 }, .postingEmpty)
  | .postingEmpty  => some ({ p with nempty := p.nempty + 1 }, .returned)
  | .returned      => none

-- The loop `while (*pipePtr && !timedout)` of a consumer. `operator bool` reads two atomics, first
-- `shutdown` and then, if need be, `size`.
inductive Consumer (α : Type*)
  | testingShutdown (timeout_seconds : SizeT) (timedout : Bool)
  | testingSize (timeout_seconds : SizeT) (timedout : Bool)
  | receiving (c : Receive α)
  | ended
  deriving DecidableEq

def Consumer.loop (timeout_seconds : SizeT) (timedout pipe : Bool) : Consumer α :=
  if pipe && !timedout then .receiving { timeout_seconds } else .ended

def Consumer.step (expired : Bool) (p : PipeIPC α) : Consumer α → Option (PipeIPC α × Consumer α)
  | .testingShutdown t timedout =>
    some (p, if !p.shutdown then .loop t timedout true else .testingSize t timedout)
  | .testingSize t timedout     => some (p, .loop t timedout (0 < p.size))
  | .receiving c                =>
    match c.pc with
    | .returned timedout => some (p, .testingShutdown c.timeout_seconds timedout)
    | _                  => (c.step expired p).map fun (p', c') => (p', .receiving c')
  | .ended                      => none

inductive Call (α : Type*)
  | send (c : Send α)
  | receive (c : Receive α)
  | shutdown (c : Shutdown)
  | consumer (c : Consumer α)
  deriving DecidableEq

namespace Call

def starts : Call α → Bool
  | .send c                                 => c.pc = .entered
  | .receive c                              => c.pc = .entered
  | .shutdown c                             => c = .entered
  | .consumer (.testingShutdown _ timedout) => !timedout
  | .consumer _                             => false

def returned : Call α → Bool
  | .send c     => c.pc = .returned true || c.pc = .returned false
  | .receive c  => c.pc = .returned true || c.pc = .returned false
  | .shutdown c => c = .returned
  | .consumer c =>
    match c with
    | .ended => true
    | _      => false

def step (expired : Bool) (p : PipeIPC α) : Call α → Option (PipeIPC α × Call α)
  | .send c     => (c.step expired p).map fun (p', c') => (p', .send c')
  | .receive c  => (c.step expired p).map fun (p', c') => (p', .receive c')
  | .shutdown c => (c.step p).map fun (p', c') => (p', .shutdown c')
  | .consumer c => (c.step expired p).map fun (p', c') => (p', .consumer c')

end Call

def program (α : Type*) : Program (PipeIPC α) (Call α) Bool where
  starts := Call.starts
  step   := Call.step

abbrev Config (α : Type*) := Program.Config (PipeIPC α) (Call α)

-- All interleavings of calls on a pipe that has been constructed with the given capacity.
def system (α : Type*) (capacity : SizeT) :=
  (program α).system (· = new capacity)

end PipeIPC
