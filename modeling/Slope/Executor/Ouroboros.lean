import Mathlib.Logic.Function.Basic
import Slope.Lib.Bitmap
import Slope.Lib.Run

/-!
# `Executor.Ouroboros` — the fixed-arena cooperative executor

Sixty-four task slots, a mask of ready slots and a counter. A slot holds a type-erased task of type `T` (the
`data` and `poll_fn` pair); what polling it does is a parameter: `poll task slot world` says which wakers it
fires, whether it returned `Ready`, and what it leaves of the `world` that tasks share.

A waker is taken for the slot it was made for, and a task may hold wakers of other slots, so a poll may wake any
list of slots. For a waker fired in the poll that it was made for this is what the code does. For a clone that
outlives its poll it is an assumption: `waker_clone` copies a pointer to the `WakerData` that `run_until_stall`
keeps on its stack for one turn of the loop, so what such a clone sets is whatever stands there later.

Each operation also returns what it did to tasks, as a list of `TaskEvent`s. The executor never reads them:
they are the record against which its bookkeeping is judged.
-/

namespace Slope.Executor

def maxTasks : Nat := 64

inductive ExecutorError where
  | arenaFull
deriving DecidableEq

inductive SlotState where
  | free
  | parked
  | ready
  | running
  | done
deriving DecidableEq

/-- `none` is the empty slot, whose `poll_fn` returns at once. -/
structure TaskSlot (T : Type) where
  task : Option T
  state : SlotState

structure OuroborosExecutor (T : Type) where
  slots : Fin maxTasks → TaskSlot T
  readyMask : U64
  count : Nat

/-- What one poll of a task does. `wakes` are the slots whose wakers it fires, of which those kept from earlier polls
    are assumed to name their slot still. -/
structure PollOutcome (σ : Type) where
  wakes : List (Fin maxTasks)
  done : Bool
  world : σ

/-- What happened to the task of a slot. -/
inductive TaskEvent where
  | spawned (slot : Fin maxTasks)
  | began (slot : Fin maxTasks)
  | woke (slot : Fin maxTasks)
  | ended (slot : Fin maxTasks) (ready : Bool)
deriving DecidableEq

namespace OuroborosExecutor

variable {T σ : Type}

def new : OuroborosExecutor T where
  slots := fun _ => ⟨none, .free⟩
  readyMask := 0
  count := 0

def setState (e : OuroborosExecutor T) (slot : Fin maxTasks) (state : SlotState) : OuroborosExecutor T :=
  { e with slots := Function.update e.slots slot { e.slots slot with state } }

/-- `waker_wake`: the ready bit of the waker's slot, assumed to be the slot that the waker was made for. -/
def wake (e : OuroborosExecutor T) (slot : Fin maxTasks) : OuroborosExecutor T :=
  { e with readyMask := e.readyMask ||| bitMask slot }

def findFreeSlot (e : OuroborosExecutor T) : Option (Fin maxTasks) :=
  (List.finRange maxTasks).find? fun i => (e.slots i).state = .free ∨ (e.slots i).state = .done

def spawnRaw (e : OuroborosExecutor T) (task : T) :
    Except ExecutorError (Fin maxTasks) × OuroborosExecutor T × List TaskEvent :=
  match e.findFreeSlot with
  | none => (.error .arenaFull, e, [])
  | some slot =>
    let e := { e with slots := Function.update e.slots slot ⟨some task, .ready⟩ }
    let e := e.wake slot
    (.ok slot, { e with count := e.count + 1 }, [.spawned slot])

section

variable (poll : T → Fin maxTasks → σ → PollOutcome σ)

/-- What polling a slot does; an empty slot is ready at once. -/
def outcome (slot : TaskSlot T) (i : Fin maxTasks) (world : σ) : PollOutcome σ :=
  match slot.task with
  | none => ⟨[], true, world⟩
  | some task => poll task i world

/-- The body of the poll loop, for one bit of the mask. -/
def pollSlot (e : OuroborosExecutor T) (world : σ) (bit : Fin maxTasks) :
    OuroborosExecutor T × σ × List TaskEvent :=
  if (e.slots bit).state ≠ .ready ∧ (e.slots bit).state ≠ .parked then (e, world, [])
  else
    let out := outcome poll (e.slots bit) bit world
    let e := e.setState bit .running
    let e := out.wakes.foldl wake e
    let e := e.setState bit (if out.done then .done else .parked)
    let e := if out.done then { e with count := e.count - 1 } else e
    (e, out.world, .began bit :: out.wakes.map .woke ++ [.ended bit out.done])

/-- `while mask != 0`, for at most `fuel` rounds. -/
def pollLoop : Nat → U64 → OuroborosExecutor T → σ → OuroborosExecutor T × σ × List TaskEvent
  | 0, _, e, world => (e, world, [])
  | fuel + 1, mask, e, world =>
    if mask = 0 then (e, world, [])
    else
      let bit : Fin maxTasks := ⟨mask.ctz.toNat % maxTasks, Nat.mod_lt _ (by decide)⟩
      let mask := mask &&& ~~~bitMask bit
      match pollSlot poll e world bit with
      | (e, world, log) =>
        match pollLoop fuel mask e world with
        | (e, world, rest) => (e, world, log ++ rest)

/-- Poll all ready tasks once. Returns the number of tasks still alive. -/
def runUntilStall (e : OuroborosExecutor T) (world : σ) : Nat × OuroborosExecutor T × σ × List TaskEvent :=
  match pollLoop poll maxTasks e.readyMask { e with readyMask := 0 } world with
  | (e, world, log) => (e.count, e, world, log)

/-- Loop until all tasks complete, for at most `fuel` passes: `none` is a loop that has not returned yet.
    `yieldRetrocausally` is what the rest of the world does between two passes; while the loop runs, wakers are fired
    by tasks in their polls only. -/
def runForever (yieldRetrocausally : Nat → σ → σ) :
    Nat → OuroborosExecutor T → σ → Option (OuroborosExecutor T × σ × List TaskEvent)
  | 0, _, _ => none
  | fuel + 1, e, world =>
    match e.runUntilStall poll world with
    | (alive, e, world, log) =>
      if alive = 0 then some (e, world, log)
      else
        match runForever yieldRetrocausally fuel e (yieldRetrocausally alive world) with
        | none => none
        | some (e, world, rest) => some (e, world, log ++ rest)

end

def taskCount (e : OuroborosExecutor T) : Nat := e.count

/-! ## Calls -/

/-- The public calls, and a wake through a waker that left the executor (assumed to name its slot still). Each pass
    meets a world of its own: what happened to it since the last pass is nobody's promise. -/
inductive Call (T σ : Type) where
  | spawn (task : T)
  | runUntilStall (world : σ)
  | wake (slot : Fin maxTasks)

inductive Answer where
  | spawned (result : Except ExecutorError (Fin maxTasks))
  | ran (alive : Nat)
  | woke

def step (poll : T → Fin maxTasks → σ → PollOutcome σ) (e : OuroborosExecutor T) :
    Call T σ → (Answer × List TaskEvent) × OuroborosExecutor T
  | .spawn task =>
    match e.spawnRaw task with
    | (result, e, log) => ((.spawned result, log), e)
  | .runUntilStall world =>
    match e.runUntilStall poll world with
    | (alive, e, _, log) => ((.ran alive, log), e)
  | .wake slot => ((.woke, [.woke slot]), e.wake slot)

end OuroborosExecutor

end Slope.Executor
