import Mathlib.Logic.Function.Basic
import Slope.Lib.Run
import Slope.Sync.Entanglement

/-!
# `Sync.Participants` — any number of participants on one cell, one atomic step at a time

`Sync.Entanglement` has the calls of `EntangledPair` as one participant sees them. Here they are cut at their
accesses to the shared cell: the compare-exchange of the lock word, the parts of the operation, and the store
with which the guard's drop gives the lock up. An operation is a tree of parts: each part reads the data,
replaces it, and goes on according to what it read, so operations may be cut anywhere, any number of times, and
a different number of times on different data.
-/

namespace Slope.Sync

/-- `FnOnce(&mut T) -> R`, by its accesses to the data. -/
inductive Operation (T R : Type) where
  | done (result : R)
  | part (write : T → T) (next : T → Operation T R)

/-- `FnOnce(&T) -> R`, by its accesses to the data. -/
inductive Observation (T R : Type) where
  | done (result : R)
  | part (next : T → Observation T R)

section

variable {T R : Type}

/-- The operation with nothing in between. -/
def Operation.apply : Operation T R → T → R × T
  | .done result, value => (result, value)
  | .part write next, value => (next value).apply (write value)

/-- The observation with nothing in between. -/
def Observation.see : Observation T R → T → R
  | .done result, _ => result
  | .part next, value => (next value).see value

/-- An operation in one part. -/
def Operation.atomic (f : T → R × T) : Operation T R :=
  .part (fun value => (f value).2) fun value => .done (f value).1

end

/-- The calls of `EntangledPair`. -/
inductive PairCall (T R : Type) where
  | tryMutate (operation : Operation T R)
  | tryObserve (operation : Observation T R)
  | mutateBounded (attempts : Nat) (operation : Operation T R)

/-- Where a participant stands in its call, with its locals. -/
inductive PairPc (T R : Type) where
  | idle
  | locking (call : PairCall T R) (attempts : Nat)
  | mutating (call : PairCall T R) (rest : Operation T R)
  | observing (call : PairCall T R) (rest : Observation T R)

/-- The call that a participant is in. -/
def PairPc.current {T R : Type} : PairPc T R → Option (PairCall T R)
  | .idle => none
  | .locking call _ => some call
  | .mutating call _ => some call
  | .observing call _ => some call

/-- What can be told from outside about a step: a call got the lock, or returned. -/
inductive PairNotice (τ T R : Type) where
  | locked (t : τ) (call : PairCall T R)
  | returned (t : τ) (call : PairCall T R) (result : Except EntanglementError R)

/-- What the scheduler lets happen next: an idle participant calls, or a participant takes its next step. -/
inductive PairAction (τ T R : Type) where
  | call (t : τ) (call : PairCall T R)
  | advance (t : τ)

/-- Whose step it is. -/
def PairAction.participant {τ T R : Type} : PairAction τ T R → τ
  | .call t _ => t
  | .advance t => t

namespace PairCall

variable {T R : Type}

/-- How often the call tries the lock. -/
def attempts : PairCall T R → Nat
  | tryMutate _ => 1
  | tryObserve _ => 1
  | mutateBounded attempts _ => attempts

/-- The call has the guard and starts its operation. -/
def enter : PairCall T R → PairPc T R
  | tryMutate operation => .mutating (tryMutate operation) operation
  | tryObserve operation => .observing (tryObserve operation) operation
  | mutateBounded attempts operation => .mutating (mutateBounded attempts operation) operation

end PairCall

/-- The cell, and the participants attached to it. -/
structure Participants (τ T R : Type) where
  cell : SpookyCell T
  pc : τ → PairPc T R

namespace Participants

variable {τ T R : Type}

def new (value : T) : Participants τ T R where
  cell := .new value
  pc := fun _ => .idle

variable [DecidableEq τ]

def goto (s : Participants τ T R) (t : τ) (pc : PairPc T R) : Participants τ T R :=
  { s with pc := Function.update s.pc t pc }

/-- `lock.store` -/
def store (s : Participants τ T R) (locked : Bool) : Participants τ T R :=
  { s with cell := { s.cell with locked } }

def write (s : Participants τ T R) (data : T) : Participants τ T R :=
  { s with cell := { s.cell with data } }

/-- The next step of a participant. A failed compare-exchange uses up an attempt; a call without attempts
    left returns `Busy`; an operation with no part left returns with the store that frees the lock. -/
def advance (s : Participants τ T R) (t : τ) : Option (PairNotice τ T R) × Participants τ T R :=
  match s.pc t with
  | .idle => (none, s)
  | .locking call 0 => (some (.returned t call (.error .busy)), s.goto t .idle)
  | .locking call (attempts + 1) =>
    if s.cell.locked then (none, s.goto t (.locking call attempts))
    else (some (.locked t call), (s.store true).goto t call.enter)
  | .mutating call (.part write next) =>
    (none, (s.write (write s.cell.data)).goto t (.mutating call (next s.cell.data)))
  | .mutating call (.done result) => (some (.returned t call (.ok result)), (s.store false).goto t .idle)
  | .observing call (.part next) => (none, s.goto t (.observing call (next s.cell.data)))
  | .observing call (.done result) => (some (.returned t call (.ok result)), (s.store false).goto t .idle)

/-- **One atomic step.** A participant has one call at a time. -/
def step (s : Participants τ T R) : PairAction τ T R → Option (PairNotice τ T R) × Participants τ T R
  | .call t call =>
    match s.pc t with
    | .idle => (none, s.goto t (.locking call call.attempts))
    | _ => (none, s)
  | .advance t => s.advance t

end Participants

end Slope.Sync
