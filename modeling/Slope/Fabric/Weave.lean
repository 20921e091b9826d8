import Mathlib.Logic.Function.Basic
import Slope.Lib.Run
import Slope.Lib.Word

/-!
# `Fabric.Weave` — a fixed pool of fibers

`FabricWeave` is an array of fiber slots and the number of slots taken. The thread of a fiber stores its result
in the slot's outcome word, where the value `u64::MAX` means that the fiber is still pending; `harvest_all`
loads the outcome words one by one and reports every one that is not pending.

`World` puts the weave among its threads. `next_slot` and `spawn` need the weave to themselves and
`harvest_all` borrows it until it returns, but the threads store their results at any time, also between two
loads of a running `harvest_all`; so each load is a step of its own. `fate` records what has become of each
slot. An action that the borrows rule out does nothing.
-/

namespace Slope.Fabric

open Slope

def maxFibers : Nat := 32

instance : NeZero maxFibers := ⟨by decide⟩

def outcomePending : U64 := -1

/-! ## The pool -/

structure FabricFiber where
  outcome : U64
  tid : U64
deriving DecidableEq

def FabricFiber.new : FabricFiber := ⟨outcomePending, 0⟩

def FabricFiber.tryHarvest (fiber : FabricFiber) : Option U64 :=
  if fiber.outcome = outcomePending then none else some fiber.outcome

/-- `spawn`, as far as the fiber handle is concerned: the outcome is reset before the system call, the thread
    id is stored if the call succeeds. -/
def FabricFiber.spawn (fiber : FabricFiber) (answer : Except Int U64) : FabricFiber :=
  match answer with
  | .ok tid => { outcome := outcomePending, tid }
  | .error _ => { fiber with outcome := outcomePending }

/-- The store at the end of `run_fiber`. -/
def FabricFiber.finish (fiber : FabricFiber) (result : U64) : FabricFiber := { fiber with outcome := result }

structure FabricWeave where
  fibers : Vector FabricFiber maxFibers
  count : Nat

namespace FabricWeave

def new : FabricWeave := ⟨Vector.replicate maxFibers .new, 0⟩

def nextSlot (weave : FabricWeave) : Option (Fin maxFibers) × FabricWeave :=
  if h : maxFibers ≤ weave.count then (none, weave)
  else (some ⟨weave.count, Nat.lt_of_not_le h⟩, { weave with count := weave.count + 1 })

def liveCount (weave : FabricWeave) : Nat := weave.count

def put (weave : FabricWeave) (i : Fin maxFibers) (fiber : FabricFiber) : FabricWeave :=
  { weave with fibers := weave.fibers.set i fiber }

/-- The slot that the loop of `harvest_all` loads in round `i`, if it has such a round. -/
def round (weave : FabricWeave) (i : Nat) : Option (Fin maxFibers) :=
  if h : i < maxFibers ∧ i < weave.count then some ⟨i, h.1⟩ else none

end FabricWeave

/-! ## The weave among its threads -/

/-- What has become of a slot. -/
inductive Fate where
  | free
  | taken
  | running (tid : U64)
  | finished (tid result : U64)
deriving DecidableEq

structure World where
  weave : FabricWeave
  fate : Fin maxFibers → Fate
  /-- the slot that a running `harvest_all` loads next -/
  cursor : Option (Fin maxFibers)

def World.new : World := ⟨.new, fun _ => .free, none⟩

inductive Action where
  | nextSlot
  | spawn (i : Fin maxFibers) (answer : Except Int U64)
  | finish (i : Fin maxFibers) (result : U64)
  | harvestAll
  | load

inductive Response where
  | blocked
  | slot (s : Option (Fin maxFibers))
  | done
  /-- `on_done(tid, outcome)` for the fiber in slot `i` -/
  | reported (i : Fin maxFibers) (tid outcome : U64)
  | passed (i : Fin maxFibers)
deriving DecidableEq

namespace World

def step (w : World) : Action → Response × World
  | .nextSlot =>
    -- a `harvest_all` that has not returned borrows the weave
    if w.cursor.isSome then (.blocked, w)
    else
      match w.weave.nextSlot with
      | (none, weave) => (.slot none, { w with weave })
      | (some i, weave) => (.slot (some i), { w with weave, fate := Function.update w.fate i .taken })
  | .spawn i answer =>
    if w.cursor.isSome ∨ w.fate i ≠ .taken then (.blocked, w)
    else
      let weave := w.weave.put i ((w.weave.fibers.get i).spawn answer)
      match answer with
      | .ok tid => (.done, { w with weave, fate := Function.update w.fate i (.running tid) })
      -- the slot stays taken, nothing gives it back
      | .error _ => (.done, { w with weave })
  | .finish i result =>
    match w.fate i with
    | .running tid =>
      (.done, { w with
        weave := w.weave.put i ((w.weave.fibers.get i).finish result)
        fate := Function.update w.fate i (.finished tid result) })
    | _ => (.blocked, w)
  | .harvestAll =>
    if w.cursor.isSome then (.blocked, w) else (.done, { w with cursor := w.weave.round 0 })
  | .load =>
    match w.cursor with
    | none => (.blocked, w)
    | some i =>
      -- the word is only loaded: neither the fiber nor the count changes
      let fiber := w.weave.fibers.get i
      let next := { w with cursor := w.weave.round (i + 1) }
      match fiber.tryHarvest with
      | some outcome => (.reported i fiber.tid outcome, next)
      | none => (.passed i, next)

/-- **What a step can do.** -/
inductive Moves (w : World) : Action → Response → World → Prop where
  | blocked (a : Action) (ha : a = .load → w.cursor = none) : Moves w a .blocked w
  | full (h : maxFibers ≤ w.weave.count) : Moves w .nextSlot (.slot none) w
  | took (i : Fin maxFibers) (hi : i.val = w.weave.count) :
      Moves w .nextSlot (.slot (some i))
        { w with
          weave := { w.weave with count := w.weave.count + 1 }
          fate := Function.update w.fate i .taken }
  | spawned (i : Fin maxFibers) (tid : U64) (hi : w.fate i = .taken) :
      Moves w (.spawn i (.ok tid)) .done
        { w with
          weave := w.weave.put i ⟨outcomePending, tid⟩
          fate := Function.update w.fate i (.running tid) }
  | spawnFailed (i : Fin maxFibers) (err : Int) (hi : w.fate i = .taken) :
      Moves w (.spawn i (.error err)) .done
        { w with weave := w.weave.put i { w.weave.fibers.get i with outcome := outcomePending } }
  | finished (i : Fin maxFibers) (tid result : U64) (hi : w.fate i = .running tid) :
      Moves w (.finish i result) .done
        { w with
          weave := w.weave.put i { w.weave.fibers.get i with outcome := result }
          fate := Function.update w.fate i (.finished tid result) }
  | began : Moves w .harvestAll .done { w with cursor := w.weave.round 0 }
  | reported (i : Fin maxFibers) (hi : w.cursor = some i)
      (hout : (w.weave.fibers.get i).outcome ≠ outcomePending) :
      Moves w .load (.reported i (w.weave.fibers.get i).tid (w.weave.fibers.get i).outcome)
        { w with cursor := w.weave.round (i + 1) }
  | passed (i : Fin maxFibers) (hi : w.cursor = some i)
      (hout : (w.weave.fibers.get i).outcome = outcomePending) :
      Moves w .load (.passed i) { w with cursor := w.weave.round (i + 1) }

theorem step_moves (w : World) (a : Action) : w.Moves a (w.step a).1 (w.step a).2 := by
  cases a with
  | nextSlot =>
      rw [step]
      by_cases hc : w.cursor.isSome
      · rw [if_pos hc]
        exact .blocked _ (by simp)
      · rw [if_neg hc, FabricWeave.nextSlot]
        by_cases hfull : maxFibers ≤ w.weave.count
        · rw [dif_pos hfull]
          exact .full hfull
        · rw [dif_neg hfull]
          exact .took ⟨w.weave.count, Nat.lt_of_not_le hfull⟩ rfl
  | spawn i answer =>
      rw [step]
      by_cases hc : w.cursor.isSome ∨ w.fate i ≠ .taken
      · rw [if_pos hc]
        exact .blocked _ (by simp)
      · rw [if_neg hc]
        have hi : w.fate i = .taken := by
          rw [not_or, not_not] at hc
          exact hc.2
        cases answer with
        | ok tid => exact .spawned i tid hi
        | error err => exact .spawnFailed i err hi
  | finish i result =>
      rw [step]
      cases hi : w.fate i with
      | running tid => exact .finished i tid result hi
      | _ => exact .blocked _ (by simp)
  | harvestAll =>
      rw [step]
      by_cases hc : w.cursor.isSome
      · rw [if_pos hc]
        exact .blocked _ (by simp)
      · rw [if_neg hc]
        exact .began
  | load =>
      rw [step]
      cases hi : w.cursor with
      | none => exact .blocked _ (fun _ => hi)
      | some i =>
          simp only [FabricFiber.tryHarvest]
          by_cases hout : (w.weave.fibers.get i).outcome = outcomePending
          · rw [if_pos hout]
            exact .passed i hi hout
          · rw [if_neg hout]
            exact .reported i hi hout

end World

end Slope.Fabric
