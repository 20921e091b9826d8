import Slope.Fabric.Harvest

/-!
# `Fabric.Join` — when `join_all` returns

`join_all` goes over the slots taken and spins on each until its outcome word is not the word for a pending fiber. It
borrows the weave, so while it runs no slot is taken and no fiber is spawned; only the fibers that run already store
their results.

Whether it returns is then settled slot by slot. A fiber that runs can still finish. A slot that was taken but whose
`spawn` was never called, or failed, has no fiber that could; and a fiber that finishes with `u64::MAX` leaves the word
as it was. One such slot, and `join_all` spins for good.
-/

namespace Slope.Fabric

open Slope

/-! ## Fates -/

/-- No load will ever find a result in the slot: it has no fiber, or the result is the word for a pending one. -/
def Fate.lost : Fate → Bool
  | .taken => true
  | .finished _ result => decide (result = outcomePending)
  | _ => false

/-- A load finds the result. -/
def Fate.ready : Fate → Bool
  | .finished _ result => decide (result ≠ outcomePending)
  | _ => false

/-- What one store of a fiber makes of the fate of its slot. -/
def Fate.store (f : Fate) (result : U64) : Fate :=
  match f with
  | .running tid => .finished tid result
  | f => f

theorem Fate.store_of_ready {f : Fate} (h : f.ready = true) (result : U64) : f.store result = f := by
  cases f with
  | running tid => cases h
  | _ => rfl

/-- A store touches one slot, and the count not at all. -/
theorem World.step_finish (w : World) (k : Fin maxFibers) (result : U64) :
    (w.step (.finish k result)).2.weave.count = w.weave.count ∧
      ∀ i, (w.step (.finish k result)).2.fate i = if i = k then (w.fate i).store result else w.fate i := by
  rw [World.step]
  cases hk : w.fate k with
  | running tid =>
      refine ⟨rfl, ?_⟩
      intro i
      by_cases hi : i = k
      · subst hi
        rw [if_pos rfl, hk]
        exact Function.update_self ..
      · rw [if_neg hi]
        exact Function.update_of_ne hi ..
  | _ =>
      refine ⟨rfl, ?_⟩
      intro i
      by_cases hi : i = k
      · subst hi
        rw [if_pos rfl, hk]
        rfl
      · rw [if_neg hi]

theorem Consistent.ready_of_outcome {w : World} {i : Fin maxFibers} (hc : Consistent w)
    (hout : (w.weave.fibers.get i).outcome ≠ outcomePending) : (w.fate i).ready = true := by
  have hcell := hc.cell i
  cases hf : w.fate i with
  | free => rw [hf] at hcell; exact absurd hcell hout
  | taken => rw [hf] at hcell; exact absurd hcell hout
  | running tid =>
      rw [hf] at hcell
      rw [show w.weave.fibers.get i = _ from hcell] at hout
      exact absurd rfl hout
  | finished tid result =>
      rw [hf] at hcell
      rw [show w.weave.fibers.get i = _ from hcell] at hout
      exact decide_eq_true hout

/-- The weave while `join_all` runs. -/
structure Joining where
  world : World
  /-- the fiber that the loop spins on -/
  next : Nat

inductive JoinAction where
  /-- one round of `spin_until_done` -/
  | load
  | finish (i : Fin maxFibers) (result : U64)

namespace Joining

/-- The value is what `spin_until_done` returns, when it does. -/
def step (j : Joining) : JoinAction → Option U64 × Joining
  | .load =>
    match j.world.weave.round j.next with
    | none => (none, j)
    | some i =>
      match (j.world.weave.fibers.get i).tryHarvest with
      | some outcome => (some outcome, { j with next := j.next + 1 })
      | none => (none, j)
  | .finish i result => (none, { j with world := (j.world.step (.finish i result)).2 })

variable {j j' : Joining} {a : JoinAction} {i : Fin maxFibers} {result : U64}

theorem round_eq_some {weave : FabricWeave} {n : Nat} (h : weave.round n = some i) :
    i.val = n ∧ n < weave.count := by
  unfold FabricWeave.round at h
  split at h
  · next hlt =>
    obtain rfl := Option.some.inj h
    exact ⟨rfl, hlt.2⟩
  · cases h

/-! ### One step -/

/-- A slot whose fate no store can change keeps it. -/
theorem fate_step (hsame : ∀ result, (j.world.fate i).store result = j.world.fate i) :
    (j.step a).2.world.fate i = j.world.fate i := by
  cases a with
  | load =>
      rw [step]
      split
      · rfl
      · split <;> rfl
  | finish k result =>
      refine ((j.world.step_finish k result).2 i).trans ?_
      split
      · exact hsame result
      · rfl

/-! ## The invariant of the loop -/

/-- **In the loop over `n` slots**: each slot it has left behind is ready. -/
structure Joins (n : Nat) (j : Joining) : Prop where
  consistent : Consistent j.world
  count : j.world.weave.count = n
  bound : j.next ≤ n
  passed : ∀ i : Fin maxFibers, i.val < j.next → (j.world.fate i).ready = true

variable {n : Nat}

theorem Joins.step (hj : Joins n j) (a : JoinAction) : Joins n (j.step a).2 := by
  cases a with
  | load =>
      rw [Joining.step]
      cases hround : j.world.weave.round j.next with
      | none => exact hj
      | some i =>
          obtain ⟨hi, hlt⟩ := round_eq_some hround
          dsimp only [FabricFiber.tryHarvest]
          by_cases hout : (j.world.weave.fibers.get i).outcome = outcomePending
          · rw [if_pos hout]
            exact hj
          · rw [if_neg hout]
            refine ⟨hj.consistent, hj.count, hj.count ▸ hlt, ?_⟩
            intro k hk
            rcases Nat.lt_succ_iff_lt_or_eq.mp hk with hk | hk
            · exact hj.passed k hk
            · obtain rfl : k = i := Fin.ext (hk.trans hi.symm)
              exact hj.consistent.ready_of_outcome hout
  | finish k result =>
      obtain ⟨hcount, -⟩ := j.world.step_finish k result
      refine ⟨hj.consistent.move (j.world.step_moves _), hcount.trans hj.count, hj.bound, ?_⟩
      intro i hi
      have hready := hj.passed i hi
      rw [fate_step (a := .finish k result) (Fate.store_of_ready hready)]
      exact hready

variable {h : List JoinEvent} {allowed : List JoinEvent → JoinAction → Prop}

end Joining

end Slope.Fabric
