import Mathlib.Data.Fintype.Fin
import Slope.Fabric.Weave

/-!
# `Fabric.Harvest` — what a weave reports over a run

`harvest_all` changes neither the outcome words nor the count. So a finished fiber is reported as often as its
slot is loaded after it has finished, unless its result is the word for a pending fiber, when it is never
reported; and `live_count` goes on counting every slot that was ever taken.

`Consistent` ties the weave to the fates of its slots and `Tally` ties the history to them. Both hold along
every run, and together they say what the history of any run reports.
-/

namespace Slope.Fabric

open Slope

/-! ## The weave and its fates -/

def Fate.isFinished : Fate → Bool
  | .finished _ _ => true
  | _ => false

/-- What the cell of a slot holds, by the slot's fate. -/
def Fate.Fits : Fate → FabricFiber → Prop
  | .free, fiber => fiber.outcome = outcomePending
  | .taken, fiber => fiber.outcome = outcomePending
  | .running tid, fiber => fiber = ⟨outcomePending, tid⟩
  | .finished tid result, fiber => fiber = ⟨result, tid⟩

structure Consistent (w : World) : Prop where
  bound : w.weave.count ≤ maxFibers
  taken : ∀ i, w.fate i ≠ .free ↔ i.val < w.weave.count
  cell : ∀ i, (w.fate i).Fits (w.weave.fibers.get i)

theorem FabricWeave.get_put (weave : FabricWeave) (i j : Fin maxFibers) (fiber : FabricFiber) :
    (weave.put i fiber).fibers.get j = if j = i then fiber else weave.fibers.get j := by
  have hset : (weave.put i fiber).fibers.get j = if i.val = j.val then fiber else weave.fibers.get j :=
    Vector.getElem_set i.isLt j.isLt
  rw [hset]
  by_cases hij : j = i
  · rw [if_pos hij, if_pos (congrArg Fin.val hij.symm)]
  · rw [if_neg hij, if_neg (fun h => hij (Fin.ext h.symm))]

/-- Writing a slot's cell and changing its fate together keeps the two in step. -/
theorem Consistent.write {w : World} (hc : Consistent w) {i : Fin maxFibers} {fiber : FabricFiber}
    {f : Fate} (hi : w.fate i ≠ .free) (hf : f ≠ .free) (hfit : f.Fits fiber) :
    Consistent { w with weave := w.weave.put i fiber, fate := Function.update w.fate i f } := by
  refine ⟨hc.bound, ?_, ?_⟩
  · intro j
    by_cases hj : j = i
    · subst hj
      simpa [hf, FabricWeave.put] using (hc.taken j).mp hi
    · simpa [hj, FabricWeave.put] using hc.taken j
  · intro j
    rw [FabricWeave.get_put]
    by_cases hj : j = i
    · subst hj
      simpa using hfit
    · simpa [hj] using hc.cell j

theorem Consistent.move {w w' : World} {a : Action} {r : Response} (hc : Consistent w)
    (hm : w.Moves a r w') : Consistent w' := by
  cases hm with
  | blocked => exact hc
  | full => exact hc
  | took i hi =>
      have hfree : w.fate i = .free := by
        by_contra hne
        have hlt := (hc.taken i).mp hne
        omega
      refine ⟨by have := i.isLt; simp only; omega, ?_, ?_⟩
      · intro j
        by_cases hj : j = i
        · subst hj
          simp [hi]
        · have hne : j.val ≠ w.weave.count := fun h => hj (Fin.ext (h.trans hi.symm))
          have htaken := hc.taken j
          simp only [Function.update_of_ne hj, htaken]
          omega
      · intro j
        by_cases hj : j = i
        · subst hj
          have hcell := hc.cell j
          rw [hfree] at hcell
          simp only [Function.update_self]
          exact hcell
        · simpa [hj] using hc.cell j
  | spawned i tid hi => exact hc.write (by simp [hi]) (by simp) rfl
  | spawnFailed i err hi =>
      have hw := hc.write (i := i) (f := .taken) (by simp [hi]) (by simp)
        (show Fate.Fits .taken { w.weave.fibers.get i with outcome := outcomePending } from rfl)
      rwa [← hi, Function.update_eq_self] at hw
  | finished i tid result hi =>
      have hcell := hc.cell i
      rw [hi] at hcell
      refine hc.write (by simp [hi]) (by simp) ?_
      rw [show w.weave.fibers.get i = ⟨outcomePending, tid⟩ from hcell]
      rfl
  | began => exact ⟨hc.bound, hc.taken, hc.cell⟩
  | reported => exact ⟨hc.bound, hc.taken, hc.cell⟩
  | passed => exact ⟨hc.bound, hc.taken, hc.cell⟩

/-- A run of a weave among its threads, its history oldest event first. -/
abbrev History := List (Event World Action Response)

/-- The call of `on_done` for slot `i`, if the response is one. -/
def Response.reportFor (i : Fin maxFibers) : Response → Option (U64 × U64)
  | .reported j tid outcome => if j = i then some (tid, outcome) else none
  | _ => none

/-- The calls of `on_done` for the fiber in slot `i`. -/
def reportsOf (h : History) (i : Fin maxFibers) : List (U64 × U64) :=
  h.filterMap fun e => e.result.reportFor i

/-- The slot whose finished fiber the action looks at, if it does. -/
def World.visits (w : World) : Action → Option (Fin maxFibers)
  | .load => w.cursor.filter fun i => (w.fate i).isFinished
  | _ => none

/-- The slots at which a `harvest_all` looked after their fibers had finished, one entry per look. -/
def visited (h : History) : List (Fin maxFibers) :=
  h.filterMap fun e => e.pre.visits e.call

/-- What `n` looks at a slot report of it. -/
def Fate.delivered (n : Nat) : Fate → List (U64 × U64)
  | .finished tid result => if result = outcomePending then [] else List.replicate n (tid, result)
  | _ => []

theorem Fate.delivered_of_not_finished {f : Fate} (hf : f.isFinished = false) (n : Nat) :
    f.delivered n = [] := by
  cases f with
  | finished tid result => simp [isFinished] at hf
  | _ => rfl

theorem Fate.delivered_zero (f : Fate) : f.delivered 0 = [] := by
  cases f with
  | finished tid result => simp [delivered]
  | _ => rfl

theorem Fate.delivered_add (f : Fate) (m n : Nat) : f.delivered (m + n) = f.delivered m ++ f.delivered n := by
  cases f with
  | finished tid result =>
      unfold delivered
      by_cases hr : result = outcomePending
      · simp [hr]
      · simp only [if_neg hr]
        exact List.replicate_add m n _
  | _ => rfl

/-- A finished fiber keeps its slot. -/
theorem fate_of_finished {w w' : World} {a : Action} {r : Response} (hm : w.Moves a r w')
    {j : Fin maxFibers} (hfin : (w.fate j).isFinished = true) (hc : Consistent w) : w'.fate j = w.fate j := by
  have hkeep : ∀ i (f : Fate), (w.fate i).isFinished = false → Function.update w.fate i f j = w.fate j := by
    intro i f hi
    rw [Function.update_of_ne]
    intro hji
    rw [hji, hi] at hfin
    cases hfin
  cases hm with
  | took i hi =>
      refine hkeep i _ ?_
      have hfree : ¬ w.fate i ≠ .free := by rw [hc.taken i]; omega
      rw [not_not.mp hfree]
      rfl
  | spawned i tid hi => exact hkeep i _ (by rw [hi]; rfl)
  | finished i tid result hi => exact hkeep i _ (by rw [hi]; rfl)
  | _ => rfl

/-- A look at slot `j` delivers nothing for the other slots, and nothing for a fiber that has not finished. -/
theorem delivered_visits_load {w : World} {j : Fin maxFibers} (hj : w.cursor = some j) (i : Fin maxFibers) :
    (w.fate i).delivered ((w.visits .load).toList.count i) = if j = i then (w.fate i).delivered 1 else [] := by
  have hvisits : w.visits .load = if (w.fate j).isFinished then some j else none := by
    rw [World.visits, hj]
    rfl
  by_cases hji : j = i
  · subst hji
    rw [if_pos rfl, hvisits]
    by_cases hfin : (w.fate j).isFinished = true
    · simp [hfin]
    · rw [Fate.delivered_of_not_finished (by simpa using hfin), Fate.delivered_of_not_finished (by simpa using hfin)]
  · rw [if_neg hji, hvisits]
    have hcount : (if (w.fate j).isFinished then some j else none : Option _).toList.count i = 0 := by
      by_cases hfin : (w.fate j).isFinished = true
      · simp [hfin, hji]
      · simp [hfin]
    rw [hcount, Fate.delivered_zero]

/-- **The cell of a slot tells what one look at it delivers.** -/
theorem Consistent.delivered_one {w : World} (hc : Consistent w) (j : Fin maxFibers) :
    (w.fate j).delivered 1 =
      if (w.weave.fibers.get j).outcome = outcomePending then []
      else [((w.weave.fibers.get j).tid, (w.weave.fibers.get j).outcome)] := by
  have hcell := hc.cell j
  cases hf : w.fate j with
  | free | taken =>
      rw [hf] at hcell
      have hpending : (w.weave.fibers.get j).outcome = outcomePending := hcell
      rw [if_pos hpending]
      rfl
  | running tid =>
      rw [hf] at hcell
      rw [show w.weave.fibers.get j = ⟨outcomePending, tid⟩ from hcell]
      rfl
  | finished tid result =>
      rw [hf] at hcell
      rw [show w.weave.fibers.get j = ⟨result, tid⟩ from hcell]
      rfl

/-- **What one step reports.** A step reports a slot only if it looks at its finished fiber, and then what the
    fiber left. -/
theorem report_of_move {w w' : World} {a : Action} {r : Response} (hc : Consistent w) (hm : w.Moves a r w')
    (i : Fin maxFibers) :
    (r.reportFor i).toList = (w.fate i).delivered ((w.visits a).toList.count i) := by
  cases hm with
  | blocked a ha =>
      cases a with
      | load => simp [Response.reportFor, World.visits, ha rfl, Fate.delivered_zero]
      | _ => simp [Response.reportFor, World.visits, Fate.delivered_zero]
  | reported j hj hout =>
      rw [delivered_visits_load hj]
      by_cases hji : j = i
      · subst hji
        rw [if_pos rfl, hc.delivered_one, if_neg hout, Response.reportFor, if_pos rfl]
        rfl
      · rw [if_neg hji, Response.reportFor, if_neg hji]
        rfl
  | passed j hj hout =>
      rw [delivered_visits_load hj]
      by_cases hji : j = i
      · subst hji
        rw [if_pos rfl, hc.delivered_one, if_pos hout]
        rfl
      · rw [if_neg hji]
        rfl
  | _ => simp [Response.reportFor, World.visits, Fate.delivered_zero]

/-- A step looks only at fibers that have finished. -/
theorem count_visits_of_not_finished {w : World} {i : Fin maxFibers} (hi : (w.fate i).isFinished = false)
    (a : Action) : (w.visits a).toList.count i = 0 := by
  rw [List.count_eq_zero, Option.mem_toList]
  intro hmem
  cases a with
  | load =>
      have hfin := (Option.filter_eq_some_iff.mp hmem).2
      rw [hi] at hfin
      cases hfin
  | _ => cases hmem

/-! ## The reports of a run -/

/-- What the history has reported of each slot, by its fate and the number of looks at it. -/
structure Tally (h : History) (w : World) : Prop where
  reports : ∀ i, reportsOf h i = (w.fate i).delivered ((visited h).count i)
  unseen : ∀ i, (w.fate i).isFinished = false → (visited h).count i = 0

theorem Tally.move {h : History} {w w' : World} {a : Action} {r : Response} (hc : Consistent w)
    (ht : Tally h w) (hm : w.Moves a r w') : Tally (h ++ [⟨w, a, r, w'⟩]) w' := by
  have hreports : ∀ i, reportsOf (h ++ [⟨w, a, r, w'⟩]) i = reportsOf h i ++ (r.reportFor i).toList :=
    fun i => filterMap_snoc _ h _
  have hvisited : visited (h ++ [⟨w, a, r, w'⟩]) = visited h ++ (w.visits a).toList := filterMap_snoc _ h _
  have hcount : ∀ i, (w.fate i).isFinished = false → (visited (h ++ [⟨w, a, r, w'⟩])).count i = 0 := by
    intro i hi
    rw [hvisited, List.count_append, ht.unseen i hi, count_visits_of_not_finished hi]
  refine ⟨?_, ?_⟩
  · intro i
    have hgrown : reportsOf (h ++ [⟨w, a, r, w'⟩]) i =
        (w.fate i).delivered ((visited (h ++ [⟨w, a, r, w'⟩])).count i) := by
      rw [hreports, ht.reports, report_of_move hc hm, hvisited, List.count_append, Fate.delivered_add]
    -- a finished fiber keeps its fate; before that nothing was delivered, whatever the slot becomes
    cases hi : (w.fate i).isFinished with
    | true => rw [hgrown, fate_of_finished hm hi hc]
    | false => rw [hgrown, hcount i hi, Fate.delivered_zero, Fate.delivered_zero]
  · intro i hi'
    cases hi : (w.fate i).isFinished with
    | true =>
        rw [fate_of_finished hm hi hc, hi] at hi'
        cases hi'
    | false => exact hcount i hi

/-- The slots taken whose fiber has not been reported. -/
def liveFibers (h : History) (w : World) : Nat :=
  (Finset.univ.filter fun i => w.fate i ≠ .free ∧ reportsOf h i = []).card

/-- A history that delivers each result once. A fiber that a `harvest_all` has looked at after it finished was
    reported once, with its own thread id and result, and no other fiber was; `live_count` is the number of
    live fibers; and `next_slot` was refused only while all fibers were live. -/
structure Delivers (h : History) (w : World) : Prop where
  once : ∀ i tid result, w.fate i = .finished tid result →
    reportsOf h i = if i ∈ visited h then [(tid, result)] else []
  early : ∀ i, (w.fate i).isFinished = false → reportsOf h i = []
  live : w.weave.liveCount = liveFibers h w
  full : ∀ h₁ e h₂, h = h₁ ++ e :: h₂ → e.result = .slot none → liveFibers h₁ e.pre = maxFibers

end Slope.Fabric
