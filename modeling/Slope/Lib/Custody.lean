import Mathlib.Algebra.BigOperators.Group.Finset.Basic
import Mathlib.Data.Fintype.Basic

/-!
# `Lib.Custody` — what finitely many keepers hold between them

Goods, counted in a commutative monoid, are spread over finitely many keepers. A step changes what one keeper has, in
exchange with the outside or with a keeper of another kind; `total_exchange` says what that does to the total. An
account over several kinds of keepers is then a sum of totals, and a step keeps it balanced when its exchanges cancel.
-/

namespace Slope.Custody

variable {ι M : Type*} [Fintype ι] [AddCommMonoid M] {f g : ι → M}

/-- What all keepers have. -/
def total (f : ι → M) : M := ∑ i, f i

theorem total_zero (h : ∀ i, f i = 0) : total f = 0 := Finset.sum_eq_zero fun i _ => h i

theorem total_congr (h : ∀ i, g i = f i) : total g = total f := Finset.sum_congr rfl fun i _ => h i

/-- **Exchange.** When only keeper `i` changes, and gives `a` for `b`, so do all keepers together. -/
theorem total_exchange {i : ι} {a b : M} (hsame : ∀ j, j ≠ i → g j = f j) (h : g i + a = f i + b) :
    total g + a = total f + b := by
  classical
  have hrest : ∑ j ∈ Finset.univ.erase i, g j = ∑ j ∈ Finset.univ.erase i, f j :=
    Finset.sum_congr rfl fun j hj => hsame j (Finset.ne_of_mem_erase hj)
  unfold total
  rw [← Finset.sum_erase_add _ g (Finset.mem_univ i), ← Finset.sum_erase_add _ f (Finset.mem_univ i), hrest,
    add_assoc, h, ← add_assoc]

end Slope.Custody
