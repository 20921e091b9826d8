import Mathlib.Algebra.Order.BigOperators.Group.List
import Mathlib.Algebra.Ring.Nat

/-!
# `Lib.Apportion` — proportional shares

A total is divided among weights: everyone first gets the floor of the exact share, and what the floors leave
over goes, one unit each, to the first entries. The floors never exceed the total (`sum_floors_le`) and leave
less than one unit per weight (`leftover_lt`), so the units handed out afterwards make the shares sum to the
total exactly (`sum_shares`).
-/

namespace Slope.Apportion

/-- The floors of the exact shares. -/
def floors (total : Nat) (ws : List Nat) : List Nat := ws.map fun w => total * w / ws.sum

/-- What the floors leave over. -/
def leftover (total : Nat) (ws : List Nat) : Nat := total - (floors total ws).sum

/-- One more for each of the first `k` entries. -/
def bump (k : Nat) (xs : List Nat) : List Nat := xs.mapIdx fun i x => if i < k then x + 1 else x

/-- The shares: the floors, and the leftover in order. -/
def shares (total : Nat) (ws : List Nat) : List Nat := bump (leftover total ws) (floors total ws)

/-! ## Floors -/

/-- The floor of a share can be computed from the quotient and the residual of the total. -/
theorem quotient_add_residual {sum : Nat} (hsum : 0 < sum) (total w : Nat) :
    total / sum * w + total % sum * w / sum = total * w / sum := by
  have hsplit : total * w = total % sum * w + sum * (total / sum * w) := by
    conv_lhs => rw [← Nat.mod_add_div total sum]
    rw [Nat.add_mul, Nat.mul_assoc]
  rw [hsplit, Nat.add_mul_div_left _ _ hsum, Nat.add_comm]

theorem sum_floors_mul_le (total sum : Nat) (ws : List Nat) :
    (ws.map fun w => total * w / sum).sum * sum ≤ total * ws.sum := by
  induction ws with
  | nil => simp
  | cons w ws ih =>
      rw [List.map_cons, List.sum_cons, List.sum_cons, Nat.add_mul, Nat.mul_add]
      exact Nat.add_le_add (Nat.div_mul_le_self ..) ih

theorem lt_sum_floors_mul {sum : Nat} (hsum : 0 < sum) (total : Nat) (ws : List Nat) (hws : ws ≠ []) :
    total * ws.sum < ((ws.map fun w => total * w / sum).sum + ws.length) * sum := by
  induction ws with
  | nil => exact absurd rfl hws
  | cons w ws ih =>
      have hhead : total * w < (total * w / sum + 1) * sum := by
        rw [Nat.mul_comm _ sum]
        exact Nat.lt_mul_div_succ _ hsum
      rw [List.map_cons, List.sum_cons, List.sum_cons, List.length_cons, Nat.mul_add]
      rcases eq_or_ne ws [] with rfl | hne
      · simpa using hhead
      · have htail := ih hne
        calc total * w + total * ws.sum
            < (total * w / sum + 1) * sum + ((ws.map fun w => total * w / sum).sum + ws.length) * sum :=
              Nat.add_lt_add hhead htail
          _ = (total * w / sum + (ws.map fun w => total * w / sum).sum + (ws.length + 1)) * sum := by
              rw [← Nat.add_mul]
              congr 1
              omega

variable {total : Nat} {ws : List Nat}

theorem sum_floors_le (hsum : 0 < ws.sum) : (floors total ws).sum ≤ total :=
  Nat.le_of_mul_le_mul_right (sum_floors_mul_le total ws.sum ws) hsum

theorem leftover_lt (hsum : 0 < ws.sum) : leftover total ws < ws.length := by
  have hws : ws ≠ [] := by
    rintro rfl
    exact absurd hsum (by decide)
  have hlt : total < (floors total ws).sum + ws.length :=
    Nat.lt_of_mul_lt_mul_right (lt_sum_floors_mul hsum total ws hws)
  have hle : (floors total ws).sum ≤ total := sum_floors_le hsum
  rw [leftover]
  omega

/-! ## Handing out the leftover -/

@[simp] theorem length_floors : (floors total ws).length = ws.length := List.length_map ..

@[simp] theorem length_bump (k : Nat) (xs : List Nat) : (bump k xs).length = xs.length := List.length_mapIdx

theorem getElem_bump (k : Nat) (xs : List Nat) (i : Nat) (h : i < (bump k xs).length) (hx : i < xs.length) :
    (bump k xs)[i] = xs[i] + if i < k then 1 else 0 := by
  simp only [bump, List.getElem_mapIdx]
  split <;> rfl

theorem bump_zero (xs : List Nat) : bump 0 xs = xs := by
  apply List.ext_getElem (length_bump 0 xs)
  intro i h hx
  rw [getElem_bump 0 xs i h hx, if_neg (Nat.not_lt_zero i), Nat.add_zero]

/-- One entry after another. -/
theorem set_bump {xs : List Nat} {i : Nat} (hi : i < xs.length) :
    (bump i xs).set i (xs[i] + 1) = bump (i + 1) xs := by
  apply List.ext_getElem
  · simp
  · intro j h₁ h₂
    have hj : j < xs.length := by simpa using h₂
    rw [List.getElem_set, getElem_bump (i + 1) xs j h₂ hj]
    by_cases hij : i = j
    · subst hij
      simp
    · rw [if_neg hij, getElem_bump i xs j (by simpa using hj) hj]
      have : j < i ↔ j < i + 1 := by omega
      simp [this]

theorem sum_bump (xs : List Nat) (k : Nat) (h : k ≤ xs.length) : (bump k xs).sum = xs.sum + k := by
  induction xs generalizing k with
  | nil =>
      obtain rfl : k = 0 := Nat.le_zero.mp h
      rfl
  | cons x xs ih =>
      cases k with
      | zero => rw [bump_zero, Nat.add_zero]
      | succ k =>
          have htail : xs.mapIdx (fun i y => if i + 1 < k + 1 then y + 1 else y) = bump k xs := by
            simp [bump]
          rw [bump, List.mapIdx_cons, htail, List.sum_cons, List.sum_cons, ih k (by simpa using h),
            if_pos (Nat.succ_pos k)]
          omega

@[simp] theorem length_shares : (shares total ws).length = ws.length := by
  rw [shares, length_bump, length_floors]

theorem getElem?_shares {i : Nat} (hi : i < ws.length) :
    (shares total ws)[i]? = some (total * ws[i] / ws.sum + if i < leftover total ws then 1 else 0) := by
  have hs : i < (shares total ws).length := by rwa [length_shares]
  have hf : i < (floors total ws).length := by rwa [length_floors]
  have hfloor : (floors total ws)[i] = total * ws[i] / ws.sum := List.getElem_map ..
  rw [List.getElem?_eq_getElem hs, ← hfloor]
  exact congrArg some (getElem_bump _ _ i hs hf)

/-- **Nothing is lost.** -/
theorem sum_shares (hsum : 0 < ws.sum) : (shares total ws).sum = total := by
  have hle : (floors total ws).sum ≤ total := sum_floors_le hsum
  rw [shares, sum_bump _ _ (by rw [length_floors]; exact (leftover_lt hsum).le), leftover]
  omega

end Slope.Apportion
