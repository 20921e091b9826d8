import Mathlib.Logic.Function.Iterate
import Slope.Lib.Word

/-!
# `Lib.Serial` — serial numbers that skip zero

A counter of `w` bits gives out a number with each call and is then advanced by one, except that zero, which
stands for "no number", is replaced by one. The numbers go through all the nonzero words in order and start
again at one, so two calls get the same number exactly if they are a multiple of `2 ^ w - 1` calls apart.
-/

namespace Slope.Serial

variable {w : Nat}

/-- `next.wrapping_add(1).max(1)` -/
def advance (next : BitVec w) : BitVec w := Word.umax (next + 1) 1

/-- The number of call `n`, counted from zero. -/
def nth (w n : Nat) : BitVec w := advance^[n] 1

/-- How many numbers there are. -/
def period (w : Nat) : Nat := 2 ^ w - 1

theorem period_pos (hw : 0 < w) : 0 < period w := by
  have hlt : 1 < 2 ^ w := Nat.one_lt_two_pow (by omega)
  unfold period
  omega

theorem toNat_one (hw : 0 < w) : (1 : BitVec w).toNat = 1 := by
  have hlt : 1 < 2 ^ w := Nat.one_lt_two_pow (by omega)
  exact (BitVec.toNat_ofNat ..).trans (Nat.mod_eq_of_lt hlt)

/-- One step: up by one, or from the last number to the first. -/
theorem toNat_advance (hw : 0 < w) (next : BitVec w) :
    (advance next).toNat = if next.toNat = period w then 1 else next.toNat + 1 := by
  have hlt := next.isLt
  have hpos := period_pos hw
  unfold advance
  rw [Word.toNat_umax, BitVec.toNat_add, toNat_one hw]
  unfold period at hpos ⊢
  split
  next hlast =>
    rw [hlast, Nat.sub_add_cancel (by omega), Nat.mod_self]
    rfl
  next hnot =>
    rw [Nat.mod_eq_of_lt (by omega)]
    omega

theorem nth_succ (n : Nat) : nth w (n + 1) = advance (nth w n) := Function.iterate_succ_apply' ..

/-- **The numbers in closed form.** -/
theorem toNat_nth (hw : 0 < w) (n : Nat) : (nth w n).toNat = n % period w + 1 := by
  have hpos := period_pos hw
  induction n with
  | zero => rw [Nat.zero_mod]; exact toNat_one hw
  | succ n ih =>
      have hmod := Nat.mod_lt n hpos
      rw [nth_succ, toNat_advance hw, ih, ← Nat.mod_add_mod n (period w) 1]
      split
      next hlast => rw [hlast, Nat.mod_self]
      next hnot => rw [Nat.mod_eq_of_lt (show n % period w + 1 < period w by omega)]

theorem nth_ne_zero (hw : 0 < w) (n : Nat) : nth w n ≠ 0 := by
  intro h
  have hnat := toNat_nth hw n
  rw [h, BitVec.ofNat_eq_ofNat, BitVec.toNat_ofNat, Nat.zero_mod] at hnat
  omega

/-- **Two calls share a number** exactly if they are a whole number of rounds apart. -/
theorem nth_eq_iff (hw : 0 < w) {m n : Nat} : nth w m = nth w n ↔ m % period w = n % period w := by
  rw [← BitVec.toNat_inj, toNat_nth hw, toNat_nth hw]
  omega

end Slope.Serial
