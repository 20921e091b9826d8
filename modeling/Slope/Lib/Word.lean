import Mathlib.Data.BitVec

/-!
# `Lib.Word` — fixed-width machine words

Unsigned machine integers are bitvectors: `BitVec w` already wraps on `+`, `-` and `*`. What is missing is
the *checked* and *saturating* arithmetic of a systems language. Each operation is defined by the exact
integer result it competes with, and comes with one lemma that says what it computes over `Nat`; proofs about
a program reason through these lemmas and never unfold the operations.
-/

namespace Slope

abbrev U8 := BitVec 8
abbrev U16 := BitVec 16
abbrev U32 := BitVec 32
abbrev U64 := BitVec 64

namespace Word

variable {w : Nat} {a b c : BitVec w}

/-! ## Checked arithmetic -/

/-- `a + b`, or `none` when the exact sum does not fit in `w` bits. -/
def checkedAdd (a b : BitVec w) : Option (BitVec w) :=
  if a.toNat + b.toNat < 2 ^ w then some (a + b) else none

/-- `a * b`, or `none` when the exact product does not fit in `w` bits. -/
def checkedMul (a b : BitVec w) : Option (BitVec w) :=
  if a.toNat * b.toNat < 2 ^ w then some (a * b) else none

/-- `a / b`, or `none` when `b` is zero. -/
def checkedDiv (a b : BitVec w) : Option (BitVec w) := if b = 0 then none else some (a / b)

theorem checkedAdd_eq_some : checkedAdd a b = some c ↔ c.toNat = a.toNat + b.toNat := by
  unfold checkedAdd
  split
  · next h =>
    rw [Option.some.injEq, BitVec.toNat_eq, BitVec.toNat_add, Nat.mod_eq_of_lt h]
    exact eq_comm
  · next h =>
    have hc := c.isLt
    constructor
    · intro he; cases he
    · intro he; omega

theorem checkedAdd_of_lt (h : a.toNat + b.toNat < 2 ^ w) : checkedAdd a b = some (a + b) := if_pos h

/-- A checked sum, when there is one, is the wrapping sum. -/
theorem eq_add_of_checkedAdd (h : checkedAdd a b = some c) : c = a + b := by
  have hfit : a.toNat + b.toNat < 2 ^ w := checkedAdd_eq_some.mp h ▸ c.isLt
  rw [checkedAdd_of_lt hfit] at h
  exact (Option.some.inj h).symm

theorem checkedAdd_eq_none : checkedAdd a b = none ↔ 2 ^ w ≤ a.toNat + b.toNat := by
  unfold checkedAdd
  split
  · next h => simp; omega
  · next h => simp; omega

theorem checkedMul_eq_some : checkedMul a b = some c ↔ c.toNat = a.toNat * b.toNat := by
  unfold checkedMul
  split
  · next h =>
    rw [Option.some.injEq, BitVec.toNat_eq, BitVec.toNat_mul, Nat.mod_eq_of_lt h]
    exact eq_comm
  · next h =>
    have hc := c.isLt
    constructor
    · intro he; cases he
    · intro he; omega

theorem checkedMul_of_lt (h : a.toNat * b.toNat < 2 ^ w) : checkedMul a b = some (a * b) := if_pos h

theorem checkedMul_eq_none : checkedMul a b = none ↔ 2 ^ w ≤ a.toNat * b.toNat := by
  unfold checkedMul
  split
  · next h => simp; omega
  · next h => simp; omega

theorem checkedDiv_eq_some : checkedDiv a b = some c ↔ b ≠ 0 ∧ c = a / b := by
  unfold checkedDiv
  split
  · next h => simp [h]
  · next h =>
    rw [Option.some.injEq]
    exact ⟨fun he => ⟨h, he.symm⟩, fun he => he.2.symm⟩

/-- A `usize` result computed exactly, or `none` when it does not fit in 64 bits. -/
def usize (n : Nat) : Option Nat := if n < 2 ^ 64 then some n else none

theorem ne_zero_iff : a ≠ 0 ↔ 0 < a.toNat := by
  rw [Nat.pos_iff_ne_zero, ne_eq, ne_eq, BitVec.toNat_eq, show (0 : BitVec w).toNat = 0 by simp]

/-- Zero extension keeps the value. -/
theorem toNat_zext {v : Nat} (h : w ≤ v) (a : BitVec w) : (a.setWidth v).toNat = a.toNat := by
  rw [BitVec.toNat_setWidth]
  exact Nat.mod_eq_of_lt (Nat.lt_of_lt_of_le a.isLt (Nat.pow_le_pow_right (by decide) h))

/-! ## Saturating arithmetic -/

/-- `a + b`, clamped to the largest `w`-bit value. -/
def saturatingAdd (a b : BitVec w) : BitVec w :=
  if a.toNat + b.toNat < 2 ^ w then a + b else BitVec.allOnes w

/-- `a - b`, clamped to zero. -/
def saturatingSub (a b : BitVec w) : BitVec w :=
  if b.toNat ≤ a.toNat then a - b else 0

/-- `a * b`, clamped to the largest `w`-bit value. -/
def saturatingMul (a b : BitVec w) : BitVec w :=
  if a.toNat * b.toNat < 2 ^ w then a * b else BitVec.allOnes w

theorem toNat_saturatingAdd : (saturatingAdd a b).toNat = min (a.toNat + b.toNat) (2 ^ w - 1) := by
  unfold saturatingAdd
  split
  · next h => rw [BitVec.toNat_add, Nat.mod_eq_of_lt h]; omega
  · next h => rw [BitVec.toNat_allOnes]; omega

theorem toNat_saturatingSub : (saturatingSub a b).toNat = a.toNat - b.toNat := by
  unfold saturatingSub
  split
  · next h => exact BitVec.toNat_sub_of_le (BitVec.le_def.mpr h)
  · next h => rw [show ((0 : BitVec w)).toNat = 0 from by simp]; omega

theorem toNat_saturatingMul : (saturatingMul a b).toNat = min (a.toNat * b.toNat) (2 ^ w - 1) := by
  unfold saturatingMul
  split
  · next h => rw [BitVec.toNat_mul, Nat.mod_eq_of_lt h]; omega
  · next h => rw [BitVec.toNat_allOnes]; omega

/-- A saturating increment below the top of the range is an ordinary one. -/
theorem toNat_saturatingAdd_of_lt (h : a.toNat + b.toNat < 2 ^ w) :
    (saturatingAdd a b).toNat = a.toNat + b.toNat := by
  rw [toNat_saturatingAdd]; omega

/-- A saturating subtraction takes back a saturating addition exactly when the addition did not saturate. -/
theorem saturatingSub_saturatingAdd :
    saturatingSub (saturatingAdd a b) b = a ↔ a.toNat + b.toNat < 2 ^ w := by
  rw [BitVec.toNat_eq, toNat_saturatingSub, toNat_saturatingAdd]
  have ha := a.isLt
  have hb := b.isLt
  omega

/-! ## Wrapping counters -/

/-- A counter that wraps shows the same value again after a multiple of its range. -/
theorem add_ofNat_eq_self {n : Nat} : a + BitVec.ofNat w n = a ↔ 2 ^ w ∣ n := by
  rw [BitVec.add_right_eq_self, ← BitVec.toNat_inj, BitVec.toNat_ofNat, BitVec.toNat_zero, Nat.dvd_iff_mod_eq_zero]

/-! ## Order -/

/-- The larger of two words, as unsigned integers. -/
def umax (a b : BitVec w) : BitVec w := if a.toNat ≤ b.toNat then b else a

/-- The smaller of two words, as unsigned integers. -/
def umin (a b : BitVec w) : BitVec w := if a.toNat ≤ b.toNat then a else b

theorem toNat_umax : (umax a b).toNat = max a.toNat b.toNat := by
  unfold umax
  split <;> omega

theorem toNat_umin : (umin a b).toNat = min a.toNat b.toNat := by
  unfold umin
  split <;> omega

end Word

/-- The value of an option, or the given error. -/
def okOr {ε α : Type*} (o : Option α) (e : ε) : Except ε α :=
  match o with
  | some a => .ok a
  | none => .error e

/-- A check passes exactly when its refusal does not apply and the checks after it pass. -/
theorem guard_ok {ε α : Type*} {refused : Prop} [Decidable refused] {err : ε} {rest : Except ε α} {a : α} :
    (if refused then .error err else rest) = .ok a ↔ ¬ refused ∧ rest = .ok a := by
  by_cases h : refused
  · simp [h]
  · simp [h]

end Slope
