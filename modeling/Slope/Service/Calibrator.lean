import Mathlib.Algebra.Order.Floor.Div
import Mathlib.Data.List.Sort
import Slope.Service.Curve

/-!
# `Service.Calibrator` — the one-sided conformal residual calibrator

A fixed ring of `N` residuals. `push` overwrites the slot under the cursor, reseals the root and returns the
new guard: the order statistic of the retained residuals at the configured coverage, plus a slack, clamped.
The bounds that the source's array indexing relies on are carried by the types of `length` and `cursor`.
-/

namespace Slope.Service

open Word

def defaultConformalNumerator : U8 := 15
def defaultConformalDenominator : U8 := 16

inductive CalibrationFault where
  | zeroCapacity
  | invalidCoverage
  | timeRegression
  | arithmeticOverflow
  | corruptCertificate
deriving DecidableEq

structure ResidualCalibrator (N : Nat) where
  residuals : Vector U64 N
  length : Fin (N + 1)
  cursor : Fin N
  samples : U64
  coverageNumerator : U8
  coverageDenominator : U8
  additiveSlack : U64
  maximumGuard : U64
  secret : U64
  root : U64
deriving DecidableEq

namespace ResidualCalibrator

variable {N : Nat}

/-- The residuals in use, `residuals[..length]`. -/
def retained (c : ResidualCalibrator N) : List U64 := c.residuals.toList.take c.length

def calibratorRoot (c : ResidualCalibrator N) : U64 :=
  let state := mix c.secret c.samples
  let state := mix state (BitVec.ofNat 64 c.length)
  let state := mix state (BitVec.ofNat 64 c.cursor)
  let state := mix state (c.coverageNumerator.setWidth 64 ||| (c.coverageDenominator.setWidth 64 <<< 8))
  let state := mix state c.additiveSlack
  let state := mix state c.maximumGuard
  c.retained.foldl mix state

def sealRoot (c : ResidualCalibrator N) : ResidualCalibrator N := { c with root := c.calibratorRoot }

def new (N : Nat) (coverageNumerator coverageDenominator : U8) (additiveSlack maximumGuard secret : U64) :
    Except CalibrationFault (ResidualCalibrator N) :=
  if hN : N = 0 then .error .zeroCapacity
  else if coverageNumerator = 0 ∨ coverageDenominator = 0 ∨ coverageDenominator ≤ coverageNumerator
      ∨ maximumGuard = 0 ∨ secret = 0 then
    .error .invalidCoverage
  else
    .ok <| sealRoot
      { residuals := Vector.replicate N 0, length := 0, cursor := ⟨0, Nat.pos_of_ne_zero hN⟩, samples := 0,
        coverageNumerator, coverageDenominator, additiveSlack, maximumGuard, secret, root := 0 }

def kernelDefault (N : Nat) (additiveSlack maximumGuard secret : U64) :
    Except CalibrationFault (ResidualCalibrator N) :=
  new N defaultConformalNumerator defaultConformalDenominator additiveSlack maximumGuard secret

/-- Eight empty slots with the default coverage. -/
def eightEmpty (maximumGuard secret : U64) : ResidualCalibrator 8 :=
  sealRoot
    { residuals := Vector.replicate 8 0, length := 0, cursor := 0, samples := 0
      coverageNumerator := 15, coverageDenominator := 16, additiveSlack := 1, maximumGuard, secret, root := 0 }

/-- The guard of the retained residuals. `usize` arithmetic is exact over `Nat` and checked against 64 bits;
    the index is below `length`, so reading the sorted prefix never leaves it. -/
def guard (c : ResidualCalibrator N) : Except CalibrationFault U64 :=
  if c.length = 0 then .ok (umin c.additiveSlack c.maximumGuard)
  else do
    let sorted := c.retained.insertionSort (· ≤ ·)
    let count ← okOr (usize (c.length + 1)) .arithmeticOverflow
    let numerator ← okOr (usize (count * c.coverageNumerator.toNat)) .arithmeticOverflow
    let denominator := c.coverageDenominator.toNat
    -- the rank is the ceiling of `(length + 1) * coverage`, and counts from one
    let rounded ← okOr (usize (numerator + (denominator - 1))) .arithmeticOverflow
    let rank := rounded / denominator
    let index := min (rank - 1) (c.length - 1)
    let value ← okOr (checkedAdd (sorted.getD index 0) c.additiveSlack) .arithmeticOverflow
    .ok (umin value c.maximumGuard)

/-- The state change of `push`: store the clipped residual, move the cursor, count, reseal. -/
def record (c : ResidualCalibrator N) (residual : U64) : ResidualCalibrator N :=
  sealRoot { c with
    residuals := c.residuals.set c.cursor (umin residual c.maximumGuard)
    cursor := ⟨(c.cursor + 1) % N, Nat.mod_lt _ (Nat.lt_of_le_of_lt (Nat.zero_le _) c.cursor.isLt)⟩
    length := ⟨min (c.length + 1) N, Nat.lt_succ_of_le (Nat.min_le_right _ _)⟩
    samples := saturatingAdd c.samples 1 }

/-- The sample is recorded before the guard is computed, so a failing guard leaves it recorded. -/
def push (c : ResidualCalibrator N) (residual : U64) :
    Except CalibrationFault U64 × ResidualCalibrator N :=
  ((c.record residual).guard, c.record residual)

def verifyRoot (c : ResidualCalibrator N) : Bool := c.root == c.calibratorRoot

/-! ## The guard in closed form -/

/-- The rank of the order statistic, from one: the coverage of `length + 1`, rounded up, and at most `length`. -/
def rank (c : ResidualCalibrator N) : Nat :=
  min (c.length : Nat) (((c.length : Nat) + 1) * c.coverageNumerator.toNat ⌈/⌉ c.coverageDenominator.toNat)

/-- The rank computation fits in a `usize`. -/
def RankFits (c : ResidualCalibrator N) : Prop :=
  ((c.length : Nat) + 1) * c.coverageNumerator.toNat + (c.coverageDenominator.toNat - 1) < 2 ^ 64

theorem guard_of_length_eq_zero {c : ResidualCalibrator N} (h : (c.length : Nat) = 0) :
    c.guard = .ok (umin c.additiveSlack c.maximumGuard) := by
  have hzero : c.length = 0 := Fin.ext h
  rw [guard, if_pos hzero]

/-- When the rank can be computed, the guard fails only in the last addition. -/
theorem guard_eq {c : ResidualCalibrator N} (hlen : (c.length : Nat) ≠ 0) (hnum : 0 < c.coverageNumerator.toNat)
    (hden : 0 < c.coverageDenominator.toNat) (hfit : c.RankFits) :
    c.guard = (okOr (checkedAdd ((c.retained.insertionSort (· ≤ ·)).getD (c.rank - 1) 0) c.additiveSlack)
      .arithmeticOverflow).map (umin · c.maximumGuard) := by
  unfold RankFits at hfit
  have hne : c.length ≠ 0 := fun h => hlen (congrArg Fin.val h)
  have hone : (c.length : Nat) + 1 ≤ ((c.length : Nat) + 1) * c.coverageNumerator.toNat :=
    Nat.le_mul_of_pos_right _ hnum
  have hcount : usize ((c.length : Nat) + 1) = some ((c.length : Nat) + 1) := if_pos (by omega)
  have hproduct : usize (((c.length : Nat) + 1) * c.coverageNumerator.toNat)
      = some (((c.length : Nat) + 1) * c.coverageNumerator.toNat) := if_pos (by omega)
  have hround : usize (((c.length : Nat) + 1) * c.coverageNumerator.toNat + (c.coverageDenominator.toNat - 1))
      = some (((c.length : Nat) + 1) * c.coverageNumerator.toNat + (c.coverageDenominator.toNat - 1)) :=
    if_pos hfit
  have hindex : min ((((c.length : Nat) + 1) * c.coverageNumerator.toNat + (c.coverageDenominator.toNat - 1))
      / c.coverageDenominator.toNat - 1) ((c.length : Nat) - 1) = c.rank - 1 := by
    rw [rank, Nat.ceilDiv_eq_add_pred_div, Nat.add_sub_assoc (show 1 ≤ c.coverageDenominator.toNat from hden)]
    omega
  rw [guard, if_neg hne]
  dsimp only
  rw [hcount]
  dsimp only [okOr, bind, Except.bind]
  rw [hproduct]
  dsimp only
  rw [hround]
  dsimp only
  rw [hindex]
  cases checkedAdd ((c.retained.insertionSort (· ≤ ·)).getD (c.rank - 1) 0) c.additiveSlack with
  | none => rfl
  | some value => rfl

/-! ## Calibrators a controller builds -/

/-- The configuration `kernel_default` gives a calibrator, with every stored residual short of the largest
    word. `record` keeps it as long as the residuals pushed are short of it too. -/
structure Tame (c : ResidualCalibrator N) : Prop where
  numerator : c.coverageNumerator = defaultConformalNumerator
  denominator : c.coverageDenominator = defaultConformalDenominator
  slack : c.additiveSlack = 1
  residuals_lt : ∀ r ∈ c.residuals.toList, r.toNat + 1 < 2 ^ 64

theorem tame_kernelDefault {maximumGuard secret : U64} {c : ResidualCalibrator N}
    (h : kernelDefault N 1 maximumGuard secret = .ok c) : c.Tame ∧ c.maximumGuard = maximumGuard := by
  unfold kernelDefault new at h
  split at h
  · cases h
  split at h
  · cases h
  obtain rfl := Except.ok.inj h
  refine ⟨⟨rfl, rfl, rfl, ?_⟩, rfl⟩
  intro r hr
  have hr : r ∈ List.replicate N (0 : U64) := by simpa [sealRoot] using hr
  rw [List.eq_of_mem_replicate hr]
  decide

theorem tame_record {c : ResidualCalibrator N} (hc : c.Tame) {residual : U64}
    (hr : residual.toNat + 1 < 2 ^ 64) : (c.record residual).Tame := by
  refine ⟨hc.numerator, hc.denominator, hc.slack, ?_⟩
  intro r hr'
  have hset : (c.record residual).residuals.toList
      = c.residuals.toList.set c.cursor (umin residual c.maximumGuard) :=
    Vector.toList_set c.cursor.isLt
  rw [hset] at hr'
  rcases List.mem_or_eq_of_mem_set hr' with hold | rfl
  · exact hc.residuals_lt r hold
  · -- clipping only makes the residual smaller
    rw [toNat_umin]; omega

/-- A read of the sorted residuals, in range or not, is short of the largest word. -/
theorem Tame.sorted_getD_lt {c : ResidualCalibrator N} (hc : c.Tame) (i : Nat) :
    ((c.retained.insertionSort (· ≤ ·)).getD i 0).toNat + 1 < 2 ^ 64 := by
  rw [List.getD_eq_getElem?_getD]
  cases hi : (c.retained.insertionSort (· ≤ ·))[i]? with
  | none => decide
  | some r =>
      have hmem : r ∈ c.retained := (List.mem_insertionSort (· ≤ ·)).mp (List.mem_of_getElem? hi)
      exact hc.residuals_lt r (List.mem_of_mem_take hmem)

/-- **The guard of a tame calibrator never overflows**, for every capacity an array of words can have, and
    stays within the maximum guard; it is positive when that is. -/
theorem Tame.guard_ok {c : ResidualCalibrator N} (hc : c.Tame) (hN : N < 2 ^ 60) :
    ∃ g, c.guard = .ok g ∧ min 1 c.maximumGuard.toNat ≤ g.toNat ∧ g.toNat ≤ c.maximumGuard.toNat := by
  have h1 : (1 : U64).toNat = 1 := rfl
  by_cases hlen : (c.length : Nat) = 0
  · refine ⟨_, guard_of_length_eq_zero hlen, ?_⟩
    rw [hc.slack, toNat_umin, h1]
    omega
  · have hle : (c.length : Nat) ≤ N := Nat.le_of_lt_succ c.length.isLt
    have h15 : c.coverageNumerator.toNat = 15 := by rw [hc.numerator]; rfl
    have h16 : c.coverageDenominator.toNat = 16 := by rw [hc.denominator]; rfl
    have hfit : c.RankFits := by
      rw [RankFits, h15, h16]
      omega
    have hread := hc.sorted_getD_lt (c.rank - 1)
    generalize hr : (c.retained.insertionSort (· ≤ ·)).getD (c.rank - 1) 0 = r at hread
    have hvalue : checkedAdd r c.additiveSlack = some (r + 1) := by
      rw [hc.slack]
      exact if_pos hread
    have hguard : c.guard = .ok (umin (r + 1) c.maximumGuard) := by
      rw [guard_eq hlen (by omega) (by omega) hfit, hr, hvalue]
      rfl
    refine ⟨_, hguard, ?_⟩
    rw [toNat_umin, BitVec.toNat_add, h1, Nat.mod_eq_of_lt hread]
    omega

end ResidualCalibrator

end Slope.Service
