import Slope.Lib.Mixer

/-!
# `Service.Curve` — the rate-latency service curve and the root mixer

`ServiceCurve` is the deterministic evidence of the controller: a guaranteed number of completions per window
after a fixed latency. `mix` is the word mixer every root of the module is computed with; it is one absorbing
step of the library's finalizer (`mix_eq`), so the root computations can be inverted one word at a time.
-/

namespace Slope.Service

open Word

def q16One : U64 := 1 <<< 16

/-! ## The mixer -/

/-- The odd constant each absorbed word is multiplied by. -/
def mixMultiplier : U64 := 0x9e3779b97f4a7c15

/-- Its inverse modulo `2 ^ 64`. -/
def mixMultiplierInv : U64 := 0xf1de83e19937733d

theorem mixMultiplier_mul_inv : mixMultiplier * mixMultiplierInv = 1 := by decide

def mix (state word : U64) : U64 :=
  let state := state ^^^ word * 0x9e3779b97f4a7c15
  let state := state ^^^ (state >>> 30)
  let state := state * 0xbf58476d1ce4e5b9
  let state := state ^^^ (state >>> 27)
  let state := state * 0x94d049bb133111eb
  state ^^^ (state >>> 31)

theorem mix_eq (state word : U64) : mix state word = Mixer.xorMulMix Mixer.finalizer mixMultiplier state word :=
  rfl

/-! ## Service curve -/

structure ServiceCurve where
  minimumCompletionsPerWindow : U16
  maximumAdmissionsPerWindow : U16
  windowTicks : U64
  latencyTicks : U64
  maximumBacklog : U16
deriving DecidableEq

namespace ServiceCurve

def valid (c : ServiceCurve) : Bool :=
  c.minimumCompletionsPerWindow != 0
    && c.maximumAdmissionsPerWindow != 0
    && c.windowTicks != 0
    && c.maximumBacklog != 0
    && decide (c.minimumCompletionsPerWindow ≤ c.maximumBacklog)
    && decide (c.maximumAdmissionsPerWindow ≤ c.maximumBacklog)

/-- Deterministic min-plus horizontal-deviation bound for one new job. `usize` is 64 bits wide, so the
    conversion of the backlog to `u64` never fails. -/
def deterministicDelay (c : ServiceCurve) (backlogBefore : U64) : Option U64 :=
  if !c.valid || decide (c.maximumBacklog.setWidth 64 ≤ backlogBefore) then none
  else do
    let demand ← checkedAdd backlogBefore 1
    let service : U64 := c.minimumCompletionsPerWindow.setWidth 64
    let rounded ← checkedAdd demand (service - 1)
    let windows ← checkedDiv rounded service
    let span ← checkedMul windows c.windowTicks
    checkedAdd c.latencyTicks span

/-- What validity says over the integers. -/
theorem valid_iff {c : ServiceCurve} :
    c.valid = true ↔
      0 < c.minimumCompletionsPerWindow.toNat ∧ 0 < c.maximumAdmissionsPerWindow.toNat ∧
      0 < c.windowTicks.toNat ∧ 0 < c.maximumBacklog.toNat ∧
      c.minimumCompletionsPerWindow.toNat ≤ c.maximumBacklog.toNat ∧
      c.maximumAdmissionsPerWindow.toNat ≤ c.maximumBacklog.toNat := by
  simp only [valid, Bool.and_eq_true, bne_iff_ne, decide_eq_true_eq, BitVec.le_def, Word.ne_zero_iff,
    and_assoc]

/-- **The delay bound, exactly.** The checked computation succeeds precisely when the curve is valid, the
    backlog is below the maximum, and the exact rate-latency bound fits in a word. -/
theorem deterministicDelay_eq_some {c : ServiceCurve} {b d : U64} :
    c.deterministicDelay b = some d ↔
      c.valid = true ∧ b.toNat < c.maximumBacklog.toNat ∧
      d.toNat = c.latencyTicks.toNat +
        (b.toNat + 1 + (c.minimumCompletionsPerWindow.toNat - 1)) / c.minimumCompletionsPerWindow.toNat
          * c.windowTicks.toNat := by
  have hzm := Word.toNat_zext (by decide : 16 ≤ 64) c.minimumCompletionsPerWindow
  have hzb := Word.toNat_zext (by decide : 16 ≤ 64) c.maximumBacklog
  have h1 : (1 : U64).toNat = 1 := rfl
  have hmlt := c.minimumCompletionsPerWindow.isLt
  have hblt := c.maximumBacklog.isLt
  by_cases hgate : c.valid = true ∧ b.toNat < c.maximumBacklog.toNat
  · obtain ⟨hv, hb⟩ := hgate
    obtain ⟨hm, -⟩ := valid_iff.mp hv
    have hservice : (c.minimumCompletionsPerWindow.setWidth 64 - 1 : U64).toNat
        = c.minimumCompletionsPerWindow.toNat - 1 := by
      rw [BitVec.toNat_sub_of_le (by rw [BitVec.le_def]; omega), hzm, h1]
    have hne : (c.minimumCompletionsPerWindow.setWidth 64 : U64) ≠ 0 := by
      rw [Word.ne_zero_iff, hzm]; exact hm
    have hcond : ¬ ((!c.valid || decide (c.maximumBacklog.setWidth 64 ≤ b)) = true) := by
      simp only [hv, Bool.not_true, Bool.false_or, decide_eq_true_eq, BitVec.le_def]; omega
    simp only [deterministicDelay, if_neg hcond, Option.bind_eq_bind, Option.bind_eq_some_iff,
      checkedAdd_eq_some, checkedDiv_eq_some, checkedMul_eq_some, h1, hservice]
    -- no checked step rounds, so the chain computes the exact bound
    constructor
    · rintro ⟨demand, hdem, rounded, hrnd, windows, ⟨-, rfl⟩, span, hspan, hd⟩
      rw [BitVec.toNat_udiv, hzm, hrnd, hdem] at hspan
      rw [hspan] at hd
      exact ⟨hv, hb, hd⟩
    · -- every intermediate value is at most the bound itself, which is a word
      rintro ⟨-, -, hd⟩
      have hdlt := d.isLt
      refine ⟨BitVec.ofNat 64 (b.toNat + 1), ?_, BitVec.ofNat 64 (b.toNat + 1
        + (c.minimumCompletionsPerWindow.toNat - 1)), ?_, _, ⟨hne, rfl⟩, d - c.latencyTicks, ?_, ?_⟩
      · rw [BitVec.toNat_ofNat, Nat.mod_eq_of_lt (by omega)]
      · rw [BitVec.toNat_ofNat, BitVec.toNat_ofNat, Nat.mod_eq_of_lt (by omega),
          Nat.mod_eq_of_lt (by omega)]
      · rw [BitVec.toNat_sub_of_le (by rw [BitVec.le_def]; omega), BitVec.toNat_udiv, hzm,
          BitVec.toNat_ofNat, Nat.mod_eq_of_lt (by omega)]
        omega
      · rw [BitVec.toNat_sub_of_le (by rw [BitVec.le_def]; omega)]; omega
  · have hcond : (!c.valid || decide (c.maximumBacklog.setWidth 64 ≤ b)) = true := by
      rw [Bool.or_eq_true, Bool.not_eq_true', decide_eq_true_eq, BitVec.le_def, hzb]
      cases hv : c.valid
      · exact Or.inl rfl
      · exact Or.inr (Nat.le_of_not_lt fun hb => hgate ⟨hv, hb⟩)
    rw [deterministicDelay, if_pos hcond]
    constructor
    · intro h; cases h
    · rintro ⟨hv, hb, -⟩; exact absurd ⟨hv, hb⟩ hgate

/-- The delay bound of an admissible backlog covers at least one whole window. -/
theorem deterministicDelay_pos {c : ServiceCurve} {b d : U64} (h : c.deterministicDelay b = some d) :
    0 < d.toNat := by
  obtain ⟨hv, -, hd⟩ := deterministicDelay_eq_some.mp h
  obtain ⟨hm, -, hw, -⟩ := valid_iff.mp hv
  have hdiv : 0 < (b.toNat + 1 + (c.minimumCompletionsPerWindow.toNat - 1))
      / c.minimumCompletionsPerWindow.toNat := Nat.div_pos (by omega) hm
  have := Nat.mul_pos hdiv hw
  omega

end ServiceCurve

def serviceCurveRoot (secret : U64) (curve : ServiceCurve) : U64 :=
  let state := mix secret (curve.minimumCompletionsPerWindow.setWidth 64)
  let state := mix state (curve.maximumAdmissionsPerWindow.setWidth 64)
  let state := mix state curve.windowTicks
  let state := mix state curve.latencyTicks
  mix state (curve.maximumBacklog.setWidth 64)

end Slope.Service
