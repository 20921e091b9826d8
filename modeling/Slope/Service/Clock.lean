import Slope.Lib.Period
import Slope.Service.Undo

/-!
# `Service.Clock` — how often the clock is read does not matter

`advance` rolls the window forward by the whole windows elapsed and drains their service from the virtual backlog.
Callers read the clock whenever they happen to call, so the state at a tick must not depend on the calls made on
the way. Over the integers a successful `advance` is the rolling of `Lib.Period` (`advanced_eq`): the start rolls,
the backlog loses the service of the elapsed windows, and the window count is kept while no window elapses. All
three compose across a tick in between, and a step that fits leaves room for both of its parts.
-/

namespace Slope.Service.ServiceController

open Word

variable {N : Nat} {s s₁ s₂ : ServiceController N} {t t₁ t₂ : U64}

/-- The whole windows elapsed at tick `t`, over the integers. -/
def windowsAt (s : ServiceController N) (t : U64) : Nat :=
  Period.elapsed s.curve.windowTicks.toNat s.windowStart.toNat t.toNat

/-- The start of the window that tick `t` lies in, over the integers. -/
def startAt (s : ServiceController N) (t : U64) : Nat :=
  Period.start s.curve.windowTicks.toNat s.windowStart.toNat t.toNat

theorem rollFits_iff :
    s.RollFits t ↔ s.windowsAt t * s.curve.minimumCompletionsPerWindow.toNat * 2 ^ 16 < 2 ^ 64 := by
  rw [RollFits, windowsAt, Period.elapsed]

theorem backlogAt_eq :
    s.backlogAt t = s.virtualBacklogQ16.toNat
      - s.windowsAt t * s.curve.minimumCompletionsPerWindow.toNat * 2 ^ 16 := by
  rw [backlogAt, windowsAt, Period.elapsed]

/-- The service of fewer windows fits where that of more does. -/
theorem RollFits.of_le (h : s.RollFits t) (hcurve : s₁.curve = s.curve) (hle : s₁.windowsAt t₁ ≤ s.windowsAt t) :
    s₁.RollFits t₁ := by
  have hservice : s₁.windowsAt t₁ * s.curve.minimumCompletionsPerWindow.toNat
      ≤ s.windowsAt t * s.curve.minimumCompletionsPerWindow.toNat := Nat.mul_le_mul_right _ hle
  rw [rollFits_iff, hcurve]
  exact Nat.lt_of_le_of_lt (Nat.mul_le_mul_right _ hservice) (rollFits_iff.mp h)

/-! ## `advance` over the integers -/

/-- A window elapses exactly when `advance` takes its first branch. -/
theorem windowsAt_eq_zero_iff (hw : 0 < s.curve.windowTicks.toNat) (hws : s.windowStart ≤ t) :
    s.windowsAt t = 0 ↔ ¬ s.curve.windowTicks ≤ t - s.windowStart := by
  rw [windowsAt, Period.elapsed_eq_zero_iff hw, BitVec.le_def, BitVec.toNat_sub_of_le hws, Nat.not_le]

theorem toNat_windowStart_advanced (hw : 0 < s.curve.windowTicks.toNat) (hws : s.windowStart ≤ t) :
    (s.advanced t).windowStart.toNat = s.startAt t := by
  unfold advanced
  split
  · -- neither the product nor the sum wraps
    obtain ⟨span, hspan, hstart⟩ := Option.bind_eq_some_iff.mp (roll_start hws)
    rw [checkedMul_eq_some] at hspan
    rw [checkedAdd_eq_some] at hstart
    show (s.windowStart + s.elapsedWindows t * s.curve.windowTicks).toNat = s.startAt t
    rw [hstart, hspan, toNat_elapsedWindows hws]
    rfl
  · next hroll =>
    have hzero := (windowsAt_eq_zero_iff hw hws).mpr hroll
    show s.windowStart.toNat = s.windowStart.toNat + s.windowsAt t * s.curve.windowTicks.toNat
    rw [hzero, Nat.zero_mul, Nat.add_zero]

theorem admittedInWindow_advanced (hw : 0 < s.curve.windowTicks.toNat) (hws : s.windowStart ≤ t) :
    (s.advanced t).admittedInWindow = if s.windowsAt t = 0 then s.admittedInWindow else 0 := by
  unfold advanced
  split
  · next hroll =>
    rw [if_neg fun hzero => (windowsAt_eq_zero_iff hw hws).mp hzero hroll]
    rfl
  · next hroll => rw [if_pos ((windowsAt_eq_zero_iff hw hws).mpr hroll)]

/-- **A successful `advance`, exactly**: four fields, each a function of the state over the integers. -/
theorem advanced_eq (hw : 0 < s.curve.windowTicks.toNat) (hclock : s.ClockAccepts t) :
    s.advanced t = { s with
      windowStart := BitVec.ofNat 64 (s.startAt t)
      lastTick := t
      admittedInWindow := if s.windowsAt t = 0 then s.admittedInWindow else 0
      virtualBacklogQ16 := BitVec.ofNat 64 (s.backlogAt t) } := by
  have hws := hclock.2.1
  rw [← toNat_windowStart_advanced hw hws, ← toNat_backlog_advanced hclock, ← admittedInWindow_advanced hw hws,
    BitVec.ofNat_toNat, BitVec.ofNat_toNat, BitVec.setWidth_eq, BitVec.setWidth_eq]
  unfold advanced
  split <;> rfl

/-- After an advance no later tick is in the past. -/
theorem not_past_advanced (hw : 0 < s.curve.windowTicks.toNat) (hclock : s.ClockAccepts t₁) (hle : t₁ ≤ t₂) :
    (s.advanced t₁).lastTick ≤ t₂ ∧ (s.advanced t₁).windowStart ≤ t₂ := by
  constructor
  · rw [advanced_eq hw hclock]
    exact hle
  · rw [BitVec.le_def, toNat_windowStart_advanced hw hclock.2.1]
    exact Nat.le_trans (Period.start_le hclock.2.1) hle

/-! ## A tick in between -/

section

variable (hw : 0 < s.curve.windowTicks.toNat) (hclock : s.ClockAccepts t₂) (hlast : s.lastTick ≤ t₁)
  (hws : s.windowStart ≤ t₁) (hle : t₁ ≤ t₂)
include hw hws hle

/-- The windows elapsed before and after a tick in between add up. -/
theorem windowsAt_advanced : s.windowsAt t₁ + (s.advanced t₁).windowsAt t₂ = s.windowsAt t₂ := by
  have hcurve := (clockStep_advanced hw hws).curve
  unfold windowsAt
  rw [toNat_windowStart_advanced hw hws, hcurve]
  exact Period.elapsed_add hw hws hle

theorem startAt_advanced : (s.advanced t₁).startAt t₂ = s.startAt t₂ := by
  have hcurve := (clockStep_advanced hw hws).curve
  unfold startAt
  rw [toNat_windowStart_advanced hw hws, hcurve]
  exact Period.start_start hw hws hle

include hclock hlast

omit hw in
/-- A tick in between is accepted: fewer windows have elapsed. -/
theorem clockAccepts_before : s.ClockAccepts t₁ :=
  ⟨hlast, hws, hclock.2.2.of_le rfl (Period.elapsed_mono hle)⟩

/-- And from there the later tick is: the rest of the windows have elapsed. -/
theorem clockAccepts_after : (s.advanced t₁).ClockAccepts t₂ := by
  have hcurve := (clockStep_advanced hw hws).curve
  have hbefore := clockAccepts_before hclock hlast hws hle
  obtain ⟨hlast', hws'⟩ := not_past_advanced hw hbefore hle
  have hsum := windowsAt_advanced hw hws hle
  exact ⟨hlast', hws', hclock.2.2.of_le hcurve (by omega)⟩

/-- Drains compose: what the first takes away the second no longer does, and both stop at zero. -/
theorem backlogAt_advanced : (s.advanced t₁).backlogAt t₂ = s.backlogAt t₂ := by
  have hcurve := (clockStep_advanced hw hws).curve
  have hbefore := clockAccepts_before hclock hlast hws hle
  rw [backlogAt_eq, toNat_backlog_advanced hbefore, hcurve, backlogAt_eq, backlogAt_eq,
    ← windowsAt_advanced hw hws hle, Nat.add_mul, Nat.add_mul, Nat.sub_sub]

/-- **Advancing twice is advancing once.** -/
theorem advanced_advanced : (s.advanced t₁).advanced t₂ = s.advanced t₂ := by
  have hcurve := (clockStep_advanced hw hws).curve
  have hbefore := clockAccepts_before hclock hlast hws hle
  have hafter := clockAccepts_after hw hclock hlast hws hle
  have hsum := windowsAt_advanced hw hws hle
  rw [advanced_eq (by rw [hcurve]; exact hw) hafter, advanced_eq hw hclock, startAt_advanced hw hws hle,
    backlogAt_advanced hw hclock hlast hws hle, admittedInWindow_advanced hw hws]
  -- the count is gone once a window has elapsed on either side
  have hcount : (if (s.advanced t₁).windowsAt t₂ = 0 then (if s.windowsAt t₁ = 0 then s.admittedInWindow else 0)
      else 0) = if s.windowsAt t₂ = 0 then s.admittedInWindow else 0 := by
    by_cases hzero : s.windowsAt t₂ = 0
    · rw [if_pos hzero, if_pos (by omega), if_pos (by omega)]
    · rw [if_neg hzero]
      split
      · rw [if_neg (by omega)]
      · rfl
  rw [hcount, advanced_eq hw hbefore]

end

/-! ## Reading the clock -/

/-- Where `advance` accepts a tick, it accepts an earlier one that is not in the past, and then the later one. -/
theorem advance_between (hw : 0 < s.curve.windowTicks.toNat) (hlast : s.lastTick ≤ t₁) (hws : s.windowStart ≤ t₁)
    (hle : t₁ ≤ t₂) (hadv : s.advance t₂ = (.ok (), s₂)) :
    s.advance t₁ = (.ok (), s.advanced t₁) ∧ (s.advanced t₁).advance t₂ = (.ok (), s₂) := by
  obtain ⟨hclock, rfl⟩ := advance_ok.mp hadv
  rw [advance_ok, advance_ok]
  exact ⟨⟨clockAccepts_before hclock hlast hws hle, rfl⟩, clockAccepts_after hw hclock hlast hws hle,
    (advanced_advanced hw hclock hlast hws hle).symm⟩

/-- **The clock composes.** From every state whose curve is valid: when `advance` accepts a tick, it also accepts
    every earlier tick that is not in the past, and from there the later one, with the same state at the end.
    After every successful `advance` the tick lies in the window, which has moved by whole windows. -/
theorem advance_composes (hvalid : s.curve.valid = true) :
    (∀ t₁ t₂ s₂, s.lastTick ≤ t₁ → s.windowStart ≤ t₁ → t₁ ≤ t₂ → s.advance t₂ = (.ok (), s₂) →
      ∃ s₁, s.advance t₁ = (.ok (), s₁) ∧ s₁.advance t₂ = (.ok (), s₂)) ∧
    (∀ t s₁, s.advance t = (.ok (), s₁) →
      s₁.windowStart.toNat ≤ t.toNat ∧ t.toNat < s₁.windowStart.toNat + s₁.curve.windowTicks.toNat ∧
      ∃ k, s₁.windowStart.toNat = s.windowStart.toNat + k * s.curve.windowTicks.toNat) := by
  have hw : 0 < s.curve.windowTicks.toNat := (ServiceCurve.valid_iff.mp hvalid).2.2.1
  constructor
  · intro t₁ t₂ s₂ hlast hws hle hadv
    exact ⟨s.advanced t₁, advance_between hw hlast hws hle hadv⟩
  · intro t s₁ hadv
    obtain ⟨⟨-, hws, -⟩, rfl⟩ := advance_ok.mp hadv
    rw [toNat_windowStart_advanced hw hws, (clockStep_advanced hw hws).curve]
    exact ⟨Period.start_le hws, Period.lt_start_add hw, s.windowsAt t, rfl⟩

/-- The sample controller, read in its first window on the way to its third. -/
theorem advance_composes_sample :
    ∃ s₁, sampleController.advance 1050 = (.ok (), s₁) ∧
      s₁.advance 1250 = (.ok (), sampleController.advanced 1250) ∧
      (sampleController.advanced 1250).windowStart = 1200 := by
  have hadv : sampleController.advance 1250 = (.ok (), sampleController.advanced 1250) := by decide +kernel
  obtain ⟨s₁, hfirst, hsecond⟩ := (advance_composes (s := sampleController) (by decide)).1 1050 1250 _
    (by decide) (by decide) (by decide) hadv
  exact ⟨s₁, hfirst, hsecond, by decide +kernel⟩

end Slope.Service.ServiceController
