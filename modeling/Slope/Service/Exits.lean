import Slope.Service.Settlement

/-!
# `Service.Exits` — the fallible exits behind a state change

`admit` and `observe_completion` keep checking after they have started to assign: the window count and the
conversion of the backlog in `admit`, the prediction and the guard in `observe_completion`. As long as
completions are reported only for certificates the controller issued, none of these checks can fail, in any
state of any run. What carries it is the bound on the calibrator (`Calibrated`): every residual is measured
against a positive prediction, so none is the largest word and the guard's last addition fits.
-/

namespace Slope.Service.ServiceController

open Word

variable {N : Nat} {s s' : ServiceController N} {t d b : U64}

/-! ## The ceiling of the guard -/

theorem maximumGuard_step (s : ServiceController N) (i : Call) :
    (step s i).2.calibrator.maximumGuard = s.calibrator.maximumGuard := by
  rcases step_calibrator s i with heq | ⟨c, t, predicted, -, -, heq⟩
  · rw [heq]
  · rw [heq]; rfl

/-- The guard's ceiling is the delay of a full backlog, one window a job. -/
theorem maximumGuard_run {curve : ServiceCurve} {nowTick secret : U64} {s₀ : ServiceController N}
    {allowed : List (ControllerEvent N) → Call → Prop} {h : List (ControllerEvent N)}
    (h₀ : new N curve nowTick secret = .ok s₀) (hr : Run step allowed s₀ h s) :
    s.calibrator.maximumGuard.toNat = s.curve.windowTicks.toNat * s.curve.maximumBacklog.toNat ∧
      0 < s.calibrator.maximumGuard.toNat := by
  obtain ⟨hv, -, -, g, cal, hmul, hcal, hs₀⟩ := new_ok h₀
  obtain ⟨-, -, hw, hb, -⟩ := ServiceCurve.valid_iff.mp hv
  have hceiling : s.calibrator.maximumGuard = s₀.calibrator.maximumGuard := by
    refine hr.state_invariant (fun s => s.calibrator.maximumGuard = s₀.calibrator.maximumGuard) rfl ?_
    intro s i ih
    rw [maximumGuard_step, ih]
  have hcurve : s.curve = s₀.curve := (identity_run (by rw [hs₀]; exact hw) hr).1
  -- both factors are positive, so the product is and `max(1)` changes nothing
  have hpos := Nat.mul_pos hw hb
  rw [checkedMul_eq_some, toNat_zext (by decide : 16 ≤ 64)] at hmul
  have hmax : (umax g 1).toNat = g.toNat := by
    rw [toNat_umax, show (1 : U64).toNat = 1 from rfl]
    omega
  rw [hceiling, hcurve, hs₀, (ResidualCalibrator.tame_kernelDefault hcal).2, hmax, hmul]
  exact ⟨rfl, hpos⟩

/-! ## The exits of `admit` -/

/-- Below the arrival envelope the window count has room. -/
theorem admitted_room (h : s.admittedInWindow < s.curve.maximumAdmissionsPerWindow) :
    checkedAdd s.admittedInWindow 1 = some (s.admittedInWindow + 1) := by
  have hlt := s.curve.maximumAdmissionsPerWindow.isLt
  rw [BitVec.lt_def] at h
  apply checkedAdd_of_lt
  rw [show (1 : U16).toNat = 1 from rfl]
  omega

/-- A backlog below the maximum is a 16-bit number. -/
theorem backlog_narrow (h : b < s.curve.maximumBacklog.setWidth 64) : b.toNat < 2 ^ 16 := by
  have hlt := s.curve.maximumBacklog.isLt
  rw [BitVec.lt_def, toNat_zext (by decide : 16 ≤ 64)] at h
  omega

/-- A refused admission has not touched the reservation counters. -/
theorem admitJob_error_counters (hw : 0 < s.curve.windowTicks.toNat) {f : AdmissionFault}
    (h : s.admitJob t d b = (.error f, s')) :
    s'.reservationSequence = s.reservationSequence ∧ s'.accepted = s.accepted := by
  have hclock := (admitJob_error_clockStep hw h).1
  exact ⟨hclock.reservationSequence, hclock.accepted⟩

/-- **No exit behind a state change is reached.** In every state of every run in which completions are reported
    for issued certificates only: the guard can be computed and lies between one tick and a full backlog of
    windows. The prediction of every issued certificate fits and, after a successful `advance`, its residual can
    be pushed, so `observe_completion` succeeds behind its gate and its clock. Past the capacity checks of
    `admit` the window count and the narrowed backlog fit, so an admission that fails has not touched the
    reservation counters. -/
theorem exits_unreachable {curve : ServiceCurve} {nowTick secret : U64} {s₀ : ServiceController N}
    {h : List (ControllerEvent N)} (hN : N < 2 ^ 60) (h₀ : new N curve nowTick secret = .ok s₀)
    (hr : Run step ObservesIssued s₀ h s) :
    (∃ g, s.calibrator.guard = .ok g ∧ 1 ≤ g.toNat ∧
      g.toNat ≤ s.curve.windowTicks.toNat * s.curve.maximumBacklog.toNat) ∧
    (∀ c ∈ issued h, ∃ predicted,
      checkedAdd c.deterministicDelayTicks c.driftPenaltyTicks = some predicted ∧
      ∀ t s₁, s.advance t = (.ok (), s₁) →
        (∃ g, (s₁.calibrator.push (saturatingSub (t - c.admittedTick) predicted)).1 = .ok g) ∧
        (s.verifyCertificate c = true → c.admittedTick ≤ t → ∃ g, (s.observeCompletion c t).1 = .ok g)) ∧
    (∀ t s₁, s.advance t = (.ok (), s₁) → s₁.admittedInWindow < s₁.curve.maximumAdmissionsPerWindow →
      checkedAdd s₁.admittedInWindow 1 = some (s₁.admittedInWindow + 1)) ∧
    (∀ t s₁ b, s.advance t = (.ok (), s₁) → b < s₁.curve.maximumBacklog.setWidth 64 →
      b.toNat < 2 ^ 16) ∧
    (∀ t d b f s', s.admitJob t d b = (.error f, s') →
      s'.reservationSequence = s.reservationSequence ∧ s'.accepted = s.accepted) := by
  have hcal := calibrated_run h₀ hr
  obtain ⟨hceiling, hpos⟩ := maximumGuard_run h₀ hr
  refine ⟨?_, ?_, ?_, ?_, ?_⟩
  · obtain ⟨g, hok, hlow, hhigh⟩ := hcal.tame.guard_ok hN
    exact ⟨g, hok, by omega, by omega⟩
  · intro c hc
    obtain ⟨predicted, hp⟩ := hcal.predicts hc
    refine ⟨predicted, hp, ?_⟩
    intro t s₁ hadv
    exact ⟨hcal.pushes hN hc hadv hp, fun hv ht => hcal.observes hN hc hv ht hadv⟩
  · intro t s₁ _ hadm
    exact admitted_room hadm
  · intro t s₁ b _ hb
    exact backlog_narrow hb
  · intro t d b f s' ha
    exact admitJob_error_counters (windowTicks_pos_run h₀ hr) ha

/-- After one admission and a late completion the guard is within the eight windows of a full backlog. -/
theorem exits_unreachable_sample :
    ∃ g, (finalState step sampleController [.admitJob 1000 1500 0,
        .observeCompletion sampleCertificate 1400]).calibrator.guard = .ok g ∧ 1 ≤ g.toNat ∧
      g.toNat ≤ 800 := by
  have hr : Run step ObservesIssued sampleController _ _ :=
    (sample_admitted.mono observesIssued_of_honest).call (Call.observeCompletion sampleCertificate 1400)
      sample_issued
  exact (exits_unreachable (by decide) sampleController_new hr).1

end Slope.Service.ServiceController
