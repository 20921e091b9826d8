import Slope.Service.Coverage
import Slope.Service.Settlement

/-!
# `Service.Atomicity` — what a failing call leaves behind

A failing call should be a transaction abort: the timing fields are untouched or fully advanced, and nothing
else has changed. Two exits break this. `advance` assigns the window before it computes the drained service,
whose overflow then returns early; and `push` records its sample before it computes the guard, whose overflow
then returns early. `SafeCall` is the condition, on the state before the call and its arguments, under which
neither exit is taken, and it is exact.

The second exit needs a guard's ceiling that is the largest word, and then too many residuals that are the
largest word: the slack is one tick, so no smaller residual overflows. It is out of reach of an honest caller.
-/

namespace Slope.Service.ServiceController

open Word

variable {N : Nat}

/-! ## The property -/

/-- The fields that a window change touches agree. -/
def SameTiming (s s' : ServiceController N) : Prop :=
  s.windowStart = s'.windowStart ∧ s.lastTick = s'.lastTick ∧ s.admittedInWindow = s'.admittedInWindow ∧
    s.virtualBacklogQ16 = s'.virtualBacklogQ16

/-- The fields that a failing call must not touch agree. -/
def SameRecord (s s' : ServiceController N) : Prop :=
  s.curve = s'.curve ∧ s.curveRoot = s'.curveRoot ∧ s.secret = s'.secret ∧ s.accepted = s'.accepted ∧
    s.observed = s'.observed ∧ s.reservationSequence = s'.reservationSequence ∧ s.calibrator = s'.calibrator

/-- The tick a call advances the clock to. -/
def Call.tick : Call → Option U64
  | .admitJob nowTick _ _ => some nowTick
  | .rollback _ => none
  | .observeCompletion _ completionTick => some completionTick

/-- If the call fails, it leaves the timing fields as they were or as one complete advance to its tick
    leaves them, and the rest of the controller (the count of rejections apart) as it was. -/
def FailsAtomically (s : ServiceController N) (i : Call) : Prop :=
  ∀ f, (step s i).1 = .error f →
    (SameTiming (step s i).2 s ∨
      ∃ t s₁, i.tick = some t ∧ s.advance t = (.ok (), s₁) ∧ SameTiming (step s i).2 s₁) ∧
    SameRecord (step s i).2 s

/-! ## The condition -/

/-- A tick that the clock does not refuse as past rolls the window without overflow. -/
def RollSafe (s : ServiceController N) (t : U64) : Prop :=
  s.lastTick ≤ t → s.windowStart ≤ t → s.RollFits t

/-- The rank of the residual that the guard reads, among `count` of them: 15 in 16 of `count + 1`, rounded up. -/
def coverageRank (count : Nat) : Nat := min count ((count + 1) * 15 ⌈/⌉ 16)

/-- The guard has room for one more residual: the computation of the rank fits in a word, and under a ceiling
    that does not clip, `coverageRank` of the residuals in the ring are short of the largest word. -/
def GuardFits (c : ResidualCalibrator N) (residual : U64) : Prop :=
  (c.kept.length + 2) * 15 + 15 < 2 ^ 64 ∧
    (c.maximumGuard = BitVec.allOnes 64 →
      coverageRank (c.kept.length + 1) ≤ (residual :: c.kept).countP (· < BitVec.allOnes 64))

/-- The sample can be recorded: the guard has room for it, or it changes nothing. -/
def SampleSafe (c : ResidualCalibrator N) (residual : U64) : Prop := GuardFits c residual ∨ c.Idle residual

def SafeCall (s : ServiceController N) : Call → Prop
  | .admitJob t _ _ => s.RollSafe t
  | .rollback _ => True
  | .observeCompletion c t => s.verifyCertificate c = true → c.admittedTick ≤ t →
      s.RollSafe t ∧ (s.ClockAccepts t → ∀ predicted,
        checkedAdd c.deterministicDelayTicks c.driftPenaltyTicks = some predicted →
        SampleSafe s.calibrator (saturatingSub (t - c.admittedTick) predicted))

/-! ## The calibrator -/

/-- The calibrator of a controller: the default configuration, a ring that pushes have filled, and a root that
    verifies. Certificates do not come into it. -/
structure Standard (c : ResidualCalibrator N) : Prop where
  ring : ∃ c₀ rs, ResidualCalibrator.Retains c₀ rs c ∧ c₀.coverageNumerator = defaultConformalNumerator ∧
    c₀.coverageDenominator = defaultConformalDenominator ∧ c₀.additiveSlack = 1
  root : c.verifyRoot = true

theorem standard_kernelDefault {maximumGuard secret : U64} {c : ResidualCalibrator N}
    (h : ResidualCalibrator.kernelDefault N 1 maximumGuard secret = .ok c) : Standard c := by
  obtain ⟨-, -, hnum, hden, hslack, -, hstart⟩ := ResidualCalibrator.new_ok h
  refine ⟨⟨c, [], hstart, hnum, hden, hslack⟩, ?_⟩
  unfold ResidualCalibrator.kernelDefault ResidualCalibrator.new at h
  split at h
  · cases h
  split at h
  · cases h
  rw [← Except.ok.inj h]
  exact ResidualCalibrator.verifyRoot_sealRoot _

theorem Standard.record {c : ResidualCalibrator N} (h : Standard c) (r : U64) : Standard (c.record r) := by
  obtain ⟨c₀, rs, hring, hconfig⟩ := h.ring
  exact ⟨⟨c₀, rs ++ [r], hring.record r, hconfig⟩, ResidualCalibrator.verifyRoot_sealRoot _⟩

/-- Every call records one residual at most, whatever certificate it is given. -/
theorem standard_run {curve : ServiceCurve} {nowTick secret : U64} {s₀ s : ServiceController N}
    {allowed : List (ControllerEvent N) → Call → Prop} {h : List (ControllerEvent N)}
    (h₀ : new N curve nowTick secret = .ok s₀) (hr : Run step allowed s₀ h s) : Standard s.calibrator := by
  obtain ⟨-, -, -, g, cal, -, hcal, hs₀⟩ := new_ok h₀
  refine hr.state_invariant (fun s => Standard s.calibrator) ?_ ?_
  · rw [hs₀]
    exact standard_kernelDefault hcal
  · intro s i ih
    rcases step_calibrator s i with heq | ⟨c, t, predicted, -, -, heq⟩
    · rw [heq]; exact ih
    · rw [heq]; exact ih.record _

/-- A residual that the ceiling clips is short of the largest word, unless the ceiling is that word. -/
theorem lt_of_le_ceiling {r maximum : U64} (hle : r ≤ maximum) (hne : maximum ≠ BitVec.allOnes 64) :
    r.toNat + 1 < 2 ^ 64 := by
  have hlt := maximum.isLt
  have hmax : maximum.toNat ≠ 2 ^ 64 - 1 := by
    intro h
    exact hne (BitVec.eq_of_toNat_eq (h.trans BitVec.toNat_allOnes.symm))
  rw [BitVec.le_def] at hle
  omega

/-- **The condition on a sample is exact**: either the guard can be computed once it is recorded, or recording it
    leaves the calibrator as it was. -/
theorem Standard.sampleSafe_iff {c : ResidualCalibrator N} (h : Standard c) (r : U64) :
    SampleSafe c r ↔ (∃ g, (c.record r).guard = .ok g) ∨ c.record r = c := by
  obtain ⟨⟨c₀, rs, hring, hnum, hden, hslack⟩, hroot⟩ := h
  have h15 : (c.record r).coverageNumerator.toNat = 15 := by rw [(hring.record r).numerator, hnum]; rfl
  have h16 : (c.record r).coverageDenominator.toNat = 16 := by rw [(hring.record r).denominator, hden]; rfl
  have h1 : c₀.additiveSlack.toNat = 1 := by rw [hslack]; rfl
  have hfits : (c.record r).RankFits ↔ (c.kept.length + 2) * 15 + 15 < 2 ^ 64 := by
    rw [ResidualCalibrator.RankFits, h15, h16, ← hring.length_kept r]
  have hrank : (c.record r).rank = coverageRank (c.kept.length + 1) := by
    rw [ResidualCalibrator.rank, h15, h16, ← hring.length_kept r, coverageRank]
  have hcount : (coverageRank (c.kept.length + 1) ≤
        (umin r c.maximumGuard :: c.kept).countP (·.toNat + c₀.additiveSlack.toNat < 2 ^ 64)) ↔
      (c.maximumGuard = BitVec.allOnes 64 →
        coverageRank (c.kept.length + 1) ≤ (r :: c.kept).countP (· < BitVec.allOnes 64)) := by
    rw [h1]
    by_cases hmax : c.maximumGuard = BitVec.allOnes 64
    · have hclip : umin r c.maximumGuard = r := by
        have hlt := r.isLt
        rw [hmax]
        apply BitVec.eq_of_toNat_eq
        rw [toNat_umin, BitVec.toNat_allOnes]
        omega
      have hpred : ∀ x : U64, x.toNat + 1 < 2 ^ 64 ↔ x < BitVec.allOnes 64 := by
        intro x
        rw [BitVec.lt_def, BitVec.toNat_allOnes]
        omega
      simp only [hclip, hpred]
      exact ⟨fun hle _ => hle, fun himp => himp hmax⟩
    · -- every residual of the ring is clipped below the largest word
      have hall : (umin r c.maximumGuard :: c.kept).countP (·.toNat + 1 < 2 ^ 64) = c.kept.length + 1 := by
        rw [← List.length_cons, List.countP_eq_length]
        intro x hx
        rw [decide_eq_true_eq]
        have hle := (hring.record r).le_maximum x ((hring.perm_record r).mem_iff.mpr hx)
        rw [← hring.maximum] at hle
        exact lt_of_le_ceiling hle hmax
      rw [hall]
      exact ⟨fun _ heq => absurd heq hmax, fun _ => Nat.min_le_left ..⟩
  rw [SampleSafe, GuardFits, hring.guard_record_ok_iff (by rw [hnum]; decide) (by rw [hden]; decide) r, hfits,
    hrank, hcount]
  constructor
  · rintro (hok | hidle)
    · exact Or.inl hok
    · exact Or.inr (hidle.record_eq hroot)
  · rintro (hok | heq)
    · exact Or.inl hok
    · exact Or.inr (ResidualCalibrator.idle_of_record_eq heq)

section

variable {s s' s₁ : ServiceController N} {t d b : U64} {c : AdmissionCertificate} {f : AdmissionFault}

/-! ## The clock -/

theorem SameTiming.refl (s : ServiceController N) : SameTiming s s := ⟨rfl, rfl, rfl, rfl⟩

theorem SameRecord.refl (s : ServiceController N) : SameRecord s s := ⟨rfl, rfl, rfl, rfl, rfl, rfl, rfl⟩

theorem sameRecord_advance (hw : 0 < s.curve.windowTicks.toNat) (t : U64) :
    SameRecord (s.advance t).2 s := by
  have hclock := advance_clockStep hw t
  have hframe := advance_frame s t
  exact ⟨hclock.curve, hclock.curveRoot, hclock.secret, hclock.accepted, hframe.2,
    hclock.reservationSequence, hframe.1⟩

/-- A safe failing advance is the refusal of a past tick: the timing fields are untouched. -/
theorem sameTiming_of_advance_error (hsafe : s.RollSafe t) (h : s.advance t = (.error f, s')) :
    SameTiming s' s := by
  rcases advance_cases s t with ⟨-, hadv⟩ | ⟨-, -, -, hadv⟩ | ⟨hlast, hws, hfit, -⟩
  · rw [hadv] at h
    rw [← (Prod.mk.inj h).2]; exact SameTiming.refl s
  · rw [hadv] at h; cases (Prod.mk.inj h).1
  · exact absurd (hsafe hlast hws) hfit

/-- An overflowing advance has moved the window and yet does not succeed: no timing it could be measured
    against agrees with what it leaves. -/
theorem not_sameTiming_moved (hw : 0 < s.curve.windowTicks.toNat) (hlast : s.lastTick ≤ t)
    (hws : s.windowStart ≤ t) (hfit : ¬ s.RollFits t) :
    s.advance t = (.error .arithmeticOverflow, s.moved t) ∧ ¬ SameTiming (s.moved t) s := by
  have hadv : s.advance t = (.error .arithmeticOverflow, s.moved t) := by
    rcases advance_cases s t with ⟨hpast, -⟩ | ⟨-, -, hfit', -⟩ | ⟨-, -, -, hadv⟩
    · rcases hpast with hp | hp
      · exact absurd hlast (BitVec.not_le.mpr hp)
      · exact absurd hws (BitVec.not_le.mpr hp)
    · exact absurd hfit' hfit
    · exact hadv
  refine ⟨hadv, ?_⟩
  rintro ⟨heq, -⟩
  have := moved_lt hw hws (roll_of_not_fits hws hfit)
  rw [heq] at this
  omega

/-- A call that passes an overflowing advance on fails without atomicity. -/
theorem not_failsAtomically_of_moved {i : Call} (hw : 0 < s.curve.windowTicks.toNat)
    (hlast : s.lastTick ≤ t) (hws : s.windowStart ≤ t) (hfit : ¬ s.RollFits t) (htick : i.tick = some t)
    (hstep : step s i = (.error .arithmeticOverflow, s.moved t)) : ¬ FailsAtomically s i := by
  intro hat
  obtain ⟨hadv, hne⟩ := not_sameTiming_moved hw hlast hws hfit
  obtain ⟨hsame | ⟨t', s₁, ht', hadv', -⟩, -⟩ := hat .arithmeticOverflow (by rw [hstep])
  · rw [hstep] at hsame; exact hne hsame
  · -- there is no complete advance to compare with: it failed
    obtain rfl : t = t' := Option.some.inj (htick.symm.trans ht')
    rw [hadv] at hadv'; cases (Prod.mk.inj hadv').1

/-! ## Call by call -/

theorem failsAtomically_admitJob (hw : 0 < s.curve.windowTicks.toNat) :
    FailsAtomically s (.admitJob t d b) ↔ SafeCall s (.admitJob t d b) := by
  constructor
  · intro hat hlast hws
    by_contra hfit
    have hadv := (not_sameTiming_moved hw hlast hws hfit).1
    refine not_failsAtomically_of_moved hw hlast hws hfit rfl ?_ hat
    simp only [step, admitJob, hadv, Except.map]
  · intro hsafe f hf
    rcases ha : s.admitJob t d b with ⟨f' | c, s'⟩
    · simp only [step, ha]
      have hrec := sameRecord_advance hw t
      rcases admitJob_error ha with hadv | ⟨s₁, hadv, rfl | rfl⟩
      · rw [hadv] at hrec
        exact ⟨Or.inl (sameTiming_of_advance_error hsafe hadv), hrec⟩
      · rw [hadv] at hrec
        exact ⟨Or.inr ⟨t, s', rfl, hadv, SameTiming.refl s'⟩, hrec⟩
      · rw [hadv] at hrec
        exact ⟨Or.inr ⟨t, s₁, rfl, hadv, SameTiming.refl s₁⟩, hrec⟩
    · simp [step, ha, Except.map] at hf

theorem failsAtomically_rollback : FailsAtomically s (.rollback c) := by
  intro f hf
  rcases hr : s.rollback c with ⟨f' | ⟨⟨⟩⟩, s'⟩
  · simp only [step, hr]
    rw [rollback_error hr]
    exact ⟨Or.inl (SameTiming.refl s), SameRecord.refl s⟩
  · simp [step, hr, Except.map] at hf

theorem failsAtomically_observe (hw : 0 < s.curve.windowTicks.toNat) (hcal : Standard s.calibrator) :
    FailsAtomically s (.observeCompletion c t) ↔ SafeCall s (.observeCompletion c t) := by
  have hrec := sameRecord_advance hw t
  constructor
  · intro hat hv hct
    refine ⟨?_, ?_⟩
    · intro hlast hws
      by_contra hfit
      have hadv := (not_sameTiming_moved hw hlast hws hfit).1
      refine not_failsAtomically_of_moved hw hlast hws hfit rfl ?_ hat
      have hgate : ¬ ((!s.verifyCertificate c || decide (t < c.admittedTick)) = true) := by
        simpa [hv] using hct
      simp only [step, observeCompletion, if_neg hgate, hadv, Except.map]
    · intro hclock predicted hp
      have hok := advance_ok.mpr ⟨hclock, rfl⟩
      rw [hok] at hrec
      rw [hcal.sampleSafe_iff]
      -- the call reaches `push`; if the guard fails there, the calibrator must not have changed
      rcases observe_cases s c t with ⟨hgate, -⟩ | ⟨-, -, f, s', hadv, -⟩ | ⟨-, -, s₁, -, hp', -⟩ |
        ⟨-, -, s₁, predicted', hadv, hp', ⟨f, hg, ho⟩ | ⟨g, hg, ho⟩⟩
      · rcases hgate with hf | hlt
        · rw [hv] at hf; cases hf
        · exact absurd hct (BitVec.not_le.mpr hlt)
      · rw [hok] at hadv; cases (Prod.mk.inj hadv).1
      · rw [hp] at hp'; cases hp'
      · obtain rfl : predicted = predicted' := Option.some.inj (hp.symm.trans hp')
        obtain rfl : s.advanced t = s₁ := (Prod.mk.inj (hok.symm.trans hadv)).2
        right
        have hsame := (hat .corruptObservation (by simp only [step, ho, Except.map])).2.2.2.2.2.2.2
        simp only [step, ho] at hsame
        rw [hrec.2.2.2.2.2.2] at hsame
        exact hsame
      · obtain rfl : predicted = predicted' := Option.some.inj (hp.symm.trans hp')
        obtain rfl : s.advanced t = s₁ := (Prod.mk.inj (hok.symm.trans hadv)).2
        left
        rw [hrec.2.2.2.2.2.2] at hg
        exact ⟨g, hg⟩
  · intro hsafe f hf
    rcases observe_cases s c t with ⟨-, ho⟩ | ⟨hv, hct, f', s', hadv, ho⟩ | ⟨-, -, s₁, hadv, -, ho⟩ |
      ⟨hv, hct, s₁, predicted, hadv, hp, ⟨f', hg, ho⟩ | ⟨g, -, ho⟩⟩
    · simp only [step, ho]
      exact ⟨Or.inl (SameTiming.refl s), SameRecord.refl s⟩
    · simp only [step, ho]
      rw [hadv] at hrec
      exact ⟨Or.inl (sameTiming_of_advance_error (hsafe hv hct).1 hadv), hrec⟩
    · simp only [step, ho]
      rw [hadv] at hrec
      exact ⟨Or.inr ⟨t, s₁, rfl, hadv, SameTiming.refl s₁⟩, hrec⟩
    · simp only [step, ho]
      rw [hadv] at hrec
      have hsame := (hcal.sampleSafe_iff _).mp ((hsafe hv hct).2 (advance_ok.mp hadv).1 predicted hp)
      have hkeeps : s₁.calibrator = s.calibrator := hrec.2.2.2.2.2.2
      rw [← hkeeps] at hsame
      -- the guard failed, so the sample must have left the calibrator as it was
      rcases hsame with ⟨g, hok⟩ | hidle
      · rw [hok] at hg; cases hg
      · refine ⟨Or.inr ⟨t, s₁, rfl, hadv, SameTiming.refl s₁⟩, ?_⟩
        obtain ⟨h1, h2, h3, h4, h5, h6, h7⟩ := hrec
        exact ⟨h1, h2, h3, h4, h5, h6, hidle.trans h7⟩
    · simp [step, ho, Except.map] at hf

end

/-! ## Along every run -/

section

variable {curve : ServiceCurve} {nowTick secret : U64} {s₀ s : ServiceController N}
  {h : List (ControllerEvent N)}

/-- **Atomicity, exactly.** In every state that any sequence of calls reaches from `new`, with any
    certificates, a call fails atomically if and only if it is safe: the window roll it asks for does not
    overflow and, when it records a completion, the guard has room for the sample or the sample is idle. -/
theorem failing_call_atomic_iff (h₀ : new N curve nowTick secret = .ok s₀)
    (hr : Run step (fun _ _ => True) s₀ h s) (i : Call) : FailsAtomically s i ↔ SafeCall s i := by
  have hw := windowTicks_pos_run h₀ hr
  cases i with
  | admitJob t d b => exact failsAtomically_admitJob hw
  | rollback c => exact ⟨fun _ => trivial, fun _ => failsAtomically_rollback⟩
  | observeCompletion c t => exact failsAtomically_observe hw (standard_run h₀ hr)

/-- An honest caller never reaches the second exit: for a certificate the controller issued, the guard can
    always be computed after the sample is recorded. -/
theorem sampleSafe_honest (h₀ : new N curve nowTick secret = .ok s₀) (hr : Run step Honest s₀ h s)
    (hN : N < 2 ^ 60) {c : AdmissionCertificate} (hc : c ∈ issued h) {t predicted : U64}
    (hp : checkedAdd c.deterministicDelayTicks c.driftPenaltyTicks = some predicted) :
    SampleSafe s.calibrator (saturatingSub (t - c.admittedTick) predicted) := by
  have hcal := calibrated_run h₀ (hr.mono observesIssued_of_honest)
  have htame := ResidualCalibrator.tame_record hcal.tame (residual_lt (t := t) (hcal.predicted_pos c hc) hp)
  obtain ⟨g, hok, -⟩ := htame.guard_ok hN
  exact ((standard_run h₀ hr).sampleSafe_iff _).mpr (Or.inl ⟨g, hok⟩)

end

/-- Three windows as long as the clock allows: the guard's ceiling is the largest word. -/
def ceilingCurve : ServiceCurve where
  minimumCompletionsPerWindow := 1
  maximumAdmissionsPerWindow := 1
  windowTicks := 6148914691236517205
  latencyTicks := 0
  maximumBacklog := 3

def ceilingController : ServiceController 8 :=
  { sampleController with
    curve := ceilingCurve, windowStart := 0, lastTick := 0, curveRoot := serviceCurveRoot 7 ceilingCurve
    calibrator := .eightEmpty (BitVec.allOnes 64) (mix 7 0x43414c4942524154) }

/-- The certificate of an admission at tick `0`. -/
def ceilingCertificate : AdmissionCertificate :=
  (ceilingController.admitJob 0 (BitVec.allOnes 64) 0).1.toOption.getD .empty

/-- Two safe calls. An admission is refused for its deadline after two windows have rolled. A completion at the
    last tick rolls three windows and records its sample under a ceiling that clips nothing. -/
theorem failing_call_atomic_sample :
    (SafeCall sampleController (.admitJob 1250 1251 0) ∧
      (sampleController.admitJob 1250 1251 0).1 = .error .deadlineUnsafe ∧
      (sampleController.admitJob 1250 1251 0).2.windowStart = 1200 ∧
      FailsAtomically sampleController (.admitJob 1250 1251 0)) ∧
    ∃ s, s = (ceilingController.admitJob 0 (BitVec.allOnes 64) 0).2 ∧
      SafeCall s (.observeCompletion ceilingCertificate (BitVec.allOnes 64)) ∧
      (s.observeCompletion ceilingCertificate (BitVec.allOnes 64)).1 = .ok 12297829382473034411 ∧
      (s.observeCompletion ceilingCertificate (BitVec.allOnes 64)).2.calibrator.retained
        = [12297829382473034410] ∧
      FailsAtomically s (.observeCompletion ceilingCertificate (BitVec.allOnes 64)) := by
  constructor
  · have hsafe : SafeCall sampleController (.admitJob 1250 1251 0) := by
      intro _ _
      unfold RollFits
      decide +kernel
    exact ⟨hsafe, by decide +kernel, by decide +kernel,
      (failing_call_atomic_iff sampleController_new .start _).mpr hsafe⟩
  · have h₀ : new 8 ceilingCurve 0 7 = .ok ceilingController := by decide +kernel
    have hr : Run step (fun _ _ => True) ceilingController _ _ :=
      Run.start.call (Call.admitJob 0 (BitVec.allOnes 64) 0) trivial
    have hsafe : SafeCall (step ceilingController (.admitJob 0 (BitVec.allOnes 64) 0)).2
        (.observeCompletion ceilingCertificate (BitVec.allOnes 64)) := by
      intro _ _
      constructor
      · intro _ _
        unfold RollFits
        decide +kernel
      · intro _ predicted hp
        have hpredicted : checkedAdd ceilingCertificate.deterministicDelayTicks ceilingCertificate.driftPenaltyTicks
            = some 6148914691236517205 := by decide +kernel
        obtain rfl := Option.some.inj (hpredicted.symm.trans hp)
        exact Or.inl ⟨by decide +kernel, fun _ => by decide +kernel⟩
    exact ⟨_, rfl, hsafe, by decide +kernel, by decide +kernel, (failing_call_atomic_iff h₀ hr _).mpr hsafe⟩

/-- One completion per tick: every tick is a window. -/
def tickCurve : ServiceCurve where
  minimumCompletionsPerWindow := 1
  maximumAdmissionsPerWindow := 1
  windowTicks := 1
  latencyTicks := 0
  maximumBacklog := 1

/-- **The window moves in a failing call.** A controller idle since tick `0` is asked to admit at tick
    `2 ^ 60`: the drained service overflows after the window start has been assigned, and the call fails with
    `window_start` ahead of `last_tick`. -/
theorem failing_call_moves_window :
    ∃ s₀ : ServiceController 8, new 8 tickCurve 0 7 = .ok s₀ ∧
      (s₀.admitJob (2 ^ 60) (2 ^ 61) 0).1 = .error .arithmeticOverflow ∧
      (s₀.admitJob (2 ^ 60) (2 ^ 61) 0).2.windowStart = 2 ^ 60 ∧
      (s₀.admitJob (2 ^ 60) (2 ^ 61) 0).2.lastTick = 0 ∧
      ¬ FailsAtomically s₀ (.admitJob (2 ^ 60) (2 ^ 61) 0) := by
  refine ⟨{ sampleController with
              curve := tickCurve, windowStart := 0, lastTick := 0, curveRoot := serviceCurveRoot 7 tickCurve
              calibrator := ResidualCalibrator.sealRoot { sampleController.calibrator with maximumGuard := 1 } },
    by decide +kernel, by decide +kernel, by decide +kernel, by decide +kernel, ?_⟩
  intro hat
  have hfit := (failsAtomically_admitJob (by decide +kernel)).mp hat (by decide +kernel) (by decide +kernel)
  exact absurd hfit (by unfold RollFits; decide +kernel)

/-- A certificate nobody was issued, with a prediction of no ticks at all. -/
def forgedCertificate : AdmissionCertificate :=
  let certificate : AdmissionCertificate := { AdmissionCertificate.empty with
    reservationSequence := 1, delayBoundTicks := 1, curveRoot := ceilingController.curveRoot, calibrationRoot := 1 }
  { certificate with certificateRoot := admissionCertificateRoot 7 certificate }

/-- The second exit: the largest residual under the largest ceiling is recorded by a call that fails. -/
example : (ceilingController.observeCompletion forgedCertificate (BitVec.allOnes 64)).1
      = .error .corruptObservation ∧
    (ceilingController.observeCompletion forgedCertificate (BitVec.allOnes 64)).2.calibrator.retained
      = [BitVec.allOnes 64] := by
  decide +kernel

end Slope.Service.ServiceController
