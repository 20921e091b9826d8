import Slope.Service.Controller
import Slope.Lib.Run

/-!
# `Service.Steps` — what one controller call can do

One inversion lemma per operation, with every guard and every field it writes. Invariants, atomicity and
certificate results are derived from these lemmas alone.

`advance` has three outcomes (`advance_cases`): it refuses a tick in the past, it reaches `advanced`, or it
fails half way with the window already moved (`moved`). Whatever it does, it is a `ClockStep`: no reservation
is made or undone, and the window count survives exactly when the window does.
-/

namespace Slope.Service.ServiceController

open Word

variable {N : Nat} {s s' s₁ : ServiceController N} {t d b : U64} {c : AdmissionCertificate}
  {f : AdmissionFault}

/-! ## Construction -/

/-- **Inversion of `new`.** -/
theorem new_ok {curve : ServiceCurve} {nowTick secret : U64} (h : new N curve nowTick secret = .ok s) :
    curve.valid = true ∧ secret ≠ 0 ∧ serviceCurveRoot secret curve ≠ 0 ∧
    ∃ maximumGuard calibrator,
      checkedMul curve.windowTicks (curve.maximumBacklog.setWidth 64) = some maximumGuard ∧
      ResidualCalibrator.kernelDefault N 1 (umax maximumGuard 1) (mix secret 0x43414c4942524154)
        = .ok calibrator ∧
      s = { curve, secret, windowStart := nowTick, lastTick := nowTick, admittedInWindow := 0,
            reservationSequence := 0, accepted := 0, rejected := 0, observed := 0, virtualBacklogQ16 := 0,
            curveRoot := serviceCurveRoot secret curve, calibrator } := by
  unfold new at h
  split at h
  · cases h
  next hgate =>
  simp only [Bool.or_eq_true, Bool.not_eq_true', beq_iff_eq, not_or, Bool.not_eq_false] at hgate
  dsimp only at h
  split at h
  · cases h
  next hroot =>
  split at h
  · cases h
  next g hg =>
  split at h
  · cases h
  next cal hcal =>
  exact ⟨hgate.1.1, hgate.1.2, by simpa using hroot, g, cal, hg, hcal, (Except.ok.inj h).symm⟩

/-! ## The clock -/

/-- The whole windows elapsed at tick `t`. -/
def elapsedWindows (s : ServiceController N) (t : U64) : U64 := (t - s.windowStart) / s.curve.windowTicks

/-- The service drained by the windows elapsed at tick `t` fits in a word. -/
def RollFits (s : ServiceController N) (t : U64) : Prop :=
  (t.toNat - s.windowStart.toNat) / s.curve.windowTicks.toNat * s.curve.minimumCompletionsPerWindow.toNat
    * 2 ^ 16 < 2 ^ 64

/-- The window start and window count after the windows elapsed at tick `t`, nothing else changed. -/
def moved (s : ServiceController N) (t : U64) : ServiceController N :=
  { s with
    windowStart := s.windowStart + s.elapsedWindows t * s.curve.windowTicks
    admittedInWindow := 0 }

/-- The state after a complete advance to tick `t`. -/
def advanced (s : ServiceController N) (t : U64) : ServiceController N :=
  if s.curve.windowTicks ≤ t - s.windowStart then
    { s.moved t with
      virtualBacklogQ16 := saturatingSub s.virtualBacklogQ16
        (s.elapsedWindows t * s.curve.minimumCompletionsPerWindow.setWidth 64 * q16One)
      lastTick := t }
  else { s with lastTick := t }

theorem toNat_elapsedWindows (hws : s.windowStart ≤ t) :
    (s.elapsedWindows t).toNat = (t.toNat - s.windowStart.toNat) / s.curve.windowTicks.toNat := by
  rw [elapsedWindows, BitVec.toNat_udiv, BitVec.toNat_sub_of_le hws]

/-- Inside the window no whole window has elapsed. -/
theorem elapsed_of_not_roll (hws : s.windowStart ≤ t) (hroll : ¬ s.curve.windowTicks ≤ t - s.windowStart) :
    (t.toNat - s.windowStart.toNat) / s.curve.windowTicks.toNat = 0 := by
  rw [BitVec.le_def, BitVec.toNat_sub_of_le hws] at hroll
  exact Nat.div_eq_of_lt (Nat.not_le.mp hroll)

/-- The new window start does not overflow: it is at most the tick itself. -/
theorem roll_start (hws : s.windowStart ≤ t) :
    (checkedMul (s.elapsedWindows t) s.curve.windowTicks).bind (checkedAdd s.windowStart ·)
      = some (s.windowStart + s.elapsedWindows t * s.curve.windowTicks) := by
  have hle : (s.elapsedWindows t).toNat * s.curve.windowTicks.toNat ≤ t.toNat - s.windowStart.toNat := by
    rw [toNat_elapsedWindows hws]
    exact Nat.div_mul_le_self _ _
  have ht := t.isLt
  rw [BitVec.le_def] at hws
  have hmul : (s.elapsedWindows t * s.curve.windowTicks).toNat
      = (s.elapsedWindows t).toNat * s.curve.windowTicks.toNat := by
    rw [BitVec.toNat_mul, Nat.mod_eq_of_lt (by omega)]
  rw [checkedMul_eq_some.mpr hmul, Option.bind_some, checkedAdd_eq_some, BitVec.toNat_add,
    Nat.mod_eq_of_lt (by rw [hmul]; omega)]

/-- The drained service overflows exactly when `RollFits` fails. -/
theorem roll_service (hws : s.windowStart ≤ t) :
    (checkedMul (s.elapsedWindows t) (s.curve.minimumCompletionsPerWindow.setWidth 64)).bind
        (checkedMul · q16One)
      = if (t.toNat - s.windowStart.toNat) / s.curve.windowTicks.toNat
            * s.curve.minimumCompletionsPerWindow.toNat * 2 ^ 16 < 2 ^ 64
        then some (s.elapsedWindows t * s.curve.minimumCompletionsPerWindow.setWidth 64 * q16One)
        else none := by
  have hz := toNat_zext (by decide : 16 ≤ 64) s.curve.minimumCompletionsPerWindow
  have hq : q16One.toNat = 2 ^ 16 := rfl
  rw [← toNat_elapsedWindows hws]
  -- the first product fits whenever the second does
  generalize hx : (s.elapsedWindows t).toNat * s.curve.minimumCompletionsPerWindow.toNat = x
  by_cases hfit : x < 2 ^ 64
  · have hmul : (s.elapsedWindows t * s.curve.minimumCompletionsPerWindow.setWidth 64).toNat = x := by
      rw [BitVec.toNat_mul, hz, hx, Nat.mod_eq_of_lt hfit]
    rw [checkedMul_eq_some.mpr (by rw [hmul, hz, hx]), Option.bind_some, checkedMul, hmul, hq]
  · rw [checkedMul_eq_none.mpr (by rw [hz, hx]; omega), if_neg (by omega)]
    rfl

/-- **Inversion of `advance`.** -/
theorem advance_cases (s : ServiceController N) (t : U64) :
    ((t < s.lastTick ∨ t < s.windowStart) ∧ s.advance t = (.error .timeRegression, s.reject)) ∨
    (s.lastTick ≤ t ∧ s.windowStart ≤ t ∧ s.RollFits t ∧ s.advance t = (.ok (), s.advanced t)) ∨
    (s.lastTick ≤ t ∧ s.windowStart ≤ t ∧ ¬ s.RollFits t ∧
      s.advance t = (.error .arithmeticOverflow, s.moved t)) := by
  by_cases hpast : t < s.lastTick ∨ t < s.windowStart
  · exact Or.inl ⟨hpast, by rw [advance, if_pos hpast]⟩
  right
  obtain ⟨hlt, hws⟩ := not_or.mp hpast
  rw [BitVec.not_lt] at hlt hws
  have hstart := roll_start hws
  have hservice := roll_service hws
  unfold elapsedWindows at hstart hservice
  by_cases hroll : s.curve.windowTicks ≤ t - s.windowStart
  · by_cases hfit : s.RollFits t
    · left
      rw [RollFits] at hfit
      refine ⟨hlt, hws, hfit, ?_⟩
      rw [if_pos hfit] at hservice
      simp only [advance, if_neg hpast, if_pos hroll, hstart, hservice, advanced, moved, elapsedWindows]
    · right
      refine ⟨hlt, hws, hfit, ?_⟩
      rw [RollFits] at hfit
      rw [if_neg hfit] at hservice
      simp only [advance, if_neg hpast, if_pos hroll, hstart, hservice, moved, elapsedWindows]
  · -- inside the window nothing rolls, so nothing can overflow
    left
    refine ⟨hlt, hws, by simp [RollFits, elapsed_of_not_roll hws hroll], ?_⟩
    simp only [advance, if_neg hpast, if_neg hroll, advanced]

/-- From `s` to `s'` no reservation is made or undone: the identity of the controller and its reservation
    counters are the same, and the window count is kept exactly when the window is. -/
structure ClockStep (s s' : ServiceController N) : Prop where
  curve : s'.curve = s.curve
  secret : s'.secret = s.secret
  curveRoot : s'.curveRoot = s.curveRoot
  reservationSequence : s'.reservationSequence = s.reservationSequence
  accepted : s'.accepted = s.accepted
  window : (s'.windowStart = s.windowStart ∧ s'.admittedInWindow = s.admittedInWindow) ∨
    (s.windowStart.toNat < s'.windowStart.toNat ∧ s'.admittedInWindow = 0)

theorem ClockStep.refl (s : ServiceController N) : ClockStep s s :=
  ⟨rfl, rfl, rfl, rfl, rfl, Or.inl ⟨rfl, rfl⟩⟩

theorem ClockStep.reject (h : ClockStep s s') : ClockStep s s'.reject :=
  ⟨h.curve, h.secret, h.curveRoot, h.reservationSequence, h.accepted, h.window⟩

/-- What a completion records besides is no part of a clock step. -/
theorem ClockStep.record (h : ClockStep s s') (calibrator : ResidualCalibrator N) (backlog observed : U64) :
    ClockStep s { s' with calibrator, virtualBacklogQ16 := backlog, observed } :=
  ⟨h.curve, h.secret, h.curveRoot, h.reservationSequence, h.accepted, h.window⟩

/-- When at least one window has elapsed, the window start moves strictly forward. -/
theorem moved_lt (hw : 0 < s.curve.windowTicks.toNat) (hws : s.windowStart ≤ t)
    (hroll : s.curve.windowTicks ≤ t - s.windowStart) :
    s.windowStart.toNat < (s.moved t).windowStart.toNat := by
  have hsub : (t - s.windowStart).toNat = t.toNat - s.windowStart.toNat := BitVec.toNat_sub_of_le hws
  obtain ⟨span, hspan, hstart⟩ := Option.bind_eq_some_iff.mp (roll_start hws)
  rw [checkedMul_eq_some] at hspan
  rw [checkedAdd_eq_some] at hstart
  rw [BitVec.le_def, hsub] at hroll
  have hone : 0 < (s.elapsedWindows t).toNat := by
    rw [toNat_elapsedWindows hws]
    exact Nat.div_pos hroll hw
  have := Nat.mul_pos hone hw
  show s.windowStart.toNat < (s.windowStart + s.elapsedWindows t * s.curve.windowTicks).toNat
  omega

theorem clockStep_moved (hw : 0 < s.curve.windowTicks.toNat) (hws : s.windowStart ≤ t)
    (hroll : s.curve.windowTicks ≤ t - s.windowStart) : ClockStep s (s.moved t) :=
  ⟨rfl, rfl, rfl, rfl, rfl, Or.inr ⟨moved_lt hw hws hroll, rfl⟩⟩

theorem clockStep_advanced (hw : 0 < s.curve.windowTicks.toNat) (hws : s.windowStart ≤ t) :
    ClockStep s (s.advanced t) := by
  unfold advanced
  split
  · next hroll =>
    exact ⟨rfl, rfl, rfl, rfl, rfl, Or.inr ⟨moved_lt hw hws hroll, rfl⟩⟩
  · exact ⟨rfl, rfl, rfl, rfl, rfl, Or.inl ⟨rfl, rfl⟩⟩

/-- Only a tick that rolls the window can overflow. -/
theorem roll_of_not_fits (hws : s.windowStart ≤ t) (h : ¬ s.RollFits t) :
    s.curve.windowTicks ≤ t - s.windowStart := by
  by_contra hroll
  apply h
  rw [RollFits, elapsed_of_not_roll hws hroll]
  omega

/-- Whatever `advance` returns, it has moved the clock only. -/
theorem advance_clockStep (hw : 0 < s.curve.windowTicks.toNat) (t : U64) :
    ClockStep s (s.advance t).2 := by
  rcases advance_cases s t with ⟨-, h⟩ | ⟨-, hws, -, h⟩ | ⟨-, hws, hfit, h⟩
  · rw [h]; exact (ClockStep.refl s).reject
  · rw [h]; exact clockStep_advanced hw hws
  · rw [h]; exact clockStep_moved hw hws (roll_of_not_fits hws hfit)

/-- The clock takes tick `t`. -/
def ClockAccepts (s : ServiceController N) (t : U64) : Prop :=
  s.lastTick ≤ t ∧ s.windowStart ≤ t ∧ s.RollFits t

/-- `advance` succeeds exactly when the clock takes the tick, and then reaches `advanced`. -/
theorem advance_ok : s.advance t = (.ok (), s₁) ↔ s.ClockAccepts t ∧ s₁ = s.advanced t := by
  rcases advance_cases s t with ⟨hpast, h⟩ | ⟨hlast, hws, hfit, h⟩ | ⟨hlast, hws, hfit, h⟩
  · constructor
    · rw [h]; intro he; cases (Prod.mk.inj he).1
    · rintro ⟨⟨hlast, hws, -⟩, -⟩
      rcases hpast with hp | hp
      · exact absurd hlast (BitVec.not_le.mpr hp)
      · exact absurd hws (BitVec.not_le.mpr hp)
  · rw [h]
    exact ⟨fun he => ⟨⟨hlast, hws, hfit⟩, (Prod.mk.inj he).2.symm⟩, fun he => by rw [he.2]⟩
  · constructor
    · rw [h]; intro he; cases (Prod.mk.inj he).1
    · rintro ⟨⟨-, -, hfit'⟩, -⟩; exact absurd hfit' hfit

/-- `advance` touches neither the calibrator nor the count of completions. -/
theorem advance_frame (s : ServiceController N) (t : U64) :
    (s.advance t).2.calibrator = s.calibrator ∧ (s.advance t).2.observed = s.observed := by
  rcases advance_cases s t with ⟨-, h⟩ | ⟨-, -, -, h⟩ | ⟨-, -, -, h⟩
  · rw [h]; exact ⟨rfl, rfl⟩
  · rw [h]
    show (s.advanced t).calibrator = s.calibrator ∧ (s.advanced t).observed = s.observed
    unfold advanced
    split <;> exact ⟨rfl, rfl⟩
  · rw [h]; exact ⟨rfl, rfl⟩

/-! ## Admission -/

/-- **Inversion of `quote`.** The quoted delay is the exact sum of its three parts. -/
theorem quote_ok {q : Quote} (h : s.quote t b = .ok q) :
    s.curve.deterministicDelay b = some q.deterministic ∧ s.calibrator.guard = .ok q.uncertainty ∧
    q.driftPenalty = s.driftPenaltyTicks ∧
    q.delay.toNat = q.deterministic.toNat + q.uncertainty.toNat + q.driftPenalty.toNat ∧
    q.requiredDeadline.toNat = t.toNat + q.delay.toNat := by
  unfold quote at h
  -- one case split per fallible step, in the order of the source
  cases hdet : s.curve.deterministicDelay b with
  | none => rw [hdet] at h; cases h
  | some det =>
  cases hunc : s.calibrator.guard with
  | error f => rw [hdet, hunc] at h; cases h
  | ok unc =>
  rw [hdet, hunc] at h
  dsimp only [okOr, Except.mapError, bind, Except.bind] at h
  cases hdelay : (checkedAdd det unc).bind (checkedAdd · s.driftPenaltyTicks) with
  | none => rw [hdelay] at h; cases h
  | some delay =>
  rw [hdelay] at h
  dsimp only at h
  cases hreq : checkedAdd t delay with
  | none => rw [hreq] at h; cases h
  | some required =>
  rw [hreq] at h
  obtain rfl := Except.ok.inj h
  obtain ⟨sum, hsum, hdelay⟩ := Option.bind_eq_some_iff.mp hdelay
  refine ⟨rfl, rfl, rfl, ?_, checkedAdd_eq_some.mp hreq⟩
  show delay.toNat = _
  rw [checkedAdd_eq_some.mp hdelay, checkedAdd_eq_some.mp hsum]

/-- **Inversion of a refused `admit`.** Either the clock refused, or the clock advanced and at most the
    rejection was counted. In particular the conversion of the backlog after the counters are updated cannot
    fail: the backlog is below a 16-bit maximum by then. -/
theorem admitJob_error (h : s.admitJob t d b = (.error f, s')) :
    s.advance t = (.error f, s') ∨ ∃ s₁, s.advance t = (.ok (), s₁) ∧ (s' = s₁ ∨ s' = s₁.reject) := by
  unfold admitJob at h
  rcases hadv : s.advance t with ⟨_ | ⟨⟨⟩⟩, s₁⟩
  · rw [hadv] at h
    obtain ⟨hf, hs⟩ := Prod.mk.inj h
    exact Or.inl (by rw [Except.error.inj hf, hs])
  rw [hadv] at h
  refine Or.inr ⟨s₁, rfl, ?_⟩
  dsimp only at h
  split at h
  · exact Or.inr (Prod.mk.inj h).2.symm
  next hb =>
  split at h
  · exact Or.inr (Prod.mk.inj h).2.symm
  split at h
  · exact Or.inl (Prod.mk.inj h).2.symm
  split at h
  · exact Or.inr (Prod.mk.inj h).2.symm
  -- the reservation itself
  unfold reserve at h
  split at h
  · exact Or.inl (Prod.mk.inj h).2.symm
  split at h
  · exact Or.inl (Prod.mk.inj h).2.symm
  split at h
  · exact absurd (Prod.mk.inj h).1 (by simp)
  · -- the backlog is below the 16-bit maximum, so its conversion cannot fail
    next hlt =>
    have hz := toNat_zext (by decide : 16 ≤ 64) s₁.curve.maximumBacklog
    have := s₁.curve.maximumBacklog.isLt
    rw [BitVec.le_def, hz] at hb
    omega

/-- A refused `admit` has moved the clock only. -/
theorem admitJob_error_clockStep (hw : 0 < s.curve.windowTicks.toNat) (h : s.admitJob t d b = (.error f, s')) :
    ClockStep s s' ∧ s'.calibrator = s.calibrator ∧ s'.observed = s.observed := by
  have hclock := advance_clockStep hw t
  have hframe := advance_frame s t
  rcases admitJob_error h with hadv | ⟨s₁, hadv, rfl | rfl⟩
  · rw [hadv] at hclock hframe; exact ⟨hclock, hframe⟩
  · rw [hadv] at hclock hframe; exact ⟨hclock, hframe⟩
  · rw [hadv] at hclock hframe; exact ⟨hclock.reject, hframe⟩

/-- **Inversion of a granted `admit`.** -/
theorem admitJob_ok (h : s.admitJob t d b = (.ok c, s')) :
    ∃ s₁ q, s.advance t = (.ok (), s₁) ∧
      b.toNat < s₁.curve.maximumBacklog.toNat ∧
      s₁.admittedInWindow.toNat < s₁.curve.maximumAdmissionsPerWindow.toNat ∧
      s₁.quote t b = .ok q ∧ q.requiredDeadline ≤ d ∧
      s₁.reservationSequence.toNat + 1 < 2 ^ 64 ∧
      c = s₁.certificateFor t d b q ∧
      s' = s₁.booked (s₁.reservationSequence + 1) (s₁.admittedInWindow + 1) := by
  unfold admitJob at h
  rcases hadv : s.advance t with ⟨_ | ⟨⟨⟩⟩, s₁⟩
  · rw [hadv] at h; exact absurd (Prod.mk.inj h).1 (by simp)
  rw [hadv] at h
  dsimp only at h
  split at h
  · exact absurd (Prod.mk.inj h).1 (by simp)
  next hb =>
  split at h
  · exact absurd (Prod.mk.inj h).1 (by simp)
  next hadm =>
  split at h
  · exact absurd (Prod.mk.inj h).1 (by simp)
  next q hq =>
  split at h
  · exact absurd (Prod.mk.inj h).1 (by simp)
  next hd =>
  unfold reserve at h
  split at h
  · exact absurd (Prod.mk.inj h).1 (by simp)
  next seq hseq =>
  split at h
  · exact absurd (Prod.mk.inj h).1 (by simp)
  next adm hadm' =>
  split at h
  · obtain ⟨hc, hs⟩ := Prod.mk.inj h
    have hz := toNat_zext (by decide : 16 ≤ 64) s₁.curve.maximumBacklog
    rw [BitVec.le_def, hz] at hb
    rw [BitVec.le_def] at hadm
    have h1 : (1 : U64).toNat = 1 := rfl
    have hseqv := checkedAdd_eq_some.mp hseq
    have hlt := seq.isLt
    have hseq' : seq = s₁.reservationSequence + 1 := eq_add_of_checkedAdd hseq
    have hadm'' : adm = s₁.admittedInWindow + 1 := eq_add_of_checkedAdd hadm'
    subst hseq' hadm''
    refine ⟨s₁, q, rfl, by omega, by omega, hq, BitVec.not_lt.mp hd, by omega, ?_, hs.symm⟩
    exact (Except.ok.inj hc).symm
  · exact absurd (Prod.mk.inj h).1 (by simp)

/-- Sums that fit give a quote. -/
theorem quote_of_fits {det unc : U64} (hdet : s.curve.deterministicDelay b = some det)
    (hunc : s.calibrator.guard = .ok unc)
    (hfit : t.toNat + (det.toNat + unc.toNat + s.driftPenaltyTicks.toNat) < 2 ^ 64) : ∃ q, s.quote t b = .ok q := by
  have hsum : (det + unc).toNat = det.toNat + unc.toNat := by
    rw [BitVec.toNat_add, Nat.mod_eq_of_lt (by omega)]
  have hdelay : (det + unc + s.driftPenaltyTicks).toNat = det.toNat + unc.toNat + s.driftPenaltyTicks.toNat := by
    rw [BitVec.toNat_add, hsum, Nat.mod_eq_of_lt (by omega)]
  have hreq : (t + (det + unc + s.driftPenaltyTicks)).toNat
      = t.toNat + (det + unc + s.driftPenaltyTicks).toNat := by
    rw [BitVec.toNat_add, Nat.mod_eq_of_lt (by omega)]
  unfold quote
  rw [hdet, hunc]
  dsimp only [okOr, Except.mapError, bind, Except.bind]
  rw [checkedAdd_eq_some.mpr hsum, Option.bind_some, checkedAdd_eq_some.mpr (hdelay.trans (by rw [hsum]))]
  dsimp only
  rw [checkedAdd_eq_some.mpr hreq]
  exact ⟨_, rfl⟩

/-- **A granted `admit`**, from the facts its inversion gives. -/
theorem admitJob_granted {q : Quote} (hadv : s.advance t = (.ok (), s₁))
    (hb : b.toNat < s₁.curve.maximumBacklog.toNat)
    (hadm : s₁.admittedInWindow.toNat < s₁.curve.maximumAdmissionsPerWindow.toNat)
    (hq : s₁.quote t b = .ok q) (hd : q.requiredDeadline ≤ d) (hseq : s₁.reservationSequence.toNat + 1 < 2 ^ 64) :
    s.admitJob t d b = (.ok (s₁.certificateFor t d b q),
      s₁.booked (s₁.reservationSequence + 1) (s₁.admittedInWindow + 1)) := by
  have hz := toNat_zext (by decide : 16 ≤ 64) s₁.curve.maximumBacklog
  have hmax := s₁.curve.maximumBacklog.isLt
  have hcap := s₁.curve.maximumAdmissionsPerWindow.isLt
  have hnotFull : ¬ s₁.curve.maximumBacklog.setWidth 64 ≤ b := by rw [BitVec.le_def, hz]; omega
  have hnotSpent : ¬ s₁.curve.maximumAdmissionsPerWindow ≤ s₁.admittedInWindow := by rw [BitVec.le_def]; omega
  have hnext : checkedAdd s₁.reservationSequence 1 = some (s₁.reservationSequence + 1) := if_pos hseq
  have hcount : checkedAdd s₁.admittedInWindow 1 = some (s₁.admittedInWindow + 1) := by
    have h1 : (1 : U16).toNat = 1 := rfl
    exact if_pos (by omega)
  simp only [admitJob, hadv, if_neg hnotFull, if_neg hnotSpent, hq, if_neg (BitVec.not_lt.mpr hd), reserve, hnext,
    hcount, if_pos (show b.toNat < 2 ^ 16 by omega)]

/-! ## Settlement -/

/-- **Inversion of `rollback`.** -/
theorem rollback_ok :
    s.rollback c = (.ok (), s') ↔
      s.verifyCertificate c = true ∧ c.windowStart = s.windowStart ∧
      c.reservationSequence = s.reservationSequence ∧
      s.admittedInWindow = saturatingAdd c.admittedBefore 1 ∧
      s' = { s with admittedInWindow := c.admittedBefore
                    accepted := saturatingSub s.accepted 1
                    virtualBacklogQ16 := saturatingSub s.virtualBacklogQ16 q16One } := by
  unfold rollback
  split
  · next hgate =>
    constructor
    · intro he; exact absurd (Prod.mk.inj he).1 (by simp)
    · rintro ⟨hv, hw, hs, ha, -⟩
      simp [hv, hw, hs, ha] at hgate
  · next hgate =>
    simp only [Bool.or_eq_true, Bool.not_eq_true', bne_iff_ne, not_or, Bool.not_eq_false, not_not] at hgate
    obtain ⟨⟨⟨hv, hw⟩, hs⟩, ha⟩ := hgate
    constructor
    · intro he; exact ⟨hv, hw, hs, ha, (Prod.mk.inj he).2.symm⟩
    · rintro ⟨-, -, -, -, rfl⟩; rfl

theorem rollback_error (h : s.rollback c = (.error f, s')) : s' = s := by
  unfold rollback at h
  split at h
  · exact (Prod.mk.inj h).2.symm
  · exact absurd (Prod.mk.inj h).1 (by simp)

/-- **Inversion of `observe_completion`.** -/
theorem observe_cases (s : ServiceController N) (c : AdmissionCertificate) (t : U64) :
    ((s.verifyCertificate c = false ∨ t < c.admittedTick) ∧
      s.observeCompletion c t = (.error .corruptObservation, s)) ∨
    (s.verifyCertificate c = true ∧ c.admittedTick ≤ t ∧
      ∃ f s', s.advance t = (.error f, s') ∧ s.observeCompletion c t = (.error f, s')) ∨
    (s.verifyCertificate c = true ∧ c.admittedTick ≤ t ∧ ∃ s₁, s.advance t = (.ok (), s₁) ∧
      checkedAdd c.deterministicDelayTicks c.driftPenaltyTicks = none ∧
      s.observeCompletion c t = (.error .arithmeticOverflow, s₁)) ∨
    (s.verifyCertificate c = true ∧ c.admittedTick ≤ t ∧ ∃ s₁ predicted, s.advance t = (.ok (), s₁) ∧
      checkedAdd c.deterministicDelayTicks c.driftPenaltyTicks = some predicted ∧
      ((∃ f, (s₁.calibrator.record (saturatingSub (t - c.admittedTick) predicted)).guard = .error f ∧
          s.observeCompletion c t = (.error .corruptObservation,
            { s₁ with calibrator := s₁.calibrator.record (saturatingSub (t - c.admittedTick) predicted) })) ∨
       (∃ g, (s₁.calibrator.record (saturatingSub (t - c.admittedTick) predicted)).guard = .ok g ∧
          s.observeCompletion c t = (.ok g,
            { s₁ with calibrator := s₁.calibrator.record (saturatingSub (t - c.admittedTick) predicted)
                      virtualBacklogQ16 := s₁.drained c (t - c.admittedTick)
                      observed := saturatingAdd s₁.observed 1 })))) := by
  by_cases hgate : (!s.verifyCertificate c || decide (t < c.admittedTick)) = true
  · left
    refine ⟨?_, by rw [observeCompletion, if_pos hgate]⟩
    simpa using hgate
  right
  have hv : s.verifyCertificate c = true ∧ c.admittedTick ≤ t := by simpa using hgate
  rcases hadv : s.advance t with ⟨f | ⟨⟨⟩⟩, s₁⟩
  · left
    exact ⟨hv.1, hv.2, f, s₁, rfl, by simp only [observeCompletion, if_neg hgate, hadv]⟩
  right
  cases hp : checkedAdd c.deterministicDelayTicks c.driftPenaltyTicks with
  | none =>
      left
      exact ⟨hv.1, hv.2, s₁, rfl, rfl, by simp only [observeCompletion, if_neg hgate, hadv, hp]⟩
  | some predicted =>
      right
      refine ⟨hv.1, hv.2, s₁, predicted, rfl, rfl, ?_⟩
      cases hg : (s₁.calibrator.record (saturatingSub (t - c.admittedTick) predicted)).guard with
      | error f =>
          left
          exact ⟨f, rfl, by
            simp only [observeCompletion, if_neg hgate, hadv, hp, ResidualCalibrator.push, hg]⟩
      | ok g =>
          right
          exact ⟨g, rfl, by
            simp only [observeCompletion, if_neg hgate, hadv, hp, ResidualCalibrator.push, hg]⟩

end Slope.Service.ServiceController
