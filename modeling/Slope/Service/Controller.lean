import Slope.Service.Calibrator

/-!
# `Service.Controller` — the admission controller

`admit`, `rollback` and `observe_completion` as the source computes them. Each returns its result together
with the controller it leaves, so that a failing call shows exactly what it has already changed when it
returns. The straight-line computation of the delay bound inside `admit` reads the controller and writes
nothing; it is `quote`. What follows the deadline check is `reserve`.
-/

namespace Slope.Service

open Word

inductive AdmissionFault where
  | invalidCurve
  | backlogSaturated
  | arrivalEnvelopeExceeded
  | deadlineUnsafe
  | timeRegression
  | arithmeticOverflow
  | staleReservation
  | corruptObservation
deriving DecidableEq

structure AdmissionCertificate where
  reservationSequence : U64
  admittedTick : U64
  windowStart : U64
  backlogBefore : U16
  admittedBefore : U16
  deterministicDelayTicks : U64
  uncertaintyGuardTicks : U64
  driftPenaltyTicks : U64
  delayBoundTicks : U64
  deadlineSlackTicks : U64
  curveRoot : U64
  calibrationRoot : U64
  certificateRoot : U64
deriving DecidableEq

/-- The all-zero certificate. -/
def AdmissionCertificate.empty : AdmissionCertificate where
  reservationSequence := 0
  admittedTick := 0
  windowStart := 0
  backlogBefore := 0
  admittedBefore := 0
  deterministicDelayTicks := 0
  uncertaintyGuardTicks := 0
  driftPenaltyTicks := 0
  delayBoundTicks := 0
  deadlineSlackTicks := 0
  curveRoot := 0
  calibrationRoot := 0
  certificateRoot := 0

def AdmissionCertificate.valid (c : AdmissionCertificate) : Bool :=
  c.reservationSequence != 0
    && c.delayBoundTicks != 0
    && c.curveRoot != 0
    && c.calibrationRoot != 0
    && c.certificateRoot != 0

/-- The certificate's fields up to the delay bound, absorbed in order. -/
def delayRoot (secret : U64) (c : AdmissionCertificate) : U64 :=
  let state := mix secret c.reservationSequence
  let state := mix state c.admittedTick
  let state := mix state c.windowStart
  let state := mix state (c.backlogBefore.setWidth 64 ||| (c.admittedBefore.setWidth 64 <<< 16))
  let state := mix state c.deterministicDelayTicks
  let state := mix state c.uncertaintyGuardTicks
  let state := mix state c.driftPenaltyTicks
  mix state c.delayBoundTicks

/-- The root of a certificate: all fields but the root itself, absorbed in order. -/
def admissionCertificateRoot (secret : U64) (c : AdmissionCertificate) : U64 :=
  let state := delayRoot secret c
  let state := mix state c.deadlineSlackTicks
  let state := mix state c.curveRoot
  mix state c.calibrationRoot

structure ServiceController (N : Nat) where
  curve : ServiceCurve
  secret : U64
  windowStart : U64
  lastTick : U64
  admittedInWindow : U16
  reservationSequence : U64
  accepted : U64
  rejected : U64
  observed : U64
  virtualBacklogQ16 : U64
  curveRoot : U64
  calibrator : ResidualCalibrator N
deriving DecidableEq

namespace ServiceController

variable {N : Nat}

def new (N : Nat) (curve : ServiceCurve) (nowTick secret : U64) :
    Except AdmissionFault (ServiceController N) :=
  if !curve.valid || secret == 0 || N == 0 then .error .invalidCurve
  else
    let curveRoot := serviceCurveRoot secret curve
    if curveRoot == 0 then .error .invalidCurve
    else
      match checkedMul curve.windowTicks (curve.maximumBacklog.setWidth 64) with
      | none => .error .arithmeticOverflow
      | some maximumGuard =>
        match ResidualCalibrator.kernelDefault N 1 (umax maximumGuard 1) (mix secret 0x43414c4942524154) with
        | .error _ => .error .invalidCurve
        | .ok calibrator =>
          .ok { curve, secret, windowStart := nowTick, lastTick := nowTick, admittedInWindow := 0,
                reservationSequence := 0, accepted := 0, rejected := 0, observed := 0,
                virtualBacklogQ16 := 0, curveRoot, calibrator }

def reject (s : ServiceController N) : ServiceController N :=
  { s with rejected := saturatingAdd s.rejected 1 }

/-! ## The clock -/

/-- `window_start` and `admitted_in_window` are assigned before the drained service is computed: when that
    product overflows, the call fails with the window already moved. -/
def advance (s : ServiceController N) (nowTick : U64) : Except AdmissionFault Unit × ServiceController N :=
  if nowTick < s.lastTick ∨ nowTick < s.windowStart then (.error .timeRegression, s.reject)
  else
    let elapsed := nowTick - s.windowStart
    if s.curve.windowTicks ≤ elapsed then
      let windows := elapsed / s.curve.windowTicks
      match (checkedMul windows s.curve.windowTicks).bind (checkedAdd s.windowStart ·) with
      | none => (.error .arithmeticOverflow, s)
      | some windowStart =>
        -- from here on a failure leaves the window moved
        let s := { s with windowStart, admittedInWindow := 0 }
        match (checkedMul windows (s.curve.minimumCompletionsPerWindow.setWidth 64)).bind
            (checkedMul · q16One) with
        | none => (.error .arithmeticOverflow, s)
        | some service =>
          (.ok (), { s with virtualBacklogQ16 := saturatingSub s.virtualBacklogQ16 service
                            lastTick := nowTick })
    else (.ok (), { s with lastTick := nowTick })

def driftPenaltyTicks (s : ServiceController N) : U64 :=
  -- whole jobs of the fixed-point backlog
  let jobs := s.virtualBacklogQ16 >>> 16
  if jobs = 0 then 0
  else
    let service : U64 := s.curve.minimumCompletionsPerWindow.setWidth 64
    let windows := saturatingAdd jobs (service - 1) / service
    saturatingMul windows s.curve.windowTicks

/-! ## Admission -/

/-- The delay bound of one admission and the deadline it requires. -/
structure Quote where
  deterministic : U64
  uncertainty : U64
  driftPenalty : U64
  delay : U64
  requiredDeadline : U64
deriving DecidableEq

def quote (s : ServiceController N) (nowTick backlogBefore : U64) : Except AdmissionFault Quote := do
  let deterministic ← okOr (s.curve.deterministicDelay backlogBefore) .backlogSaturated
  let uncertainty ← s.calibrator.guard.mapError fun _ => .arithmeticOverflow
  let driftPenalty := s.driftPenaltyTicks
  let delay ← okOr ((checkedAdd deterministic uncertainty).bind (checkedAdd · driftPenalty))
    .arithmeticOverflow
  let requiredDeadline ← okOr (checkedAdd nowTick delay) .arithmeticOverflow
  return { deterministic, uncertainty, driftPenalty, delay, requiredDeadline }

/-- The certificate for a quote, before its root is filled in. -/
def draft (s : ServiceController N) (nowTick deadlineTick backlogBefore : U64) (q : Quote) :
    AdmissionCertificate where
  reservationSequence := s.reservationSequence + 1
  admittedTick := nowTick
  windowStart := s.windowStart
  backlogBefore := backlogBefore.setWidth 16
  admittedBefore := s.admittedInWindow
  deterministicDelayTicks := q.deterministic
  uncertaintyGuardTicks := q.uncertainty
  driftPenaltyTicks := q.driftPenalty
  delayBoundTicks := q.delay
  deadlineSlackTicks := deadlineTick - q.requiredDeadline
  curveRoot := s.curveRoot
  calibrationRoot := s.calibrator.root
  certificateRoot := 0

/-- The sealed certificate for a quote. -/
def certificateFor (s : ServiceController N) (nowTick deadlineTick backlogBefore : U64) (q : Quote) :
    AdmissionCertificate :=
  let certificate := s.draft nowTick deadlineTick backlogBefore q
  { certificate with certificateRoot := admissionCertificateRoot s.secret certificate }

/-- The counters after a reservation. -/
def booked (s : ServiceController N) (reservationSequence : U64) (admittedInWindow : U16) :
    ServiceController N :=
  { s with
    admittedInWindow
    reservationSequence
    accepted := saturatingAdd s.accepted 1
    virtualBacklogQ16 := saturatingAdd s.virtualBacklogQ16 q16One }

/-- The tail of `admit`, after the deadline check. The conversion of the backlog to `u16` comes after the
    counters have been updated. -/
def reserve (s : ServiceController N) (nowTick deadlineTick backlogBefore : U64) (q : Quote) :
    Except AdmissionFault AdmissionCertificate × ServiceController N :=
  match checkedAdd s.reservationSequence 1 with
  | none => (.error .arithmeticOverflow, s)
  | some reservationSequence =>
    match checkedAdd s.admittedInWindow 1 with
    | none => (.error .arithmeticOverflow, s)
    | some admittedInWindow =>
      if backlogBefore.toNat < 2 ^ 16 then
        (.ok (s.certificateFor nowTick deadlineTick backlogBefore q),
          s.booked reservationSequence admittedInWindow)
      else (.error .backlogSaturated, s.booked reservationSequence admittedInWindow)

/-- `admit` in the source: the name is reserved here. -/
def admitJob (s : ServiceController N) (nowTick deadlineTick backlogBefore : U64) :
    Except AdmissionFault AdmissionCertificate × ServiceController N :=
  match s.advance nowTick with
  | (.error fault, s) => (.error fault, s)
  | (.ok (), s) =>
    if s.curve.maximumBacklog.setWidth 64 ≤ backlogBefore then (.error .backlogSaturated, s.reject)
    else if s.curve.maximumAdmissionsPerWindow ≤ s.admittedInWindow then
      (.error .arrivalEnvelopeExceeded, s.reject)
    else
      match s.quote nowTick backlogBefore with
      | .error fault => (.error fault, s)
      | .ok q =>
        if deadlineTick < q.requiredDeadline then (.error .deadlineUnsafe, s.reject)
        else s.reserve nowTick deadlineTick backlogBefore q

/-! ## Settlement -/

def verifyCertificate (s : ServiceController N) (c : AdmissionCertificate) : Bool :=
  c.valid
    && c.curveRoot == s.curveRoot
    && c.certificateRoot == admissionCertificateRoot s.secret c

def rollback (s : ServiceController N) (c : AdmissionCertificate) :
    Except AdmissionFault Unit × ServiceController N :=
  if !s.verifyCertificate c
      || c.windowStart != s.windowStart
      || c.reservationSequence != s.reservationSequence
      || s.admittedInWindow != saturatingAdd c.admittedBefore 1 then
    (.error .staleReservation, s)
  else
    (.ok (), { s with admittedInWindow := c.admittedBefore
                      accepted := saturatingSub s.accepted 1
                      virtualBacklogQ16 := saturatingSub s.virtualBacklogQ16 q16One })

/-- The Lyapunov backlog after a completion: one unit drained, and the overrun past the delay bound added. -/
def drained (s : ServiceController N) (c : AdmissionCertificate) (observedDelay : U64) : U64 :=
  let backlog := saturatingSub s.virtualBacklogQ16 q16One
  if c.delayBoundTicks < observedDelay then
    let excess := observedDelay - c.delayBoundTicks
    -- an overrun too large to scale saturates
    let pressure := ((checkedMul excess q16One).bind (checkedDiv · s.curve.windowTicks)).getD
      (BitVec.allOnes 64)
    saturatingAdd backlog pressure
  else backlog

def observeCompletion (s : ServiceController N) (c : AdmissionCertificate) (completionTick : U64) :
    Except AdmissionFault U64 × ServiceController N :=
  if !s.verifyCertificate c || decide (completionTick < c.admittedTick) then (.error .corruptObservation, s)
  else
    match s.advance completionTick with
    | (.error fault, s) => (.error fault, s)
    | (.ok (), s) =>
      let observedDelay := completionTick - c.admittedTick
      match checkedAdd c.deterministicDelayTicks c.driftPenaltyTicks with
      | none => (.error .arithmeticOverflow, s)
      | some predicted =>
        match s.calibrator.push (saturatingSub observedDelay predicted) with
        -- the sample stays recorded
        | (.error _, calibrator) => (.error .corruptObservation, { s with calibrator })
        | (.ok guard, calibrator) =>
          (.ok guard, { s with calibrator, virtualBacklogQ16 := s.drained c observedDelay
                               observed := saturatingAdd s.observed 1 })

end ServiceController

end Slope.Service
