import Mathlib.Data.List.Nodup
import Slope.Service.Steps

/-!
# `Service.History` — the reservation ledger along whole runs

The controller as one step function over its three operations, the certificates a history shows as issued,
rolled back and completed, and the ledger invariant that ties them to the counters. The environment is either
adversarial or *honest*: an honest caller presents only certificates that earlier admissions returned.
-/

namespace Slope.Service.ServiceController

open Word

variable {N : Nat}

/-! ## The step function -/

inductive Call where
  | admitJob (nowTick deadlineTick backlogBefore : U64)
  | rollback (certificate : AdmissionCertificate)
  | observeCompletion (certificate : AdmissionCertificate) (completionTick : U64)
deriving DecidableEq

inductive Outcome where
  | admitted (certificate : AdmissionCertificate)
  | rolledBack
  | observed (guard : U64)
deriving DecidableEq

abbrev Reply := Except AdmissionFault Outcome

def step (s : ServiceController N) : Call → Reply × ServiceController N
  | .admitJob nowTick deadlineTick backlogBefore =>
    ((s.admitJob nowTick deadlineTick backlogBefore).1.map .admitted,
      (s.admitJob nowTick deadlineTick backlogBefore).2)
  | .rollback certificate => ((s.rollback certificate).1.map fun _ => .rolledBack, (s.rollback certificate).2)
  | .observeCompletion certificate completionTick =>
    ((s.observeCompletion certificate completionTick).1.map .observed,
      (s.observeCompletion certificate completionTick).2)

abbrev ControllerEvent (N : Nat) := Event (ServiceController N) Call Reply

/-! ## What a history shows -/

def issuedBy (e : ControllerEvent N) : Option AdmissionCertificate :=
  match e.result with
  | .ok (.admitted c) => some c
  | _ => none

def rolledBackBy (e : ControllerEvent N) : Option AdmissionCertificate :=
  match e.call, e.result with
  | .rollback c, .ok _ => some c
  | _, _ => none

def completedBy (e : ControllerEvent N) : Option AdmissionCertificate :=
  match e.call, e.result with
  | .observeCompletion c _, .ok _ => some c
  | _, _ => none

/-- The certificates returned by successful admissions, oldest first. -/
def issued (h : List (ControllerEvent N)) : List AdmissionCertificate := h.filterMap issuedBy

/-- The certificates of successful rollbacks, oldest first. -/
def rolledBack (h : List (ControllerEvent N)) : List AdmissionCertificate := h.filterMap rolledBackBy

/-- The certificates of successful completions, oldest first. -/
def completed (h : List (ControllerEvent N)) : List AdmissionCertificate := h.filterMap completedBy

/-- How many of the certificates carry window start `w`. -/
def countIn (w : U64) (cs : List AdmissionCertificate) : Nat := cs.countP (·.windowStart == w)

/-- An honest caller settles only certificates it was given. -/
def Honest (h : List (ControllerEvent N)) : Call → Prop
  | .admitJob _ _ _ => True
  | .rollback c => c ∈ issued h
  | .observeCompletion c _ => c ∈ issued h

/-! ## What one call does to the ledger -/

/-- **Inversion of a step**, as the ledger sees it: nothing is settled or issued, or a reservation is booked,
    or one is undone, or a completion is recorded. -/
theorem step_cases {s : ServiceController N} (hw : 0 < s.curve.windowTicks.toNat) (i : Call) :
    (issuedBy (Event.of step s i) = none ∧ rolledBackBy (Event.of step s i) = none ∧
      completedBy (Event.of step s i) = none ∧ ClockStep s (step s i).2 ∧
      (step s i).2.observed = s.observed) ∨
    (∃ t d b s₁ q, i = .admitJob t d b ∧ s.admitJob t d b = (.ok (s₁.certificateFor t d b q), (step s i).2) ∧
      ClockStep s s₁ ∧ s₁.calibrator = s.calibrator ∧ s₁.observed = s.observed ∧
      s₁.admittedInWindow.toNat < s₁.curve.maximumAdmissionsPerWindow.toNat ∧
      s₁.quote t b = .ok q ∧ q.requiredDeadline ≤ d ∧ s₁.reservationSequence.toNat + 1 < 2 ^ 64 ∧
      issuedBy (Event.of step s i) = some (s₁.certificateFor t d b q) ∧
      rolledBackBy (Event.of step s i) = none ∧ completedBy (Event.of step s i) = none ∧
      (step s i).2 = s₁.booked (s₁.reservationSequence + 1) (s₁.admittedInWindow + 1)) ∨
    (∃ c, i = .rollback c ∧ s.rollback c = (.ok (), (step s i).2) ∧
      issuedBy (Event.of step s i) = none ∧ rolledBackBy (Event.of step s i) = some c ∧
      completedBy (Event.of step s i) = none) ∨
    (∃ c t, i = .observeCompletion c t ∧
      issuedBy (Event.of step s i) = none ∧ rolledBackBy (Event.of step s i) = none ∧
      completedBy (Event.of step s i) = some c ∧ ClockStep s (step s i).2 ∧
      (step s i).2.observed = saturatingAdd s.observed 1) := by
  cases i with
  | admitJob t d b =>
      rcases ha : s.admitJob t d b with ⟨f | c, s'⟩
      · left
        obtain ⟨hclock, -, hobs⟩ := admitJob_error_clockStep hw ha
        have hpost : ClockStep s s' ∧ s'.observed = s.observed := ⟨hclock, hobs⟩
        simpa [issuedBy, rolledBackBy, completedBy, Event.of, step, ha, Except.map] using hpost
      · right; left
        obtain ⟨s₁, q, hadv, -, hadm, hq, hd, hseq, rfl, rfl⟩ := admitJob_ok ha
        have hclock := advance_clockStep hw t
        have hframe := advance_frame s t
        rw [hadv] at hclock hframe
        refine ⟨t, d, b, s₁, q, rfl, ?_, hclock, hframe.1, hframe.2, hadm, hq, hd, hseq, ?_⟩
        · simp [step, ha]
        · simp [issuedBy, rolledBackBy, completedBy, Event.of, step, ha, Except.map]
  | rollback c =>
      rcases hr : s.rollback c with ⟨f | ⟨⟨⟩⟩, s'⟩
      · left
        rw [rollback_error hr] at hr
        simpa [issuedBy, rolledBackBy, completedBy, Event.of, step, hr, Except.map] using ClockStep.refl s
      · right; right; left
        refine ⟨c, rfl, ?_⟩
        simp [issuedBy, rolledBackBy, completedBy, Event.of, step, hr, Except.map]
  | observeCompletion c t =>
      have hclock := advance_clockStep hw t
      have hframe := advance_frame s t
      rcases observe_cases s c t with ⟨-, ho⟩ | ⟨-, -, f, s', hadv, ho⟩ | ⟨-, -, s₁, hadv, -, ho⟩ |
        ⟨-, -, s₁, predicted, hadv, -, ⟨f, -, ho⟩ | ⟨g, -, ho⟩⟩
      · left
        simpa [issuedBy, rolledBackBy, completedBy, Event.of, step, ho, Except.map] using ClockStep.refl s
      · left
        rw [hadv] at hclock hframe
        have hpost : ClockStep s s' ∧ s'.observed = s.observed := ⟨hclock, hframe.2⟩
        simpa [issuedBy, rolledBackBy, completedBy, Event.of, step, ho, Except.map] using hpost
      · left
        rw [hadv] at hclock hframe
        have hpost : ClockStep s s₁ ∧ s₁.observed = s.observed := ⟨hclock, hframe.2⟩
        simpa [issuedBy, rolledBackBy, completedBy, Event.of, step, ho, Except.map] using hpost
      · -- the guard failed: the calibrator has changed, the ledger has not
        left
        rw [hadv] at hclock hframe
        refine ⟨?_, ?_, ?_, ?_, ?_⟩
        · simp [issuedBy, Event.of, step, ho, Except.map]
        · simp [rolledBackBy, Event.of, step]
        · simp [completedBy, Event.of, step, ho, Except.map]
        · simp only [step, ho]
          exact hclock.record _ _ _
        · simp only [step, ho]; exact hframe.2
      · right; right; right
        rw [hadv] at hclock hframe
        refine ⟨c, t, rfl, ?_, ?_, ?_, ?_, ?_⟩
        · simp [issuedBy, Event.of, step, ho, Except.map]
        · simp [rolledBackBy, Event.of, step]
        · simp [completedBy, Event.of, step, ho, Except.map]
        · simp only [step, ho]
          exact hclock.record _ _ _
        · simp only [step, ho]; rw [hframe.2]

/-! ## The controller's identity -/

/-- No call changes the curve, the secret or the curve's root. -/
theorem identity_step {s : ServiceController N} (hw : 0 < s.curve.windowTicks.toNat) (i : Call) :
    (step s i).2.curve = s.curve ∧ (step s i).2.secret = s.secret ∧
      (step s i).2.curveRoot = s.curveRoot := by
  rcases step_cases hw i with ⟨-, -, -, hclock, -⟩ |
    ⟨t, d, b, s₁, q, -, -, hclock, -, -, -, -, -, -, -, -, -, hpost⟩ | ⟨c, -, hr, -⟩ |
    ⟨c, t, -, -, -, -, hclock, -⟩
  · exact ⟨hclock.curve, hclock.secret, hclock.curveRoot⟩
  · rw [hpost]; exact ⟨hclock.curve, hclock.secret, hclock.curveRoot⟩
  · obtain ⟨-, -, -, -, hpost⟩ := rollback_ok.mp hr
    rw [hpost]; exact ⟨rfl, rfl, rfl⟩
  · exact ⟨hclock.curve, hclock.secret, hclock.curveRoot⟩

theorem identity_run {s s' : ServiceController N} {allowed : List (ControllerEvent N) → Call → Prop}
    {h : List (ControllerEvent N)} (hw : 0 < s.curve.windowTicks.toNat) (hr : Run step allowed s h s') :
    s'.curve = s.curve ∧ s'.secret = s.secret ∧ s'.curveRoot = s.curveRoot := by
  refine hr.state_invariant
    (fun s' => s'.curve = s.curve ∧ s'.secret = s.secret ∧ s'.curveRoot = s.curveRoot) ⟨rfl, rfl, rfl⟩ ?_
  rintro s' i ⟨hc, hs, hcr⟩
  obtain ⟨hc', hs', hcr'⟩ := identity_step (hc ▸ hw) i
  exact ⟨hc'.trans hc, hs'.trans hs, hcr'.trans hcr⟩

/-- In every state reached from `new` the window is positive, whoever calls. -/
theorem windowTicks_pos_run {curve : ServiceCurve} {nowTick secret : U64} {s₀ s : ServiceController N}
    {allowed : List (ControllerEvent N) → Call → Prop} {h : List (ControllerEvent N)}
    (h₀ : new N curve nowTick secret = .ok s₀) (hr : Run step allowed s₀ h s) :
    0 < s.curve.windowTicks.toNat := by
  obtain ⟨hv, -, -, g, cal, -, -, hs₀⟩ := new_ok h₀
  have hw : 0 < s₀.curve.windowTicks.toNat := by
    rw [hs₀]; exact (ServiceCurve.valid_iff.mp hv).2.2.1
  rw [(identity_run hw hr).1]; exact hw

/-! ## The ledger -/

/-- **The ledger invariant.** `is` are the certificates issued so far and `rs` those rolled back. -/
structure Ledger (curve : ServiceCurve) (is rs : List AdmissionCertificate) (s : ServiceController N) :
    Prop where
  curve_eq : s.curve = curve
  sequences : is.map (·.reservationSequence.toNat) = List.range' 1 is.length
  latest : s.reservationSequence.toNat = is.length
  windows : ∀ c ∈ is, c.windowStart.toNat ≤ s.windowStart.toNat
  room : ∀ c ∈ is, c.admittedBefore.toNat + 1 < 2 ^ 16
  rolled_issued : ∀ c ∈ rs, c ∈ is
  rolled_nodup : rs.Nodup
  rolled_latest : ∀ c ∈ rs, c.windowStart = s.windowStart → c.reservationSequence = s.reservationSequence →
    s.admittedInWindow = c.admittedBefore
  accepted_eq : s.accepted.toNat + rs.length = is.length
  inWindow : countIn s.windowStart is = countIn s.windowStart rs + s.admittedInWindow.toNat
  envelope : ∀ w, countIn w is ≤ countIn w rs + curve.maximumAdmissionsPerWindow.toNat

section

variable {curve : ServiceCurve} {is rs : List AdmissionCertificate} {s s' s₁ : ServiceController N}
  {c c' : AdmissionCertificate}

theorem countIn_append (w : U64) (cs cs' : List AdmissionCertificate) :
    countIn w (cs ++ cs') = countIn w cs + countIn w cs' := List.countP_append

theorem countIn_singleton (w : U64) (c : AdmissionCertificate) :
    countIn w [c] = if c.windowStart = w then 1 else 0 := by
  by_cases h : c.windowStart = w <;> simp [countIn, h]

/-- A window ahead of every certificate holds none of them. -/
theorem countIn_eq_zero {w : U64} (h : ∀ c ∈ is, c.windowStart.toNat < w.toNat) : countIn w is = 0 := by
  refine List.countP_eq_zero.mpr fun c hc => ?_
  intro he
  have := h c hc
  rw [beq_iff_eq.mp he] at this
  omega

/-- An issued certificate carries a sequence number up to the latest one. -/
theorem Ledger.sequence_le (hl : Ledger curve is rs s) (hc : c ∈ is) :
    c.reservationSequence.toNat ≤ s.reservationSequence.toNat := by
  have hmem : c.reservationSequence.toNat ∈ List.range' 1 is.length :=
    hl.sequences ▸ List.mem_map.mpr ⟨c, hc, rfl⟩
  rw [List.mem_range'_1] at hmem
  rw [hl.latest]; omega

/-- The sequence number identifies an issued certificate. -/
theorem Ledger.sequence_inj (hl : Ledger curve is rs s) (hc : c ∈ is) (hc' : c' ∈ is)
    (h : c.reservationSequence = c'.reservationSequence) : c = c' := by
  have hnd : (is.map (·.reservationSequence.toNat)).Nodup := hl.sequences ▸ List.nodup_range'
  exact List.inj_on_of_nodup_map hnd hc hc' (congrArg BitVec.toNat h)

/-- The ledger of a fresh controller. -/
theorem ledger_new {nowTick secret : U64} (h : new N curve nowTick secret = .ok s) :
    Ledger curve [] [] s := by
  obtain ⟨-, -, -, g, cal, -, -, rfl⟩ := new_ok h
  refine ⟨rfl, rfl, rfl, by simp, by simp, by simp, List.nodup_nil, by simp, rfl, rfl, ?_⟩
  intro w
  exact Nat.zero_le _

/-- Moving the clock keeps the ledger: a new window starts empty because every certificate so far carries
    an earlier one. -/
theorem Ledger.clock (hl : Ledger curve is rs s) (hc : ClockStep s s') : Ledger curve is rs s' := by
  obtain ⟨hcurve, -, -, hseq, hacc, hwin⟩ := hc
  refine ⟨hcurve.trans hl.curve_eq, hl.sequences, by rw [hseq, hl.latest], ?_, hl.room, hl.rolled_issued,
    hl.rolled_nodup, ?_, by rw [hacc, hl.accepted_eq], ?_, hl.envelope⟩
  · intro c hc
    have := hl.windows c hc
    rcases hwin with ⟨hw, -⟩ | ⟨hw, -⟩
    · rw [hw]; exact this
    · omega
  · intro c hc hcw hcs
    rcases hwin with ⟨hw, hadm⟩ | ⟨hw, -⟩
    · rw [hadm]; exact hl.rolled_latest c hc (hw ▸ hcw) (hseq ▸ hcs)
    · have := hl.windows c (hl.rolled_issued c hc)
      rw [hcw] at this
      omega
  · rcases hwin with ⟨hw, hadm⟩ | ⟨hw, hadm⟩
    · rw [hw, hadm]; exact hl.inWindow
    · -- every certificate so far carries an earlier window
      have hnew : ∀ c ∈ is, c.windowStart.toNat < s'.windowStart.toNat := fun c hc =>
        Nat.lt_of_le_of_lt (hl.windows c hc) hw
      rw [countIn_eq_zero hnew, countIn_eq_zero fun c hc => hnew c (hl.rolled_issued c hc), hadm]
      rfl

/-- Booking a reservation appends its certificate, which carries the next sequence number and the current
    window. -/
theorem Ledger.book (hl : Ledger curve is rs s₁) {t d b : U64} {q : Quote}
    (hadm : s₁.admittedInWindow.toNat < s₁.curve.maximumAdmissionsPerWindow.toNat)
    (hseq : s₁.reservationSequence.toNat + 1 < 2 ^ 64) :
    Ledger curve (is ++ [s₁.certificateFor t d b q]) rs
      (s₁.booked (s₁.reservationSequence + 1) (s₁.admittedInWindow + 1)) := by
  have h1 : (1 : U64).toNat = 1 := rfl
  have h1' : (1 : U16).toNat = 1 := rfl
  have hnext : (s₁.reservationSequence + 1).toNat = is.length + 1 := by
    rw [BitVec.toNat_add, h1, Nat.mod_eq_of_lt hseq, hl.latest]
  have hmax := s₁.curve.maximumAdmissionsPerWindow.isLt
  have hcount : (s₁.admittedInWindow + 1).toNat = s₁.admittedInWindow.toNat + 1 := by
    rw [BitVec.toNat_add, h1', Nat.mod_eq_of_lt (by omega)]
  have hwin : ∀ w, countIn w [s₁.certificateFor t d b q] = if s₁.windowStart = w then 1 else 0 :=
    fun w => countIn_singleton w _
  refine ⟨hl.curve_eq, ?_, ?_, ?_, ?_, ?_, hl.rolled_nodup, ?_, ?_, ?_, ?_⟩
  · rw [List.map_append, hl.sequences, List.length_append, List.length_singleton, List.range'_concat]
    show List.range' 1 is.length ++ [(s₁.reservationSequence + 1).toNat] = _
    rw [hnext]; simp [Nat.add_comm]
  · show (s₁.reservationSequence + 1).toNat = _
    rw [hnext, List.length_append, List.length_singleton]
  · intro c hc
    rcases List.mem_append.mp hc with hc | hc
    · exact hl.windows c hc
    · rw [List.mem_singleton.mp hc]; exact Nat.le_refl _
  · intro c hc
    rcases List.mem_append.mp hc with hc | hc
    · exact hl.room c hc
    · rw [List.mem_singleton.mp hc]
      show s₁.admittedInWindow.toNat + 1 < 2 ^ 16
      omega
  · intro c hc; exact List.mem_append_left _ (hl.rolled_issued c hc)
  · -- a certificate rolled back earlier carries an earlier sequence number
    intro c hc _ hcs
    have hle := hl.sequence_le (hl.rolled_issued c hc)
    have hcs : c.reservationSequence.toNat = (s₁.reservationSequence + 1).toNat := congrArg BitVec.toNat hcs
    rw [hnext, ← hl.latest] at hcs
    omega
  · show (saturatingAdd s₁.accepted 1).toNat + rs.length = _
    have hacc := hl.accepted_eq
    have hlat := hl.latest
    rw [toNat_saturatingAdd_of_lt (by rw [h1]; omega), h1, List.length_append, List.length_singleton]
    omega
  · show countIn s₁.windowStart _ = _ + (s₁.admittedInWindow + 1).toNat
    rw [countIn_append, hwin, if_pos rfl, hcount]
    have := hl.inWindow
    show _ = countIn s₁.windowStart rs + _
    omega
  · intro w
    rw [countIn_append, hwin]
    split
    · -- in the current window the check of `admit` leaves room for one more
      next hw =>
      subst hw
      have := hl.inWindow
      rw [hl.curve_eq] at hadm
      omega
    · have := hl.envelope w
      omega

/-- A successful rollback is of a certificate not rolled back before, and takes it off the window. -/
theorem Ledger.undo (hl : Ledger curve is rs s) (hc : c ∈ is) (hr : s.rollback c = (.ok (), s')) :
    c ∉ rs ∧ Ledger curve is (rs ++ [c]) s' := by
  obtain ⟨-, hw, hseq, hadm, rfl⟩ := rollback_ok.mp hr
  have h1 : (1 : U64).toNat = 1 := rfl
  have h1' : (1 : U16).toNat = 1 := rfl
  have hroom := hl.room c hc
  have hadm' : s.admittedInWindow.toNat = c.admittedBefore.toNat + 1 := by
    rw [hadm, toNat_saturatingAdd_of_lt (by rw [h1']; omega), h1']
  -- rolled back already, `c` would have left `admitted_before` in the window
  have hfresh : c ∉ rs := by
    intro hmem
    have := hl.rolled_latest c hmem hw hseq
    rw [this] at hadm'
    omega
  have hnodup : (rs ++ [c]).Nodup := by
    refine List.nodup_append.mpr ⟨hl.rolled_nodup, List.nodup_singleton c, ?_⟩
    rintro a ha b hb rfl
    exact hfresh (List.mem_singleton.mp hb ▸ ha)
  have hsub : ∀ a ∈ rs ++ [c], a ∈ is := by
    intro a ha
    rcases List.mem_append.mp ha with ha | ha
    · exact hl.rolled_issued a ha
    · rw [List.mem_singleton.mp ha]; exact hc
  have hlen : rs.length + 1 ≤ is.length := by
    have := (List.subperm_of_subset hnodup hsub).length_le
    simpa using this
  have hacc := hl.accepted_eq
  refine ⟨hfresh, hl.curve_eq, hl.sequences, hl.latest, hl.windows, hl.room, hsub, hnodup, ?_, ?_, ?_, ?_⟩
  · intro a ha haw has
    -- `c` is the only issued certificate with the latest sequence number
    rcases List.mem_append.mp ha with har | hac
    · have hac := hl.sequence_inj (hl.rolled_issued a har) hc (has.trans hseq.symm)
      exact absurd (hac ▸ har) hfresh
    · rw [List.mem_singleton.mp hac]
  · show (saturatingSub s.accepted 1).toNat + (rs ++ [c]).length = is.length
    rw [toNat_saturatingSub, h1, List.length_append, List.length_singleton]
    omega
  · show countIn s.windowStart is = countIn s.windowStart (rs ++ [c]) + c.admittedBefore.toNat
    rw [countIn_append, countIn_singleton, if_pos hw, hl.inWindow]
    omega
  · intro w
    have := hl.envelope w
    rw [countIn_append]
    omega

end

/-! ## The ledger along a run -/

section

variable {curve : ServiceCurve} {nowTick secret : U64} {s₀ s : ServiceController N}
  {h : List (ControllerEvent N)}

/-- One honest call keeps the ledger. -/
theorem ledger_step (hw : 0 < s.curve.windowTicks.toNat) (hl : Ledger curve (issued h) (rolledBack h) s)
    {i : Call} (hi : Honest h i) :
    Ledger curve (issued (h ++ [Event.of step s i])) (rolledBack (h ++ [Event.of step s i])) (step s i).2 := by
  unfold issued rolledBack at hl ⊢
  rw [filterMap_snoc, filterMap_snoc]
  rcases step_cases hw i with ⟨his, hrb, -, hclock, -⟩ |
    ⟨t, d, b, s₁, q, -, -, hclock, -, -, hadm, -, -, hseq, his, hrb, -, hpost⟩ |
    ⟨c, rfl, hr, his, hrb, -⟩ | ⟨c, t, -, his, hrb, -, hclock, -⟩
  · rw [his, hrb]; simpa using hl.clock hclock
  · rw [his, hrb, hpost]; simpa using (hl.clock hclock).book hadm hseq
  · rw [his, hrb]; simpa using (hl.undo hi hr).2
  · rw [his, hrb]; simpa using hl.clock hclock

theorem ledger_run (h₀ : new N curve nowTick secret = .ok s₀) (hr : Run step Honest s₀ h s) :
    Ledger curve (issued h) (rolledBack h) s := by
  refine hr.invariant (fun h s => Ledger curve (issued h) (rolledBack h) s) (ledger_new h₀) ?_
  intro h s i hr hi hl
  exact ledger_step (windowTicks_pos_run h₀ hr) hl hi

/-- **The reservation ledger.** Along every honest run of a fresh controller: the sequence numbers issued are
    `1, 2, 3, …`; no certificate is rolled back twice; `accepted` is the number of admissions less the number
    of rollbacks; and in every window the admissions not rolled back stay within the arrival envelope, their
    number in the current window being `admitted_in_window`. -/
theorem reservation_ledger (h₀ : new N curve nowTick secret = .ok s₀) (hr : Run step Honest s₀ h s) :
    (issued h).map (·.reservationSequence.toNat) = List.range' 1 (issued h).length ∧
    (rolledBack h).Nodup ∧
    s.accepted.toNat + (rolledBack h).length = (issued h).length ∧
    (∀ w, countIn w (issued h) ≤
      countIn w (rolledBack h) + curve.maximumAdmissionsPerWindow.toNat) ∧
    countIn s.windowStart (issued h) = countIn s.windowStart (rolledBack h) + s.admittedInWindow.toNat := by
  have hl := ledger_run h₀ hr
  exact ⟨hl.sequences, hl.rolled_nodup, hl.accepted_eq, hl.envelope, hl.inWindow⟩

end

/-! ### A sample controller

The curve, tick and secret of the source's own tests. -/

def sampleCurve : ServiceCurve where
  minimumCompletionsPerWindow := 2
  maximumAdmissionsPerWindow := 4
  windowTicks := 100
  latencyTicks := 20
  maximumBacklog := 8

def sampleController : ServiceController 8 where
  curve := sampleCurve
  secret := 7
  windowStart := 1000
  lastTick := 1000
  admittedInWindow := 0
  reservationSequence := 0
  accepted := 0
  rejected := 0
  observed := 0
  virtualBacklogQ16 := 0
  curveRoot := serviceCurveRoot 7 sampleCurve
  calibrator := .eightEmpty 800 (mix 7 0x43414c4942524154)

theorem sampleController_new : new 8 sampleCurve 1000 7 = .ok sampleController := by decide +kernel

/-- The certificate of the first admission. -/
def sampleCertificate : AdmissionCertificate :=
  (sampleController.admitJob 1000 1500 0).1.toOption.getD .empty

theorem sample_admitted : Run step Honest sampleController
    ([] ++ [Event.of step sampleController (.admitJob 1000 1500 0)])
    (step sampleController (.admitJob 1000 1500 0)).2 :=
  Run.start.call (Call.admitJob 1000 1500 0) trivial

theorem sample_issued :
    sampleCertificate ∈ issued ([] ++ [Event.of step sampleController (.admitJob 1000 1500 0)]) := by
  decide +kernel

theorem reservation_ledger_sample :
    (issued (trace step sampleController [.admitJob 1000 1500 0, .rollback sampleCertificate])).length = 1 ∧
    (rolledBack (trace step sampleController [.admitJob 1000 1500 0, .rollback sampleCertificate])).Nodup := by
  have hr := sample_admitted.call (Call.rollback sampleCertificate) sample_issued
  exact ⟨by decide +kernel, (reservation_ledger sampleController_new hr).2.1⟩

end Slope.Service.ServiceController
