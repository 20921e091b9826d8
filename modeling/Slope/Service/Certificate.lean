import Slope.Service.Settlement

/-!
# `Service.Certificate` — when an admission certificate can be redeemed

`verify_certificate` demands a nonzero calibration root and a nonzero certificate root, but `admit` checks
neither before it hands a certificate out (`new` does check the curve root). Both roots are outputs of `mix`,
and `mix` is a permutation in the word it absorbs: for every tick and backlog exactly one deadline slack seals
the certificate with root zero. `zeroSlack` solves for it, and `Sealable` names the admissions that avoid it.
-/

namespace Slope.Service

open Word

/-- The deadline slack that takes the root of a certificate to zero: the last three absorptions undone. -/
def zeroSlack (secret : U64) (c : AdmissionCertificate) : U64 :=
  let beforeCalibration := Mixer.finalizer.symm 0 ^^^ c.calibrationRoot * mixMultiplier
  let beforeCurve := Mixer.finalizer.symm beforeCalibration ^^^ c.curveRoot * mixMultiplier
  (delayRoot secret c ^^^ Mixer.finalizer.symm beforeCurve) * mixMultiplierInv

/-- Exactly one slack gives the root zero, whatever the other fields are. -/
theorem admissionCertificateRoot_eq_zero (secret : U64) (c : AdmissionCertificate) :
    admissionCertificateRoot secret c = 0 ↔ c.deadlineSlackTicks = zeroSlack secret c := by
  unfold admissionCertificateRoot
  dsimp only
  rw [mix_eq, Mixer.xorMulMix_eq_iff_state, mix_eq, Mixer.xorMulMix_eq_iff_state, mix_eq,
    Mixer.xorMulMix_eq_iff_word _ _ mixMultiplier_mul_inv]
  rfl

/-- The root of a certificate does not read the root it is stored in. -/
theorem admissionCertificateRoot_with (secret : U64) (c : AdmissionCertificate) (root : U64) :
    admissionCertificateRoot secret { c with certificateRoot := root } = admissionCertificateRoot secret c :=
  rfl

/-- Neither the slack nor the root of the certificate itself is read. -/
theorem zeroSlack_with (secret : U64) (c : AdmissionCertificate) (slack root : U64) :
    zeroSlack secret { c with deadlineSlackTicks := slack, certificateRoot := root } = zeroSlack secret c :=
  rfl

namespace ServiceController

variable {N : Nat}

/-! ## The condition -/

/-- The deadline for which an admission at tick `t` with backlog `b` would be sealed with root zero. -/
def unsealableDeadline (s : ServiceController N) (t b : U64) : Option Nat :=
  match (s.advanced t).quote t b with
  | .ok q => some (q.requiredDeadline.toNat
      + (zeroSlack s.secret ((s.advanced t).draft t q.requiredDeadline b q)).toNat)
  | .error _ => none

/-- The calibrator's root is nonzero and the deadline is not the unsealable one. -/
def Sealable (s : ServiceController N) (t d b : U64) : Prop :=
  s.calibrator.root ≠ 0 ∧ s.unsealableDeadline t b ≠ some d.toNat

theorem unsealableDeadline_of_quote {s : ServiceController N} {t b : U64} {q : Quote}
    (hq : (s.advanced t).quote t b = .ok q) :
    s.unsealableDeadline t b = some (q.requiredDeadline.toNat
      + (zeroSlack s.secret ((s.advanced t).draft t q.requiredDeadline b q)).toNat) := by
  unfold unsealableDeadline
  rw [hq]

theorem slack_eq_iff {d required z : U64} (hd : required ≤ d) :
    some (required.toNat + z.toNat) = some d.toNat ↔ d - required = z := by
  have hsub : (d - required).toNat = d.toNat - required.toNat := BitVec.toNat_sub_of_le hd
  rw [BitVec.le_def] at hd
  rw [Option.some.injEq]
  constructor
  · intro h; apply BitVec.eq_of_toNat_eq; omega
  · intro h; rw [← h]; omega

/-- Where the quote stands, the deadline is unsealable when its slack is the one of root zero. -/
theorem unsealableDeadline_eq_some {s : ServiceController N} {t d b : U64} {q : Quote}
    (hq : (s.advanced t).quote t b = .ok q) (hd : q.requiredDeadline ≤ d) :
    s.unsealableDeadline t b = some d.toNat ↔
      d - q.requiredDeadline = zeroSlack s.secret ((s.advanced t).draft t d b q) := by
  rw [unsealableDeadline_of_quote hq, slack_eq_iff hd,
    ← zeroSlack_with s.secret ((s.advanced t).draft t q.requiredDeadline b q) (d - q.requiredDeadline) 0]
  simp only [draft]

/-! ## The property -/

/-- **A certificate is honoured** after the history `h` from `s₀` to `s`: it verifies in every state that
    any further calls lead to, there it can be rolled back while the window is the one it was granted in, no
    later sequence number has been issued and the window count is one above the one it was granted at, and a
    completion at a tick that the clock takes succeeds for every honest caller. A reservation that is the latest
    one still standing is refused once a later one has been granted, also if that was rolled back since. -/
structure Honoured (s₀ : ServiceController N) (h : List (ControllerEvent N)) (s : ServiceController N)
    (c : AdmissionCertificate) : Prop where
  verifies : ∀ h' s', Run step (fun _ _ => True) s h' s' → s'.verifyCertificate c = true
  rollsBack : ∀ h' s', Run step (fun _ _ => True) s h' s' → c.windowStart = s'.windowStart →
    c.reservationSequence = s'.reservationSequence → s'.admittedInWindow = saturatingAdd c.admittedBefore 1 →
    ∃ s'', s'.rollback c = (.ok (), s'')
  completes : ∀ h' s' t, Run step Honest s₀ (h ++ h') s' → Run step (fun _ _ => True) s h' s' →
    c.admittedTick ≤ t → s'.ClockAccepts t → ∃ g s'', s'.observeCompletion c t = (.ok g, s'')

section

variable {curve : ServiceCurve} {nowTick secret t d b : U64} {s₀ s s' : ServiceController N}
  {h : List (ControllerEvent N)} {c : AdmissionCertificate}

/-! ## Verification of a granted certificate -/

/-- A granted certificate verifies exactly when it is sealable: the other conjuncts of
    `verify_certificate` hold of everything `admit` returns. -/
theorem verifyCertificate_granted (h₀ : new N curve nowTick secret = .ok s₀)
    (hr : Run step (fun _ _ => True) s₀ h s) (hok : s.admitJob t d b = (.ok c, s')) :
    s'.verifyCertificate c = true ↔ Sealable s t d b := by
  obtain ⟨s₁, q, hadv, -, -, hq, hd, hseq, hc, hs'⟩ := admitJob_ok hok
  have hclock := advance_clockStep (windowTicks_pos_run h₀ hr) t
  have hcal := (advance_frame s t).1
  rw [hadv] at hclock hcal
  obtain rfl : s₁ = s.advanced t := (advance_ok.mp hadv).2
  -- the parts of `valid` that always hold
  have hseq0 : c.reservationSequence ≠ 0 := by
    rw [hc]
    show (s.advanced t).reservationSequence + 1 ≠ 0
    have h1 : (1 : U64).toNat = 1 := rfl
    rw [ne_zero_iff, BitVec.toNat_add, h1, Nat.mod_eq_of_lt hseq]
    exact Nat.succ_pos _
  have hdelay : c.delayBoundTicks ≠ 0 := by
    obtain ⟨hdet, -, -, hsum, -⟩ := quote_ok hq
    have hpos := ServiceCurve.deterministicDelay_pos hdet
    rw [hc, ne_zero_iff]
    show 0 < q.delay.toNat
    omega
  have hcurve : c.curveRoot ≠ 0 := by
    obtain ⟨hv, -, hne, g, cal, -, -, hs₀⟩ := new_ok h₀
    have hw₀ : 0 < s₀.curve.windowTicks.toNat := by
      rw [hs₀]; exact (ServiceCurve.valid_iff.mp hv).2.2.1
    have hid := identity_run hw₀ hr
    rw [hc]
    show (s.advanced t).curveRoot ≠ 0
    rw [hclock.curveRoot, hid.2.2, hs₀]
    exact hne
  -- the certificate's root is the root of the draft, and zero for one slack only
  have hroot : c.certificateRoot = admissionCertificateRoot s'.secret c := by
    rw [hc, hs']
    exact (admissionCertificateRoot_with _ ((s.advanced t).draft t d b q) _).symm
  have hslack : c.deadlineSlackTicks = d - q.requiredDeadline := by rw [hc]; rfl
  have hzero : c.certificateRoot = 0 ↔ s.unsealableDeadline t b = some d.toNat := by
    have hzs : zeroSlack s'.secret c = zeroSlack s.secret ((s.advanced t).draft t d b q) := by
      have hsec : s'.secret = s.secret := by rw [hs']; exact hclock.secret
      rw [hc, hsec]
      exact zeroSlack_with _ ((s.advanced t).draft t d b q) _ _
    rw [hroot, admissionCertificateRoot_eq_zero, hzs, unsealableDeadline_eq_some hq hd, hslack]
  have hcalRoot : c.calibrationRoot = s.calibrator.root := by rw [hc, ← hcal]; rfl
  have hcurveRoot : c.curveRoot = s'.curveRoot := by rw [hc, hs']; rfl
  rw [Sealable, ← hcalRoot, Ne, Ne, ← hzero]
  simp only [verifyCertificate, AdmissionCertificate.valid, Bool.and_eq_true, bne_iff_ne, beq_iff_eq]
  constructor
  · rintro ⟨⟨⟨⟨-, h1⟩, h2⟩, -⟩, -⟩
    exact ⟨h1, h2⟩
  · rintro ⟨h1, h2⟩
    exact ⟨⟨⟨⟨⟨⟨hseq0, hdelay⟩, hcurve⟩, h1⟩, h2⟩, hcurveRoot⟩, hroot⟩

/-- Verification does not depend on anything a call changes. -/
theorem verifyCertificate_run (hw : 0 < s.curve.windowTicks.toNat)
    (hr : Run step (fun _ _ => True) s h s') : s'.verifyCertificate c = s.verifyCertificate c := by
  obtain ⟨-, hsec, hroot⟩ := identity_run hw hr
  simp only [verifyCertificate, hsec, hroot]

/-- **Certificates, exactly.** Whatever calls led from `new` to `s`, a certificate granted there is honoured
    from then on if and only if the admission was sealable. (An array of words has fewer than `2 ^ 60`
    elements.) -/
theorem granted_honoured_iff (hN : N < 2 ^ 60) (h₀ : new N curve nowTick secret = .ok s₀)
    (hr : Run step (fun _ _ => True) s₀ h s) (hok : s.admitJob t d b = (.ok c, s')) :
    Honoured s₀ (h ++ [Event.of step s (.admitJob t d b)]) s' c ↔ Sealable s t d b := by
  have hpost : (step s (.admitJob t d b)).2 = s' := by simp [step, hok]
  have hr' := hr.call (Call.admitJob t d b) trivial
  rw [hpost] at hr'
  have hw := windowTicks_pos_run h₀ hr'
  constructor
  · intro hh
    exact (verifyCertificate_granted h₀ hr hok).mp (hh.verifies [] s' .start)
  · intro hs
    have hv : ∀ h' s'', Run step (fun _ _ => True) s' h' s'' → s''.verifyCertificate c = true := by
      intro h' s'' hrun
      rw [verifyCertificate_run hw hrun]
      exact (verifyCertificate_granted h₀ hr hok).mpr hs
    refine ⟨hv, ?_, ?_⟩
    · intro h' s'' hrun hws hseq hadm
      exact ⟨_, rollback_ok.mpr ⟨hv h' s'' hrun, hws, hseq, hadm, rfl⟩⟩
    · intro h' s'' t' hhonest hrun hct hclock
      -- the certificate is one the honest history issued
      have hissued : c ∈ issued ((h ++ [Event.of step s (.admitJob t d b)]) ++ h') := by
        simp [issued, issuedBy, Event.of, step, hok, Except.map]
      have hcal := calibrated_run h₀ (hhonest.mono observesIssued_of_honest)
      have hset := completed_of_accepts hcal hN hissued ⟨hv h' s'' hrun, hct, hclock⟩
      rcases hobs : s''.observeCompletion c t' with ⟨f | g, s₃⟩
      · simp [settledBy, Event.of, step, hobs, Except.map] at hset
      · exact ⟨g, s₃, rfl⟩

end

/-! ### The sample controller seals one certificate and cannot seal another -/

theorem granted_honoured_sample :
    Honoured sampleController [Event.of step sampleController (.admitJob 1000 1500 0)]
      (sampleController.admitJob 1000 1500 0).2 sampleCertificate := by
  have hok : sampleController.admitJob 1000 1500 0
      = (.ok sampleCertificate, (sampleController.admitJob 1000 1500 0).2) := by decide +kernel
  exact (granted_honoured_iff (by decide) sampleController_new .start hok).mpr
    ⟨by decide +kernel, by decide +kernel⟩

/-- **A reservation that cannot be redeemed.** With the curve, tick and secret of the source's own tests, a
    job with this deadline is admitted and its certificate has root zero: it never verifies, so neither
    rollback nor completion accepts it. -/
theorem granted_unverifiable :
    ∃ c s', sampleController.admitJob 1000 9367018581107504766 0 = (.ok c, s') ∧
      c.certificateRoot = 0 ∧ s'.verifyCertificate c = false ∧
      (s'.rollback c).1 = .error .staleReservation ∧
      (s'.observeCompletion c 1400).1 = .error .corruptObservation :=
  ⟨((sampleController.admitJob 1000 9367018581107504766 0).1.toOption.getD .empty),
    (sampleController.admitJob 1000 9367018581107504766 0).2,
    by decide +kernel, by decide +kernel, by decide +kernel, by decide +kernel, by decide +kernel⟩

end ServiceController

end Slope.Service
