import Slope.Service.Deadline
import Slope.Service.Exits
import Slope.Service.Undo

/-!
# `Service.Loop` — the controller in a loop with a prompt server

The delay bound of an admission adds two learned terms to the deterministic one: the conformal guard of the residuals
and a penalty for the virtual backlog. Both are fed back from completions, so a single call says nothing about how
large they become. Here the loop is closed: the caller reports its true backlog, settles each certificate at most
once, and reports a completion within the deterministic delay, as every server that offers the curve lets it
(`Service.Deadline`). Then neither term grows. Every residual recorded is zero, so the guard stays at its slack of
one tick, and the virtual backlog never exceeds the jobs in flight. So every quoted delay is bounded by the curve and
the backlog alone (`promptBound`), and an admission with a deadline that far away is granted.
-/

namespace Slope.Service

open Word

namespace ServiceCurve

/-- The windows in which the curve serves `n` jobs. -/
def windowsFor (c : ServiceCurve) (n : Nat) : Nat :=
  (n + (c.minimumCompletionsPerWindow.toNat - 1)) / c.minimumCompletionsPerWindow.toNat

/-- The delay of a job behind `b` others in a loop with a prompt server: its own deterministic delay, as many windows
    again as serve the `b` others, and a tick. -/
def promptBound (c : ServiceCurve) (b : Nat) : Nat :=
  c.latencyTicks.toNat + (c.windowsFor (b + 1) + c.windowsFor b) * c.windowTicks.toNat + 1

end ServiceCurve

/-! ## The guard without late completions -/

namespace ResidualCalibrator

variable {N : Nat} {c : ResidualCalibrator N}

/-- No residual was ever positive. -/
def Quiet (c : ResidualCalibrator N) : Prop := ∀ r ∈ c.residuals.toList, r = 0

theorem quiet_kernelDefault {maximumGuard secret : U64} (h : kernelDefault N 1 maximumGuard secret = .ok c) :
    c.Quiet := by
  unfold kernelDefault new at h
  split at h
  · cases h
  split at h
  · cases h
  obtain rfl := Except.ok.inj h
  intro r hr
  have hr : r ∈ List.replicate N (0 : U64) := by simpa [sealRoot] using hr
  exact List.eq_of_mem_replicate hr

theorem Quiet.record (hq : c.Quiet) : (c.record 0).Quiet := by
  intro r hr
  have hset : (c.record 0).residuals.toList = c.residuals.toList.set c.cursor (umin 0 c.maximumGuard) :=
    Vector.toList_set c.cursor.isLt
  rw [hset] at hr
  rcases List.mem_or_eq_of_mem_set hr with hold | rfl
  · exact hq r hold
  · apply BitVec.eq_of_toNat_eq
    rw [toNat_umin]
    exact Nat.zero_min _

/-- The guard of a quiet calibrator is the slack. -/
theorem Quiet.guard (hq : c.Quiet) (ht : c.Tame) (hN : N < 2 ^ 60) (hpos : 0 < c.maximumGuard.toNat) :
    c.guard = .ok 1 := by
  have h1 : (1 : U64).toNat = 1 := rfl
  have hclamp : umin 1 c.maximumGuard = 1 := by
    apply BitVec.eq_of_toNat_eq
    rw [toNat_umin, h1]
    omega
  by_cases hlen : (c.length : Nat) = 0
  · rw [guard_of_length_eq_zero hlen, ht.slack, hclamp]
  · have hle : (c.length : Nat) ≤ N := Nat.le_of_lt_succ c.length.isLt
    have h15 : c.coverageNumerator.toNat = 15 := by rw [ht.numerator]; rfl
    have h16 : c.coverageDenominator.toNat = 16 := by rw [ht.denominator]; rfl
    have hfit : c.RankFits := by
      rw [RankFits, h15, h16]
      omega
    -- whatever the rank, the residual read is zero
    have hread : (c.retained.insertionSort (· ≤ ·)).getD (c.rank - 1) 0 = 0 := by
      rw [List.getD_eq_getElem?_getD]
      cases hi : (c.retained.insertionSort (· ≤ ·))[c.rank - 1]? with
      | none => rfl
      | some r =>
          have hmem : r ∈ c.retained := (List.mem_insertionSort (· ≤ ·)).mp (List.mem_of_getElem? hi)
          exact hq r (List.mem_of_mem_take hmem)
    have hvalue : checkedAdd 0 c.additiveSlack = some 1 := by
      rw [ht.slack]
      exact if_pos (by decide)
    rw [guard_eq hlen (by omega) (by omega) hfit, hread, hvalue]
    show Except.ok (umin 1 c.maximumGuard) = _
    rw [hclamp]

end ResidualCalibrator

namespace ServiceController

variable {N : Nat} {s s' s₁ : ServiceController N} {t d b : U64} {c : AdmissionCertificate}
  {h : List (ControllerEvent N)}

/-! ## The penalty -/

/-- A virtual backlog of at most `n` jobs costs the windows that serve `n` jobs. -/
theorem driftPenaltyTicks_le (hv : s.curve.valid = true) {n : Nat} (hn : s.virtualBacklogQ16.toNat ≤ n * 2 ^ 16) :
    s.driftPenaltyTicks.toNat ≤ s.curve.windowsFor n * s.curve.windowTicks.toNat := by
  obtain ⟨hm, -⟩ := ServiceCurve.valid_iff.mp hv
  have hz := toNat_zext (by decide : 16 ≤ 64) s.curve.minimumCompletionsPerWindow
  have h1 : (1 : U64).toNat = 1 := rfl
  have hjobs : (s.virtualBacklogQ16 >>> 16).toNat ≤ n := by
    rw [BitVec.toNat_ushiftRight, Nat.shiftRight_eq_div_pow]
    omega
  have hservice : (s.curve.minimumCompletionsPerWindow.setWidth 64 - 1 : U64).toNat
      = s.curve.minimumCompletionsPerWindow.toNat - 1 := by
    rw [BitVec.toNat_sub_of_le (by rw [BitVec.le_def]; omega), hz, h1]
  unfold driftPenaltyTicks
  dsimp only
  split
  · exact Nat.zero_le _
  · rw [toNat_saturatingMul, BitVec.toNat_udiv, toNat_saturatingAdd, hservice, hz]
    refine Nat.le_trans (Nat.min_le_left _ _) (Nat.mul_le_mul_right _ (Nat.div_le_div_right ?_))
    omega

/-- `advance` only drains the virtual backlog. -/
theorem backlog_advance_le (s : ServiceController N) (t : U64) :
    (s.advance t).2.virtualBacklogQ16.toNat ≤ s.virtualBacklogQ16.toNat := by
  rcases advance_cases s t with ⟨-, h⟩ | ⟨hlast, hws, hfit, h⟩ | ⟨-, -, -, h⟩
  · rw [h]
    exact Nat.le_refl _
  · rw [h, toNat_backlog_advanced ⟨hlast, hws, hfit⟩]
    exact Nat.sub_le _ _
  · rw [h]
    exact Nat.le_refl _

/-! ## The environment -/

/-- How many certificates are issued and not settled. -/
def inFlight (h : List (ControllerEvent N)) : Nat := (issued h).length - (settled h).length

/-- A caller that settles each certificate at most once, reports the jobs in flight as its backlog, and reports a
    completion within the deterministic delay. -/
def Prompt (h : List (ControllerEvent N)) : Call → Prop
  | .admitJob _ _ b => b.toNat = inFlight h
  | .rollback c => c ∈ issued h ∧ c ∉ settled h
  | .observeCompletion c t =>
      c ∈ issued h ∧ c ∉ settled h ∧ t.toNat ≤ c.admittedTick.toNat + c.deterministicDelayTicks.toNat

theorem honest_of_prompt (h : List (ControllerEvent N)) (i : Call) (hi : Prompt h i) : Honest h i := by
  cases i with
  | admitJob t d b => trivial
  | rollback c => exact hi.1
  | observeCompletion c t => exact hi.1

theorem observesIssued_of_prompt (h : List (ControllerEvent N)) (i : Call) (hi : Prompt h i) : ObservesIssued h i :=
  observesIssued_of_honest h i (honest_of_prompt h i hi)

/-! ## The invariant -/

section

variable {curve : ServiceCurve} {is ss : List AdmissionCertificate}

/-- **The loop invariant.** `is` are the certificates issued and `ss` those settled: none is settled twice, the virtual
    backlog is within the jobs in flight, the calibrator is quiet, and every certificate was quoted so. -/
structure Settling (curve : ServiceCurve) (is ss : List AdmissionCertificate) (s : ServiceController N) : Prop where
  curve_eq : s.curve = curve
  nodup : ss.Nodup
  subset : ∀ c ∈ ss, c ∈ is
  backlog : s.virtualBacklogQ16.toNat ≤ (is.length - ss.length) * 2 ^ 16
  quiet : s.calibrator.Quiet
  guard_eq : ∀ c ∈ is, c.uncertaintyGuardTicks = 1
  deterministic_le : ∀ c ∈ is, c.deterministicDelayTicks.toNat ≤ c.delayBoundTicks.toNat
  bound_le : ∀ c ∈ is, c.delayBoundTicks.toNat ≤ curve.promptBound c.backlogBefore.toNat

theorem Settling.length_le (hs : Settling curve is ss s) : ss.length ≤ is.length :=
  (List.subperm_of_subset hs.nodup hs.subset).length_le

/-- The clock may drain the virtual backlog; nothing is issued or settled. -/
theorem Settling.clock (hs : Settling curve is ss s) (hcurve : s'.curve = s.curve)
    (hcalibrator : s'.calibrator = s.calibrator)
    (hbacklog : s'.virtualBacklogQ16.toNat ≤ s.virtualBacklogQ16.toNat) : Settling curve is ss s' := by
  refine ⟨hcurve.trans hs.curve_eq, hs.nodup, hs.subset, Nat.le_trans hbacklog hs.backlog, ?_, hs.guard_eq,
    hs.deterministic_le, hs.bound_le⟩
  rw [hcalibrator]
  exact hs.quiet

theorem Settling.advance (hs : Settling curve is ss s) (hw : 0 < s.curve.windowTicks.toNat) (t : U64) :
    Settling curve is ss (s.advance t).2 :=
  hs.clock (advance_clockStep hw t).curve (advance_frame s t).1 (backlog_advance_le s t)

/-- A quote in the loop: the guard is its slack and the penalty is bounded by the jobs in flight. -/
theorem Settling.quoted (hs : Settling curve is ss s) (htame : s.calibrator.Tame) (hN : N < 2 ^ 60)
    (hpos : 0 < s.calibrator.maximumGuard.toNat) {q : Quote} (hq : s.quote t b = .ok q)
    (hb : b.toNat = is.length - ss.length) :
    q.uncertainty = 1 ∧ q.delay.toNat ≤ curve.promptBound b.toNat := by
  obtain ⟨hdet, hunc, hdrift, hdelay, -⟩ := quote_ok hq
  obtain ⟨hv, -, hdet⟩ := ServiceCurve.deterministicDelay_eq_some.mp hdet
  have hguard : q.uncertainty = 1 := Except.ok.inj (hunc.symm.trans (hs.quiet.guard htame hN hpos))
  have hpenalty := driftPenaltyTicks_le hv (hb ▸ hs.backlog)
  have h1 : (1 : U64).toNat = 1 := rfl
  refine ⟨hguard, ?_⟩
  rw [hs.curve_eq] at hdet hpenalty
  rw [hguard, hdrift, h1] at hdelay
  unfold ServiceCurve.promptBound
  rw [Nat.add_mul]
  unfold ServiceCurve.windowsFor at hpenalty ⊢
  omega

/-- Booking issues one certificate for one job of virtual backlog. -/
theorem Settling.book (hs : Settling curve is ss s₁) (htame : s₁.calibrator.Tame) (hN : N < 2 ^ 60)
    (hpos : 0 < s₁.calibrator.maximumGuard.toNat) {q : Quote} (hq : s₁.quote t b = .ok q)
    (hb : b.toNat = is.length - ss.length) (hfull : b.toNat < s₁.curve.maximumBacklog.toNat) (sequence : U64)
    (admitted : U16) : Settling curve (is ++ [s₁.certificateFor t d b q]) ss (s₁.booked sequence admitted) := by
  obtain ⟨hguard, hbound⟩ := hs.quoted htame hN hpos hq hb
  have hle := hs.length_le
  have hone : q16One.toNat = 2 ^ 16 := rfl
  have hmax := s₁.curve.maximumBacklog.isLt
  have hnarrow : (b.setWidth 16).toNat = b.toNat := by
    rw [BitVec.toNat_setWidth, Nat.mod_eq_of_lt (by omega)]
  have hparts : q.deterministic.toNat ≤ q.delay.toNat := by
    have hdelay := (quote_ok hq).2.2.2.1
    omega
  have hall : ∀ P : AdmissionCertificate → Prop, (∀ c ∈ is, P c) → P (s₁.certificateFor t d b q) →
      ∀ c ∈ is ++ [s₁.certificateFor t d b q], P c := by
    intro P hold hnew c hc
    rcases List.mem_append.mp hc with hc | hc
    · exact hold c hc
    · rw [List.mem_singleton.mp hc]
      exact hnew
  refine ⟨hs.curve_eq, hs.nodup, fun c hc => List.mem_append_left _ (hs.subset c hc), ?_, hs.quiet,
    hall (·.uncertaintyGuardTicks = 1) hs.guard_eq hguard,
    hall (fun c => c.deterministicDelayTicks.toNat ≤ c.delayBoundTicks.toNat) hs.deterministic_le hparts,
    hall (fun c => c.delayBoundTicks.toNat ≤ curve.promptBound c.backlogBefore.toNat) hs.bound_le ?_⟩
  · unfold booked
    dsimp only
    rw [toNat_saturatingAdd, hone, List.length_append, List.length_singleton, Nat.sub_add_comm hle, Nat.add_mul,
      Nat.one_mul]
    exact Nat.le_trans (Nat.min_le_left _ _) (Nat.add_le_add_right hs.backlog _)
  · show q.delay.toNat ≤ curve.promptBound (b.setWidth 16).toNat
    rw [hnarrow]
    exact hbound

/-- Settling a certificate in flight takes a job off the virtual backlog. -/
theorem Settling.settle (hs : Settling curve is ss s) (hc : c ∈ is) (hfresh : c ∉ ss) (hcurve : s'.curve = s.curve)
    (hbacklog : s'.virtualBacklogQ16.toNat ≤ s.virtualBacklogQ16.toNat - 2 ^ 16) (hquiet : s'.calibrator.Quiet) :
    Settling curve is (ss ++ [c]) s' := by
  have hprevious := hs.backlog
  refine ⟨hcurve.trans hs.curve_eq, ?_, ?_, ?_, hquiet, hs.guard_eq, hs.deterministic_le, hs.bound_le⟩
  · refine List.nodup_append.mpr ⟨hs.nodup, List.nodup_singleton c, ?_⟩
    rintro a ha b hb rfl
    exact hfresh (List.mem_singleton.mp hb ▸ ha)
  · intro a ha
    rcases List.mem_append.mp ha with ha | ha
    · exact hs.subset a ha
    · rw [List.mem_singleton.mp ha]
      exact hc
  · rw [List.length_append, List.length_singleton]
    omega

end

/-! ## Along a run -/

section

variable {curve : ServiceCurve} {nowTick secret : U64} {s₀ : ServiceController N} {i : Call}

/-- The residual of a prompt completion is zero. -/
theorem residual_eq_zero {predicted : U64} (hfrom : c.admittedTick ≤ t)
    (hto : t.toNat ≤ c.admittedTick.toNat + c.deterministicDelayTicks.toNat)
    (hp : checkedAdd c.deterministicDelayTicks c.driftPenaltyTicks = some predicted) :
    saturatingSub (t - c.admittedTick) predicted = 0 := by
  apply BitVec.eq_of_toNat_eq
  rw [checkedAdd_eq_some] at hp
  rw [toNat_saturatingSub, BitVec.toNat_sub_of_le hfrom]
  show t.toNat - c.admittedTick.toNat - predicted.toNat = 0
  omega

/-- A prompt completion only drains: it is not past the delay bound. -/
theorem drained_le (hfrom : c.admittedTick ≤ t)
    (hto : t.toNat ≤ c.admittedTick.toNat + c.deterministicDelayTicks.toNat)
    (hbound : c.deterministicDelayTicks.toNat ≤ c.delayBoundTicks.toNat) :
    (s.drained c (t - c.admittedTick)).toNat = s.virtualBacklogQ16.toNat - 2 ^ 16 := by
  have hone : q16One.toNat = 2 ^ 16 := rfl
  have hintime : ¬ c.delayBoundTicks < t - c.admittedTick := by
    rw [BitVec.lt_def, BitVec.toNat_sub_of_le hfrom]
    omega
  rw [drained, if_neg hintime, toNat_saturatingSub, hone]

/-- A call that neither issues nor settles leaves both lists as they are. -/
theorem Settling.silent (hs : Settling curve (issued h) (settled h) s') (hissued : issuedBy (Event.of step s i) = none)
    (hsettled : settledBy (Event.of step s i) = none) :
    Settling curve (issued (h ++ [Event.of step s i])) (settled (h ++ [Event.of step s i])) s' := by
  unfold issued settled at hs ⊢
  rw [filterMap_snoc, filterMap_snoc, hissued, hsettled]
  simpa using hs

/-- One prompt call keeps the invariant. -/
theorem settling_step (hw : 0 < s.curve.windowTicks.toNat) (hN : N < 2 ^ 60) (hcal : Calibrated (issued h) s)
    (hpos : 0 < s.calibrator.maximumGuard.toNat) (hs : Settling curve (issued h) (settled h) s) (hi : Prompt h i) :
    Settling curve (issued (h ++ [Event.of step s i])) (settled (h ++ [Event.of step s i])) (step s i).2 := by
  cases i with
  | admitJob t d b =>
      have hadvanced := hs.advance hw t
      have hframe := (advance_frame s t).1
      rcases ha : s.admitJob t d b with ⟨f | c, s'⟩
      · have hpost : (step s (.admitJob t d b)).2 = s' := by rw [step, ha]
        have hissued : issuedBy (Event.of step s (.admitJob t d b)) = none := by
          simp [issuedBy, Event.of, step, ha, Except.map]
        rw [hpost]
        rcases admitJob_error ha with hadv | ⟨s₁, hadv, rfl | rfl⟩
        · rw [hadv] at hadvanced
          exact hadvanced.silent hissued rfl
        · rw [hadv] at hadvanced
          exact hadvanced.silent hissued rfl
        · rw [hadv] at hadvanced
          have hrejected : Settling curve (issued h) (settled h) s₁.reject := hadvanced.clock rfl rfl (Nat.le_refl _)
          exact hrejected.silent hissued rfl
      · obtain ⟨s₁, q, hadv, hroom, -, hq, -, -, rfl, rfl⟩ := admitJob_ok ha
        rw [hadv] at hadvanced hframe
        have hissued : issuedBy (Event.of step s (.admitJob t d b)) = some (s₁.certificateFor t d b q) := by
          simp [issuedBy, Event.of, step, ha, Except.map]
        have hsettled : settledBy (Event.of step s (.admitJob t d b)) = none := rfl
        have hpost : (step s (.admitJob t d b)).2
            = s₁.booked (s₁.reservationSequence + 1) (s₁.admittedInWindow + 1) := by
          rw [step, ha]
        have hclock : Settling curve (issued h) (settled h) s₁ := hadvanced
        have hsame : s₁.calibrator = s.calibrator := hframe
        have hbooked := hclock.book (d := d) (hsame ▸ hcal.tame) hN (hsame ▸ hpos) hq hi hroom
          (s₁.reservationSequence + 1) (s₁.admittedInWindow + 1)
        rw [hpost]
        unfold issued settled at hbooked ⊢
        rw [filterMap_snoc, filterMap_snoc, hissued, hsettled]
        simpa using hbooked
  | rollback c =>
      have hissued : issuedBy (Event.of step s (.rollback c)) = none := by
        cases hres : (s.rollback c).1 <;> simp [issuedBy, Event.of, step, hres, Except.map]
      rcases hr : s.rollback c with ⟨f | ⟨⟨⟩⟩, s'⟩
      · have hpost : (step s (.rollback c)).2 = s := by rw [step, hr, rollback_error hr]
        rw [hpost]
        exact hs.silent hissued (by simp [settledBy, Event.of, step, hr, Except.map])
      · obtain ⟨-, -, -, -, hstate⟩ := rollback_ok.mp hr
        have hsettled : settledBy (Event.of step s (.rollback c)) = some c := by
          simp [settledBy, Event.of, step, hr, Except.map]
        have hpost : (step s (.rollback c)).2 = s' := by rw [step, hr]
        have hone : q16One.toNat = 2 ^ 16 := rfl
        have hbacklog : s'.virtualBacklogQ16.toNat ≤ s.virtualBacklogQ16.toNat - 2 ^ 16 := by
          rw [hstate, toNat_saturatingSub, hone]
        have hdone := hs.settle hi.1 hi.2 (by rw [hstate]) hbacklog (by rw [hstate]; exact hs.quiet)
        rw [hpost]
        unfold issued settled at hdone ⊢
        rw [filterMap_snoc, filterMap_snoc, hissued, hsettled]
        simpa using hdone
  | observeCompletion c t =>
      have hadvanced := hs.advance hw t
      have hframe := (advance_frame s t).1
      have hissued : issuedBy (Event.of step s (.observeCompletion c t)) = none := by
        cases hres : (s.observeCompletion c t).1 <;> simp [issuedBy, Event.of, step, hres, Except.map]
      obtain ⟨hc, hfresh, hto⟩ := hi
      rcases observe_cases s c t with ⟨-, ho⟩ | ⟨-, -, f, s', hadv, ho⟩ | ⟨-, -, s₁, hadv, -, ho⟩ |
        ⟨hv, hfrom, s₁, predicted, hadv, hp, hguard⟩
      · have hpost : (step s (.observeCompletion c t)).2 = s := by rw [step, ho]
        rw [hpost]
        exact hs.silent hissued (by simp [settledBy, Event.of, step, ho, Except.map])
      · have hpost : (step s (.observeCompletion c t)).2 = s' := by rw [step, ho]
        rw [hadv] at hadvanced
        rw [hpost]
        exact hadvanced.silent hissued (by simp [settledBy, Event.of, step, ho, Except.map])
      · have hpost : (step s (.observeCompletion c t)).2 = s₁ := by rw [step, ho]
        rw [hadv] at hadvanced
        rw [hpost]
        exact hadvanced.silent hissued (by simp [settledBy, Event.of, step, ho, Except.map])
      · rw [hadv] at hadvanced hframe
        have hzero := residual_eq_zero hfrom hto hp
        obtain ⟨g, hok⟩ := hcal.pushes hN hc hadv hp
        rcases hguard with ⟨f, hfail, -⟩ | ⟨g', -, ho⟩
        · -- the guard of a recorded residual does not fail
          rw [ResidualCalibrator.push, hfail] at hok
          cases hok
        · have hpost : (step s (.observeCompletion c t)).2 = { s₁ with
              calibrator := s₁.calibrator.record 0, virtualBacklogQ16 := s₁.drained c (t - c.admittedTick)
              observed := saturatingAdd s₁.observed 1 } := by rw [step, ho, hzero]
          have hsettled : settledBy (Event.of step s (.observeCompletion c t)) = some c := by
            simp [settledBy, Event.of, step, ho, Except.map]
          have hdrained : (s₁.drained c (t - c.admittedTick)).toNat ≤ s₁.virtualBacklogQ16.toNat - 2 ^ 16 :=
            (drained_le hfrom hto (hs.deterministic_le c hc)).le
          have hdone : Settling curve (issued h) (settled h ++ [c]) (step s (.observeCompletion c t)).2 := by
            rw [hpost]
            exact hadvanced.settle hc hfresh rfl hdrained hadvanced.quiet.record
          unfold issued settled at hdone ⊢
          rw [filterMap_snoc, filterMap_snoc, hissued, hsettled]
          simpa using hdone

theorem settling_run (hN : N < 2 ^ 60) (h₀ : new N curve nowTick secret = .ok s₀) (hr : Run step Prompt s₀ h s) :
    Settling curve (issued h) (settled h) s := by
  refine hr.invariant (fun h s => Settling curve (issued h) (settled h) s) ?_ ?_
  · obtain ⟨-, -, -, g, cal, -, hcal, rfl⟩ := new_ok h₀
    exact ⟨rfl, List.nodup_nil, by simp [settled], Nat.zero_le _, ResidualCalibrator.quiet_kernelDefault hcal,
      by simp [issued], by simp [issued], by simp [issued]⟩
  · intro h s i hr hi hs
    have hcal := calibrated_run h₀ (hr.mono observesIssued_of_prompt)
    exact settling_step (windowTicks_pos_run h₀ hr) hN hcal (maximumGuard_run h₀ hr).2 hs hi

/-- A prompt completion that is recorded returns the slack. -/
theorem observed_guard (hN : N < 2 ^ 60) (h₀ : new N curve nowTick secret = .ok s₀) (hr : Run step Prompt s₀ h s)
    (hi : Prompt h (.observeCompletion c t)) {g : U64} (hok : (s.observeCompletion c t).1 = .ok g) : g = 1 := by
  have hcal := calibrated_run h₀ (hr.mono observesIssued_of_prompt)
  have hquiet := (settling_run hN h₀ hr).quiet
  have hpos := (maximumGuard_run h₀ hr).2
  have hframe := (advance_frame s t).1
  obtain ⟨hc, -, hto⟩ := hi
  rcases observe_cases s c t with ⟨-, ho⟩ | ⟨-, -, f, s', -, ho⟩ | ⟨-, -, s₁, -, -, ho⟩ |
    ⟨-, hfrom, s₁, predicted, hadv, hp, ⟨f, -, ho⟩ | ⟨g', hguard, ho⟩⟩
  · rw [ho] at hok
    cases hok
  · rw [ho] at hok
    cases hok
  · rw [ho] at hok
    cases hok
  · rw [ho] at hok
    cases hok
  · rw [ho] at hok
    obtain rfl : g' = g := Except.ok.inj hok
    rw [hadv] at hframe
    have hsame : s₁.calibrator = s.calibrator := hframe
    have hzero := residual_eq_zero hfrom hto hp
    have htame := ResidualCalibrator.tame_record hcal.tame (residual_lt (t := t) (hcal.predicted_pos c hc) hp)
    rw [hzero] at hguard htame
    rw [hsame] at hguard
    have hslack := hquiet.record.guard htame hN hpos
    exact Except.ok.inj (hguard.symm.trans hslack)

/-- In the loop an admission that has room, in the backlog, in the window and before its deadline, is granted. -/
theorem prompt_granted (hN : N < 2 ^ 60) (h₀ : new N curve nowTick secret = .ok s₀) (hr : Run step Prompt s₀ h s)
    (hb : b.toNat = inFlight h) (hclock : s.ClockAccepts t) (hfull : inFlight h < curve.maximumBacklog.toNat)
    (hwindow : (s.advanced t).admittedInWindow.toNat < curve.maximumAdmissionsPerWindow.toNat)
    (hnext : (issued h).length + 1 < 2 ^ 64) (hd : t.toNat + curve.promptBound b.toNat ≤ d.toNat) :
    ∃ c s', s.admitJob t d b = (.ok c, s') := by
  have hw := windowTicks_pos_run h₀ hr
  have hs := settling_run hN h₀ hr
  have hl := ledger_run h₀ (hr.mono honest_of_prompt)
  have hcal := calibrated_run h₀ (hr.mono observesIssued_of_prompt)
  have hv : curve.valid = true := (new_ok h₀).1
  have hadv : s.advance t = (.ok (), s.advanced t) := advance_ok.mpr ⟨hclock, rfl⟩
  have hstep := clockStep_advanced hw hclock.2.1
  have hcurve : (s.advanced t).curve = curve := hstep.curve.trans hs.curve_eq
  have hframe : (s.advanced t).calibrator = s.calibrator := by
    have hsame := (advance_frame s t).1
    rw [hadv] at hsame
    exact hsame
  have hsettling : Settling curve (issued h) (settled h) (s.advanced t) := by
    have hadvanced := hs.advance hw t
    rw [hadv] at hadvanced
    exact hadvanced
  have hbacklog : (s.advanced t).virtualBacklogQ16.toNat ≤ b.toNat * 2 ^ 16 := by
    rw [hb]
    exact hsettling.backlog
  -- the three terms of the quote, each within the bound
  have hpenalty := driftPenaltyTicks_le (hcurve.symm ▸ hv) hbacklog
  have hguard := hsettling.quiet.guard (hframe ▸ hcal.tame) hN (hframe ▸ (maximumGuard_run h₀ hr).2)
  have hlt := d.isLt
  have h1 : (1 : U64).toNat = 1 := rfl
  rw [hcurve] at hpenalty
  unfold ServiceCurve.promptBound at hd
  rw [Nat.add_mul] at hd
  obtain ⟨det, hdet, hdetNat⟩ : ∃ det, (s.advanced t).curve.deterministicDelay b = some det ∧
      det.toNat = curve.latencyTicks.toNat + curve.windowsFor (b.toNat + 1) * curve.windowTicks.toNat := by
    have hfits : (BitVec.ofNat 64 (curve.latencyTicks.toNat
        + curve.windowsFor (b.toNat + 1) * curve.windowTicks.toNat)).toNat
        = curve.latencyTicks.toNat + curve.windowsFor (b.toNat + 1) * curve.windowTicks.toNat := by
      rw [BitVec.toNat_ofNat, Nat.mod_eq_of_lt (by omega)]
    rw [hcurve]
    exact ⟨_, ServiceCurve.deterministicDelay_eq_some.mpr ⟨hv, by omega, hfits⟩, hfits⟩
  obtain ⟨q, hq⟩ := quote_of_fits (t := t) hdet hguard (by omega)
  have hbound := (hsettling.quoted (hframe ▸ hcal.tame) hN (hframe ▸ (maximumGuard_run h₀ hr).2) hq hb).2
  have hrequired := (quote_ok hq).2.2.2.2
  unfold ServiceCurve.promptBound at hbound
  rw [Nat.add_mul] at hbound
  have hseq : (s.advanced t).reservationSequence.toNat + 1 < 2 ^ 64 := by
    rw [hstep.reservationSequence, hl.latest]
    exact hnext
  exact ⟨_, _, admitJob_granted hadv (by rw [hcurve, hb]; exact hfull) (by rw [hcurve]; exact hwindow) hq
    (by rw [BitVec.le_def]; omega) hseq⟩

/-- **The closed loop.** Along every prompt run of a fresh controller: every certificate was granted with a guard of
    one tick and a delay bounded by the curve and its backlog; every recorded completion returned a guard of one
    tick; the virtual backlog is within the jobs in flight; and the next admission is granted when the clock takes
    its tick, the backlog and its window have room, its deadline is the bound away, and the sequence numbers are
    not used up. -/
theorem prompt_loop (hN : N < 2 ^ 60) (h₀ : new N curve nowTick secret = .ok s₀) (hr : Run step Prompt s₀ h s) :
    (∀ c ∈ issued h, c.uncertaintyGuardTicks = 1 ∧
      c.delayBoundTicks.toNat ≤ curve.promptBound c.backlogBefore.toNat) ∧
    (∀ e ∈ h, ∀ c t, e.call = .observeCompletion c t → ∀ g, e.result = .ok (.observed g) → g = 1) ∧
    s.virtualBacklogQ16.toNat ≤ inFlight h * 2 ^ 16 ∧
    ∀ t d b : U64, b.toNat = inFlight h → s.ClockAccepts t → inFlight h < curve.maximumBacklog.toNat →
      (s.advanced t).admittedInWindow.toNat < curve.maximumAdmissionsPerWindow.toNat →
      (issued h).length + 1 < 2 ^ 64 → t.toNat + curve.promptBound b.toNat ≤ d.toNat →
      ∃ c s', s.admitJob t d b = (.ok c, s') := by
  have hs := settling_run hN h₀ hr
  refine ⟨fun c hc => ⟨hs.guard_eq c hc, hs.bound_le c hc⟩, ?_, hs.backlog, ?_⟩
  · intro e he c t hcall g hresult
    have hevent := hr.event_of he
    obtain ⟨h₁, h₂, hsplit⟩ := List.append_of_mem he
    obtain ⟨hpre, hallowed, -⟩ := hr.cut hsplit
    rw [hcall] at hallowed
    refine observed_guard hN h₀ hpre hallowed ?_
    rw [hevent, hcall] at hresult
    cases hobs : (e.pre.observeCompletion c t).1 with
    | error f => simp [Event.of, step, hobs, Except.map] at hresult
    | ok g' =>
        have hsame : g' = g := by simpa [Event.of, step, hobs, Except.map] using hresult
        rw [hsame]
  · intro t d b hb hclock hfull hwindow hnext hd
    exact prompt_granted hN h₀ hr hb hclock hfull hwindow hnext hd

end

/-- One job completed in time; the next one, at tick 1060, needs a deadline of `20 + (1 + 0) · 100 + 1` ticks. -/
theorem prompt_loop_sample :
    sampleCertificate.delayBoundTicks.toNat ≤ sampleCurve.promptBound 0 ∧ sampleCurve.promptBound 0 = 121 ∧
    ∃ c s', (finalState step sampleController [.admitJob 1000 1500 0,
      .observeCompletion sampleCertificate 1050]).admitJob 1060 1181 0 = (.ok c, s') := by
  have hfirst : Run step Prompt sampleController
      ([] ++ [Event.of step sampleController (.admitJob 1000 1500 0)])
      (step sampleController (.admitJob 1000 1500 0)).2 := Run.start.call (Call.admitJob 1000 1500 0) rfl
  have hprompt : Prompt ([] ++ [Event.of step sampleController (.admitJob 1000 1500 0)])
      (.observeCompletion sampleCertificate 1050) :=
    ⟨sample_issued, by decide +kernel, by decide +kernel⟩
  have hr := hfirst.call (Call.observeCompletion sampleCertificate 1050) hprompt
  obtain ⟨hbounds, -, -, hgranted⟩ := prompt_loop (by decide) sampleController_new hr
  have hissued := (hbounds sampleCertificate (by decide +kernel)).2
  have hbacklog : sampleCertificate.backlogBefore.toNat = 0 := by decide +kernel
  rw [hbacklog] at hissued
  refine ⟨hissued, by decide, hgranted 1060 1181 0 ?_ ?_ ?_ ?_ ?_ ?_⟩
  · decide +kernel
  · exact ⟨by decide +kernel, by decide +kernel, by unfold RollFits; decide +kernel⟩
  · decide +kernel
  · decide +kernel
  · decide +kernel
  · decide +kernel

end ServiceController

end Slope.Service
