import Slope.Service.History

/-!
# `Service.Settlement` — how often a certificate is settled

A certificate is *settled* by a successful rollback or a successful completion. Rollbacks are never repeated
(`Ledger.undo`), but nothing in the controller remembers a completion: `observe_completion` checks the
certificate and the clock, and accepts the same certificate again at any later tick, also one that was rolled
back. This file states exactly which calls break single settlement (`NoReplay`), and shows along the way that
the calibrator of an honest run never overflows, so that an accepted completion is really recorded.
-/

namespace Slope.Service.ServiceController

open Word

variable {N : Nat}

/-! ## Settled certificates -/

def settledBy (e : ControllerEvent N) : Option AdmissionCertificate :=
  match e.call, e.result with
  | .rollback c, .ok _ => some c
  | .observeCompletion c _, .ok _ => some c
  | _, _ => none

/-- The certificates of successful rollbacks and completions, oldest first. -/
def settled (h : List (ControllerEvent N)) : List AdmissionCertificate := h.filterMap settledBy

/-- Settling is rolling back or completing, never both at once. -/
theorem settledBy_eq (e : ControllerEvent N) :
    (settledBy e = rolledBackBy e ∧ completedBy e = none) ∨
      (settledBy e = completedBy e ∧ rolledBackBy e = none) := by
  obtain ⟨pre, call, result, post⟩ := e
  cases call <;> cases result <;> simp [settledBy, rolledBackBy, completedBy]

theorem settledBy_eq_or (e : ControllerEvent N) : settledBy e = (rolledBackBy e).or (completedBy e) := by
  rcases settledBy_eq e with ⟨heq, hnone⟩ | ⟨heq, hnone⟩
  · rw [heq, hnone, Option.or_none]
  · rw [heq, hnone, Option.none_or]

theorem mem_settled {h : List (ControllerEvent N)} {c : AdmissionCertificate} :
    c ∈ settled h ↔ c ∈ rolledBack h ∨ c ∈ completed h := by
  simp only [settled, rolledBack, completed, List.mem_filterMap]
  constructor
  · rintro ⟨e, he, hs⟩
    rcases settledBy_eq e with ⟨heq, -⟩ | ⟨heq, -⟩
    · exact Or.inl ⟨e, he, heq ▸ hs⟩
    · exact Or.inr ⟨e, he, heq ▸ hs⟩
  · rintro (⟨e, he, hs⟩ | ⟨e, he, hs⟩)
    · rcases settledBy_eq e with ⟨heq, -⟩ | ⟨-, hnone⟩
      · exact ⟨e, he, heq.trans hs⟩
      · rw [hnone] at hs; cases hs
    · rcases settledBy_eq e with ⟨-, hnone⟩ | ⟨heq, -⟩
      · rw [hnone] at hs; cases hs
      · exact ⟨e, he, heq.trans hs⟩

theorem length_settled (h : List (ControllerEvent N)) :
    (settled h).length = (rolledBack h).length + (completed h).length := by
  induction h with
  | nil => rfl
  | cons e h ih =>
      simp only [settled, rolledBack, completed, List.filterMap_cons] at ih ⊢
      rcases settledBy_eq e with ⟨heq, hnone⟩ | ⟨heq, hnone⟩
      · rw [heq, hnone]
        cases rolledBackBy e <;> simp only [List.length_cons] <;> omega
      · rw [heq, hnone]
        cases completedBy e <;> simp only [List.length_cons] <;> omega

/-! ## Which settlements a state accepts -/

/-- The gate and the clock let a completion of `c` at tick `t` through. -/
def AcceptsCompletion (s : ServiceController N) (c : AdmissionCertificate) (t : U64) : Prop :=
  s.verifyCertificate c = true ∧ c.admittedTick ≤ t ∧ s.ClockAccepts t

/-- `c` verifies and is still the latest reservation standing in the current window. -/
def AcceptsRollback (s : ServiceController N) (c : AdmissionCertificate) : Prop :=
  s.verifyCertificate c = true ∧ c.windowStart = s.windowStart ∧
    c.reservationSequence = s.reservationSequence ∧
    s.admittedInWindow = saturatingAdd c.admittedBefore 1

/-- A completion that is recorded was accepted by the gate and the clock. -/
theorem acceptsCompletion_of_completed {s : ServiceController N} {c : AdmissionCertificate} {t : U64}
    (h : completedBy (Event.of step s (.observeCompletion c t)) = some c) : s.AcceptsCompletion c t := by
  rcases observe_cases s c t with ⟨-, ho⟩ | ⟨-, -, f, s', -, ho⟩ | ⟨-, -, s₁, -, -, ho⟩ |
    ⟨hv, ht, s₁, predicted, hadv, -, ⟨f, -, ho⟩ | ⟨g, -, -⟩⟩
  · simp [completedBy, Event.of, step, ho, Except.map] at h
  · simp [completedBy, Event.of, step, ho, Except.map] at h
  · simp [completedBy, Event.of, step, ho, Except.map] at h
  · simp [completedBy, Event.of, step, ho, Except.map] at h
  · exact ⟨hv, ht, (advance_ok.mp hadv).1⟩

/-- **No replay.** No completion is accepted for a certificate settled before, and no rollback is accepted
    for a certificate completed before. -/
def NoReplay (h : List (ControllerEvent N)) : Prop :=
  ∀ h₁ e h₂, h = h₁ ++ e :: h₂ →
    (∀ c t, e.call = .observeCompletion c t → c ∈ settled h₁ → ¬ e.pre.AcceptsCompletion c t) ∧
    (∀ c, e.call = .rollback c → c ∈ completed h₁ → ¬ e.pre.AcceptsRollback c)

theorem noReplay_of_snoc {h : List (ControllerEvent N)} {e : ControllerEvent N}
    (hn : NoReplay (h ++ [e])) : NoReplay h := by
  intro h₁ e' h₂ hh
  exact hn h₁ e' (h₂ ++ [e]) (by simp [hh])

section

variable {curve : ServiceCurve} {nowTick secret : U64} {s₀ s : ServiceController N}
  {h : List (ControllerEvent N)}

/-! ## Counting completions -/

/-- The completion counter never runs ahead of the completions of the history. -/
theorem observed_le_run (h₀ : new N curve nowTick secret = .ok s₀) (hr : Run step Honest s₀ h s) :
    s.observed.toNat ≤ (completed h).length := by
  obtain ⟨-, -, -, g, cal, -, -, hs₀⟩ := new_ok h₀
  refine hr.invariant (fun h s => s.observed.toNat ≤ (completed h).length) ?_ ?_
  · rw [hs₀]; exact Nat.zero_le _
  intro h s i hr _ ih
  have hw := windowTicks_pos_run h₀ hr
  have hmono : (completed h).length ≤ (completed (h ++ [Event.of step s i])).length := by
    rw [completed, completed, filterMap_snoc, List.length_append]; exact Nat.le_add_right _ _
  rcases step_cases hw i with ⟨-, -, -, -, hobs⟩ |
    ⟨t, d, b, s₁, q, -, -, -, -, hobs, -, -, -, -, -, -, -, hpost⟩ | ⟨c, -, hrb, -, -, -⟩ |
    ⟨c, t, -, -, -, hcp, -, hobs⟩
  · rw [hobs]; exact Nat.le_trans ih hmono
  · rw [hpost]
    show s₁.observed.toNat ≤ _
    rw [hobs]; exact Nat.le_trans ih hmono
  · obtain ⟨-, -, -, -, hpost⟩ := rollback_ok.mp hrb
    rw [hpost]; exact Nat.le_trans ih hmono
  · rw [hobs, completed, filterMap_snoc, hcp, toNat_saturatingAdd]
    have h1 : (1 : U64).toNat = 1 := rfl
    have : (completed h).length = (h.filterMap completedBy).length := rfl
    simp only [Option.toList_some, List.length_append, List.length_singleton]
    omega

/-- Everything settled along an honest run was issued. -/
theorem settled_issued_run (hr : Run step Honest s₀ h s) : ∀ c ∈ settled h, c ∈ issued h := by
  refine hr.invariant (fun h _ => ∀ c ∈ settled h, c ∈ issued h) (by simp [settled]) ?_
  intro h s i _ hi ih c hc
  rw [settled, filterMap_snoc, List.mem_append] at hc
  rw [issued, filterMap_snoc, List.mem_append]
  left
  rcases hc with hc | hc
  · exact ih c hc
  · cases i with
    | admitJob t d b => simp [settledBy, Event.of] at hc
    | rollback c' =>
        have hcc : c = c' := by
          revert hc
          cases hres : (Event.of step s (.rollback c')).result <;>
            simp [settledBy, hres, show (Event.of step s (.rollback c')).call = .rollback c' from rfl]
        rw [hcc]; exact hi
    | observeCompletion c' t =>
        have hcc : c = c' := by
          revert hc
          cases hres : (Event.of step s (.observeCompletion c' t)).result <;>
            simp [settledBy, hres,
              show (Event.of step s (.observeCompletion c' t)).call = .observeCompletion c' t from rfl]
        rw [hcc]; exact hi

/-! ## No replay settles once -/

/-- Without replays no certificate is settled twice: a second rollback is refused by the ledger, everything
    else by hypothesis. -/
theorem settled_nodup_run (h₀ : new N curve nowTick secret = .ok s₀) (hr : Run step Honest s₀ h s) :
    NoReplay h → (settled h).Nodup := by
  refine hr.invariant (fun h _ => NoReplay h → (settled h).Nodup) (fun _ => List.nodup_nil) ?_
  intro h s i hr hi ih hn
  have hl := ledger_run h₀ hr
  have hw := windowTicks_pos_run h₀ hr
  obtain ⟨hnc, hnr⟩ := hn h (Event.of step s i) [] rfl
  have hfresh : ∀ c, settledBy (Event.of step s i) = some c → c ∉ settled h := by
    intro c hc hmem
    rcases step_cases hw i with ⟨-, hrb, hcp, -⟩ |
      ⟨t, d, b, s₁, q, -, -, -, -, -, -, -, -, -, -, hrb, hcp, -⟩ | ⟨c', rfl, hroll, -, hrb, hcp⟩ |
      ⟨c', t, rfl, -, hrb, hcp, -⟩
    · rw [settledBy_eq_or, hrb, hcp] at hc; cases hc
    · rw [settledBy_eq_or, hrb, hcp] at hc; cases hc
    · obtain rfl : c' = c := by rw [settledBy_eq_or, hrb] at hc; exact Option.some.inj hc
      -- a second rollback is refused by the ledger, a rollback after a completion by hypothesis
      rcases mem_settled.mp hmem with hmem | hmem
      · exact (hl.undo hi hroll).1 hmem
      · obtain ⟨hver, hws, hseq, hadm, -⟩ := rollback_ok.mp hroll
        exact hnr c' rfl hmem ⟨hver, hws, hseq, hadm⟩
    · obtain rfl : c' = c := by rw [settledBy_eq_or, hrb, hcp] at hc; exact Option.some.inj hc
      exact hnc c' t rfl hmem (acceptsCompletion_of_completed hcp)
  rw [settled, filterMap_snoc]
  refine List.nodup_append.mpr ⟨ih (noReplay_of_snoc hn), ?_, ?_⟩
  · cases settledBy (Event.of step s i) <;> simp
  · rintro a ha b hb rfl
    cases hs : settledBy (Event.of step s i) with
    | none => rw [hs] at hb; simp at hb
    | some c =>
        rw [hs] at hb
        obtain rfl : a = c := by simpa using hb
        exact hfresh a hs ha

/-! ## The calibrator of an honest run -/

/-- Completions are reported only for certificates that earlier admissions returned; rollbacks may be tried
    with any certificate. -/
def ObservesIssued (h : List (ControllerEvent N)) : Call → Prop
  | .observeCompletion c _ => c ∈ issued h
  | _ => True

theorem observesIssued_of_honest (h : List (ControllerEvent N)) (i : Call) (hi : Honest h i) :
    ObservesIssued h i := by
  cases i with
  | admitJob t d b => trivial
  | rollback c => trivial
  | observeCompletion c t => exact hi

/-- Only a completion whose prediction fits touches the calibrator, by recording its residual. -/
theorem step_calibrator (s : ServiceController N) (i : Call) :
    (step s i).2.calibrator = s.calibrator ∨
    ∃ c t predicted, i = .observeCompletion c t ∧
      checkedAdd c.deterministicDelayTicks c.driftPenaltyTicks = some predicted ∧
      (step s i).2.calibrator = s.calibrator.record (saturatingSub (t - c.admittedTick) predicted) := by
  cases i with
  | admitJob t d b =>
      left
      have hframe := (advance_frame s t).1
      rcases ha : s.admitJob t d b with ⟨f | c, s'⟩
      · simp only [step, ha]
        rcases admitJob_error ha with hadv | ⟨s₁, hadv, rfl | rfl⟩
        · rw [hadv] at hframe; exact hframe
        · rw [hadv] at hframe; exact hframe
        · rw [hadv] at hframe; exact hframe
      · simp only [step, ha]
        obtain ⟨s₁, q, hadv, -, -, -, -, -, -, rfl⟩ := admitJob_ok ha
        rw [hadv] at hframe; exact hframe
  | rollback c =>
      left
      rcases hr : s.rollback c with ⟨f | ⟨⟨⟩⟩, s'⟩
      · simp only [step, hr]; rw [rollback_error hr]
      · obtain ⟨-, -, -, -, rfl⟩ := rollback_ok.mp hr
        simp only [step, hr]
  | observeCompletion c t =>
      have hframe := (advance_frame s t).1
      rcases observe_cases s c t with ⟨-, ho⟩ | ⟨-, -, f, s', hadv, ho⟩ | ⟨-, -, s₁, hadv, -, ho⟩ |
        ⟨-, -, s₁, predicted, hadv, hp, ⟨f, -, ho⟩ | ⟨g, -, ho⟩⟩
      · left; simp only [step, ho]
      · left; rw [hadv] at hframe; simp only [step, ho]; exact hframe
      · left; rw [hadv] at hframe; simp only [step, ho]; exact hframe
      · right
        rw [hadv] at hframe
        exact ⟨c, t, predicted, rfl, hp, by simp only [step, ho]; rw [← hframe]⟩
      · right
        rw [hadv] at hframe
        exact ⟨c, t, predicted, rfl, hp, by simp only [step, ho]; rw [← hframe]⟩

/-- The calibrator is tame, and every issued certificate predicts a positive delay that fits in a word: a
    residual measured against it is short of the largest word. -/
structure Calibrated (is : List AdmissionCertificate) (s : ServiceController N) : Prop where
  tame : s.calibrator.Tame
  predicted_pos : ∀ c ∈ is, 0 < c.deterministicDelayTicks.toNat
  predicted_lt : ∀ c ∈ is, c.deterministicDelayTicks.toNat + c.driftPenaltyTicks.toNat < 2 ^ 64

theorem residual_lt {c : AdmissionCertificate} {t predicted : U64}
    (hpos : 0 < c.deterministicDelayTicks.toNat)
    (hp : checkedAdd c.deterministicDelayTicks c.driftPenaltyTicks = some predicted) :
    (saturatingSub (t - c.admittedTick) predicted).toNat + 1 < 2 ^ 64 := by
  have hlt := (t - c.admittedTick).isLt
  rw [checkedAdd_eq_some] at hp
  rw [toNat_saturatingSub]
  omega

theorem calibrated_run (h₀ : new N curve nowTick secret = .ok s₀) (hr : Run step ObservesIssued s₀ h s) :
    Calibrated (issued h) s := by
  obtain ⟨-, -, -, g, cal, -, hcal, hs₀⟩ := new_ok h₀
  refine hr.invariant (fun h s => Calibrated (issued h) s) ?_ ?_
  · refine ⟨?_, by simp [issued], by simp [issued]⟩
    rw [hs₀]; exact (ResidualCalibrator.tame_kernelDefault hcal).1
  intro h s i hr hi ih
  have htame : (step s i).2.calibrator.Tame := by
    rcases step_calibrator s i with heq | ⟨c, t, predicted, rfl, hp, heq⟩
    · rw [heq]; exact ih.tame
    · rw [heq]
      exact ResidualCalibrator.tame_record ih.tame (residual_lt (ih.predicted_pos c hi) hp)
  have hw := windowTicks_pos_run h₀ hr
  have hnew : ∀ c, issuedBy (Event.of step s i) = some c → 0 < c.deterministicDelayTicks.toNat ∧
      c.deterministicDelayTicks.toNat + c.driftPenaltyTicks.toNat < 2 ^ 64 := by
    intro c hc
    rcases step_cases hw i with ⟨his, -⟩ |
      ⟨t, d, b, s₁, q, -, -, -, -, -, -, hq, -, -, his, -⟩ | ⟨c', -, -, his, -⟩ | ⟨c', t, -, his, -⟩
    · rw [his] at hc; cases hc
    · rw [his] at hc
      obtain rfl := Option.some.inj hc
      obtain ⟨hdet, -, -, hdelay, -⟩ := quote_ok hq
      have hlt := q.delay.isLt
      exact ⟨ServiceCurve.deterministicDelay_pos hdet, by
        show q.deterministic.toNat + q.driftPenalty.toNat < 2 ^ 64
        omega⟩
    · rw [his] at hc; cases hc
    · rw [his] at hc; cases hc
  have hall : ∀ c ∈ issued (h ++ [Event.of step s i]), 0 < c.deterministicDelayTicks.toNat ∧
      c.deterministicDelayTicks.toNat + c.driftPenaltyTicks.toNat < 2 ^ 64 := by
    intro c hc
    rw [issued, filterMap_snoc, List.mem_append, Option.mem_toList] at hc
    rcases hc with hc | hc
    · exact ⟨ih.predicted_pos c hc, ih.predicted_lt c hc⟩
    · exact hnew c hc
  exact ⟨htame, fun c hc => (hall c hc).1, fun c hc => (hall c hc).2⟩

/-- The prediction of an issued certificate fits in a word. -/
theorem Calibrated.predicts {is : List AdmissionCertificate} {c : AdmissionCertificate}
    (hcal : Calibrated is s) (hc : c ∈ is) :
    ∃ predicted, checkedAdd c.deterministicDelayTicks c.driftPenaltyTicks = some predicted := by
  exact ⟨_, checkedAdd_of_lt (hcal.predicted_lt c hc)⟩

/-- The residual of an issued certificate can be pushed. -/
theorem Calibrated.pushes {is : List AdmissionCertificate} {c : AdmissionCertificate}
    {s₁ : ServiceController N} {t predicted : U64} (hcal : Calibrated is s) (hN : N < 2 ^ 60) (hc : c ∈ is)
    (hadv : s.advance t = (.ok (), s₁))
    (hp : checkedAdd c.deterministicDelayTicks c.driftPenaltyTicks = some predicted) :
    ∃ g, (s₁.calibrator.push (saturatingSub (t - c.admittedTick) predicted)).1 = .ok g := by
  have hframe := (advance_frame s t).1
  rw [hadv] at hframe
  have htame := ResidualCalibrator.tame_record hcal.tame (residual_lt (t := t) (hcal.predicted_pos c hc) hp)
  obtain ⟨g, hok, -⟩ := htame.guard_ok hN
  refine ⟨g, ?_⟩
  rw [hframe]
  exact hok

/-- Behind the gate and the clock, a completion of an issued certificate is recorded. -/
theorem Calibrated.observes {is : List AdmissionCertificate} {c : AdmissionCertificate}
    {s₁ : ServiceController N} {t : U64} (hcal : Calibrated is s) (hN : N < 2 ^ 60) (hc : c ∈ is)
    (hv : s.verifyCertificate c = true) (ht : c.admittedTick ≤ t)
    (hadv : s.advance t = (.ok (), s₁)) : ∃ g, (s.observeCompletion c t).1 = .ok g := by
  obtain ⟨predicted, hp⟩ := hcal.predicts hc
  obtain ⟨g, hg⟩ := hcal.pushes hN hc hadv hp
  have hgate : ¬ (!s.verifyCertificate c || decide (t < c.admittedTick)) = true := by
    rw [hv]
    simpa using ht
  refine ⟨g, ?_⟩
  unfold observeCompletion
  rw [if_neg hgate, hadv]
  dsimp only
  rw [hp]
  dsimp only
  -- only the first component of the push decides the branch
  rcases hpush : s₁.calibrator.push (saturatingSub (t - c.admittedTick) predicted) with ⟨r, cal⟩
  rw [hpush] at hg
  dsimp only at hg
  rw [hg]

/-- An accepted completion of an issued certificate is recorded. -/
theorem completed_of_accepts (hcal : Calibrated (issued h) s) (hN : N < 2 ^ 60)
    {c : AdmissionCertificate} {t : U64} (hc : c ∈ issued h) (ha : s.AcceptsCompletion c t) :
    settledBy (Event.of step s (.observeCompletion c t)) = some c := by
  obtain ⟨hv, ht, hclock⟩ := ha
  obtain ⟨g, hg⟩ := hcal.observes hN hc hv ht (advance_ok.mpr ⟨hclock, rfl⟩)
  simp only [settledBy, Event.of, step, hg, Except.map]

/-- A settlement of an already settled certificate shows in the history. -/
theorem not_nodup_of_settled {h₁ h₂ : List (ControllerEvent N)} {e : ControllerEvent N}
    {c : AdmissionCertificate} (hmem : c ∈ settled h₁) (he : settledBy e = some c) :
    ¬ (settled (h₁ ++ e :: h₂)).Nodup := by
  intro hnd
  rw [settled, List.filterMap_append, List.filterMap_cons, he] at hnd
  exact (List.nodup_append.mp hnd).2.2 c hmem c (List.mem_cons_self ..) rfl

/-- **Single settlement, exactly.** Along an honest run, if no replay is accepted then every certificate is
    settled at most once and completions never outnumber the reservations standing. Conversely a run that
    settles every certificate at most once has accepted no replay. (An array of words has fewer than `2 ^ 60`
    elements.) -/
theorem settled_once_iff (h₀ : new N curve nowTick secret = .ok s₀) (hr : Run step Honest s₀ h s) :
    (NoReplay h → (settled h).Nodup ∧ s.observed.toNat + (rolledBack h).length ≤ (issued h).length) ∧
    (N < 2 ^ 60 → (settled h).Nodup → NoReplay h) := by
  constructor
  · intro hn
    have hnd := settled_nodup_run h₀ hr hn
    refine ⟨hnd, ?_⟩
    have hlen := (List.subperm_of_subset hnd (settled_issued_run hr)).length_le
    have hobs := observed_le_run h₀ hr
    rw [length_settled] at hlen
    omega
  · intro hN hnd h₁ e h₂ hh
    subst hh
    -- at an accepted replay the same certificate enters the settled list again
    obtain ⟨hpre, hal, -⟩ := hr.cut rfl
    have hev := hr.event_of (e := e) (by simp)
    refine ⟨?_, ?_⟩
    · intro c t hcall hmem hacc
      rw [hcall] at hal hev
      have hset := completed_of_accepts (calibrated_run h₀ (hpre.mono observesIssued_of_honest)) hN hal hacc
      rw [← hev] at hset
      exact not_nodup_of_settled hmem hset hnd
    · intro c hcall hmem hacc
      obtain ⟨hv, hws, hseq, hadm⟩ := hacc
      have hroll := rollback_ok.mpr ⟨hv, hws, hseq, hadm, rfl⟩
      have hset : settledBy e = some c := by
        rw [hev, hcall]
        simp [settledBy, Event.of, step, hroll, Except.map]
      exact not_nodup_of_settled (mem_settled.mpr (Or.inr hmem)) hset hnd

end

/-! ### The sample controller settles a certificate twice -/

theorem settled_once_sample :
    NoReplay (trace step sampleController
      [.admitJob 1000 1500 0, .observeCompletion sampleCertificate 1400]) := by
  have hr := sample_admitted.call (Call.observeCompletion sampleCertificate 1400) sample_issued
  exact (settled_once_iff sampleController_new hr).2 (by decide) (by decide +kernel)

/-- **A completion is accepted again.** One admission and two completions of its certificate, all
    successful. -/
theorem settled_twice :
    ∃ h s, Run step Honest sampleController h s ∧ settled h = [sampleCertificate, sampleCertificate] ∧
      (issued h).length = 1 ∧ rolledBack h = [] ∧ s.observed = 2 := by
  have hr := sample_admitted.call (Call.observeCompletion sampleCertificate 1400) sample_issued
  have hr := hr.call (Call.observeCompletion sampleCertificate 1400) (by
    rw [Honest, issued, filterMap_snoc]
    exact List.mem_append_left _ sample_issued)
  exact ⟨_, _, hr, by decide +kernel, by decide +kernel, by decide +kernel, by decide +kernel⟩

end Slope.Service.ServiceController
