import Slope.Service.Clock

/-!
# `Service.Envelope` — the arrival envelope over any interval

`admit` compares the admissions of the current window with `maximum_admissions_per_window`, so the ledger bounds the
admissions that carry one window start. What the envelope is for is a bound over time: how many jobs can have been
let in between two ticks, wherever those ticks fall. The missing link is that windows are a grid. Every window start
the controller ever has, also the one a failing `advance` leaves behind, lies a whole number of windows after the
first; so a certificate's window start is the grid point of the tick it was admitted at, and one window start is one
period of that grid (`Lib.Period`).
-/

namespace Slope.Service.ServiceController

open Word

variable {N : Nat} {s s' s₁ : ServiceController N} {t t₁ t₂ : U64} {a : Nat}

/-! ## The grid of windows -/

/-- The window starts a whole number of windows after `a`. -/
def OnGrid (a : Nat) (s : ServiceController N) : Prop :=
  ∃ k, s.windowStart.toNat = a + k * s.curve.windowTicks.toNat

/-- Adding whole windows stays on the grid. -/
theorem OnGrid.roll (hgrid : OnGrid a s) {k : Nat} (hcurve : s'.curve = s.curve)
    (hstart : s'.windowStart.toNat = s.windowStart.toNat + k * s.curve.windowTicks.toNat) : OnGrid a s' := by
  obtain ⟨k₀, hk₀⟩ := hgrid
  refine ⟨k₀ + k, ?_⟩
  rw [hcurve, hstart, hk₀, Nat.add_mul, Nat.add_assoc]

theorem OnGrid.same (hgrid : OnGrid a s) (hcurve : s'.curve = s.curve) (hstart : s'.windowStart = s.windowStart) :
    OnGrid a s' := by
  refine hgrid.roll (k := 0) hcurve ?_
  rw [hstart, Nat.zero_mul, Nat.add_zero]

/-- The window start that a failing `advance` leaves is the one a complete advance would have left. -/
theorem toNat_windowStart_moved (hws : s.windowStart ≤ t) :
    (s.moved t).windowStart.toNat = s.windowStart.toNat + s.windowsAt t * s.curve.windowTicks.toNat := by
  obtain ⟨span, hspan, hstart⟩ := Option.bind_eq_some_iff.mp (roll_start hws)
  rw [checkedMul_eq_some, toNat_elapsedWindows hws] at hspan
  rw [checkedAdd_eq_some] at hstart
  show (s.windowStart + s.elapsedWindows t * s.curve.windowTicks).toNat = _
  rw [hstart, hspan]
  rfl

/-- Whatever `advance` returns, the window stays on the grid. -/
theorem OnGrid.advance (hgrid : OnGrid a s) (hw : 0 < s.curve.windowTicks.toNat) (t : U64) :
    OnGrid a (s.advance t).2 := by
  have hcurve := (advance_clockStep hw t).curve
  rcases advance_cases s t with ⟨-, h⟩ | ⟨-, hws, -, h⟩ | ⟨-, hws, -, h⟩
  · rw [h]
    exact hgrid.same rfl rfl
  · rw [h] at hcurve ⊢
    exact hgrid.roll hcurve (toNat_windowStart_advanced hw hws)
  · rw [h] at hcurve ⊢
    exact hgrid.roll hcurve (toNat_windowStart_moved hws)

/-- One call leaves the window alone, or moves it as `advance` does. -/
theorem windowStart_step (s : ServiceController N) (i : Call) :
    (step s i).2.windowStart = s.windowStart ∨ ∃ t, (step s i).2.windowStart = (s.advance t).2.windowStart := by
  cases i with
  | admitJob t d b =>
      right
      refine ⟨t, ?_⟩
      rcases ha : s.admitJob t d b with ⟨f | c, s'⟩
      · rcases admitJob_error ha with hadv | ⟨s₁, hadv, rfl | rfl⟩
        · rw [step, ha, hadv]
        · rw [step, ha, hadv]
        · rw [step, ha, hadv]
          rfl
      · obtain ⟨s₁, q, hadv, -, -, -, -, -, -, rfl⟩ := admitJob_ok ha
        rw [step, ha, hadv]
        rfl
  | rollback c =>
      left
      rcases hr : s.rollback c with ⟨f | ⟨⟨⟩⟩, s'⟩
      · rw [step, hr, rollback_error hr]
      · obtain ⟨-, -, -, -, rfl⟩ := rollback_ok.mp hr
        rw [step, hr]
  | observeCompletion c t =>
      rcases observe_cases s c t with ⟨-, ho⟩ | ⟨-, -, f, s', hadv, ho⟩ | ⟨-, -, s₁, hadv, -, ho⟩ |
        ⟨-, -, s₁, predicted, hadv, -, ⟨f, -, ho⟩ | ⟨g, -, ho⟩⟩
      · left
        rw [step, ho]
      all_goals
        right
        refine ⟨t, ?_⟩
        rw [step, ho, hadv]

theorem OnGrid.step (hgrid : OnGrid a s) (hw : 0 < s.curve.windowTicks.toNat) (i : Call) :
    OnGrid a (step s i).2 := by
  have hcurve := (identity_step hw i).1
  rcases windowStart_step s i with hsame | ⟨t, hmove⟩
  · exact hgrid.same hcurve hsame
  · have hadv := hgrid.advance hw t
    exact hadv.same (hcurve.trans (advance_clockStep hw t).curve.symm) hmove

/-- A granted certificate carries the grid point of its own tick. -/
theorem OnGrid.granted (hgrid : OnGrid a s) (hw : 0 < s.curve.windowTicks.toNat) {d b : U64}
    {c : AdmissionCertificate} (h : s.admitJob t d b = (.ok c, s')) :
    c.windowStart.toNat = Period.start s.curve.windowTicks.toNat a c.admittedTick.toNat := by
  obtain ⟨s₁, q, hadv, -, -, -, -, -, rfl, -⟩ := admitJob_ok h
  obtain ⟨⟨-, hws, -⟩, rfl⟩ := advance_ok.mp hadv
  obtain ⟨k, hk⟩ := hgrid
  have hle : s.windowStart.toNat ≤ t.toNat := hws
  rw [hk] at hle
  show (s.advanced t).windowStart.toNat = Period.start s.curve.windowTicks.toNat a t.toNat
  rw [toNat_windowStart_advanced hw hws, startAt, hk, Period.start_add_mul hw hle]

/-! ## Along a run -/

section

variable {curve : ServiceCurve} {nowTick secret : U64} {s₀ : ServiceController N} {h : List (ControllerEvent N)}

/-- The window stays on the grid, and every certificate issued so far carries the grid point of its tick. -/
structure Gridded (curve : ServiceCurve) (nowTick : U64) (is : List AdmissionCertificate) (s : ServiceController N) :
    Prop where
  curve_eq : s.curve = curve
  onGrid : OnGrid nowTick.toNat s
  stamped : ∀ c ∈ is, c.windowStart.toNat = Period.start curve.windowTicks.toNat nowTick.toNat c.admittedTick.toNat

theorem gridded_run {allowed : List (ControllerEvent N) → Call → Prop} (h₀ : new N curve nowTick secret = .ok s₀)
    (hr : Run step allowed s₀ h s) : Gridded curve nowTick (issued h) s := by
  refine hr.invariant (fun h s => Gridded curve nowTick (issued h) s) ?_ ?_
  · obtain ⟨-, -, -, -, -, -, -, rfl⟩ := new_ok h₀
    exact ⟨rfl, ⟨0, by simp⟩, by simp [issued]⟩
  · intro h s i hr hi hg
    have hw := windowTicks_pos_run h₀ hr
    refine ⟨(identity_step hw i).1.trans hg.curve_eq, hg.onGrid.step hw i, ?_⟩
    unfold issued
    rw [filterMap_snoc]
    intro c hc
    rcases List.mem_append.mp hc with hold | hnew
    · exact hg.stamped c hold
    · -- only a granted `admit` issues
      have hissued : issuedBy (Event.of ServiceController.step s i) = some c := Option.mem_toList.mp hnew
      rcases step_cases hw i with ⟨hnone, -⟩ | ⟨t, d, b, s₁, q, rfl, hadm, -, -, -, -, -, -, -, hcert, -⟩ |
        ⟨c', -, -, hnone, -⟩ | ⟨c', t, -, hnone, -⟩
      · rw [hnone] at hissued
        cases hissued
      · rw [hcert] at hissued
        obtain rfl := Option.some.inj hissued
        have hstamp := hg.onGrid.granted hw hadm
        rw [hg.curve_eq] at hstamp
        exact hstamp
      · rw [hnone] at hissued
        cases hissued
      · rw [hnone] at hissued
        cases hissued

/-! ## The envelope -/

/-- The certificates issued and not rolled back, oldest first. -/
def kept (h : List (ControllerEvent N)) : List AdmissionCertificate :=
  (issued h).filter fun c => !decide (c ∈ rolledBack h)

/-- Every certificate rolled back is one of those issued, so what is kept in a window stays within the envelope. -/
theorem Ledger.kept_le (hl : Ledger curve (issued h) (rolledBack h) s) (w : U64) :
    countIn w (kept h) ≤ curve.maximumAdmissionsPerWindow.toNat := by
  have hundone : countIn w (rolledBack h) ≤ countIn w ((issued h).filter fun c => decide (c ∈ rolledBack h)) := by
    refine (List.subperm_of_subset hl.rolled_nodup ?_).countP_le _
    intro c hc
    exact List.mem_filter.mpr ⟨hl.rolled_issued c hc, decide_eq_true hc⟩
  have hsplit := List.countP_eq_countP_filter_add (issued h) (·.windowStart == w)
    (fun c => decide (c ∈ rolledBack h))
  have henvelope := hl.envelope w
  unfold countIn at hundone henvelope ⊢
  unfold kept
  omega

/-- What is kept in one period of the grid carries one window start. -/
theorem Ledger.kept_period_le (hl : Ledger curve (issued h) (rolledBack h) s)
    (hg : Gridded curve nowTick (issued h) s) (k : Nat) :
    (kept h).countP (fun c => Period.elapsed curve.windowTicks.toNat nowTick.toNat c.admittedTick.toNat == k)
      ≤ curve.maximumAdmissionsPerWindow.toNat := by
  refine Nat.le_trans (List.countP_mono_left ?_)
    (hl.kept_le (BitVec.ofNat 64 (nowTick.toNat + k * curve.windowTicks.toNat)))
  intro c hc hk
  have hissued : c ∈ issued h := (List.mem_filter.mp hc).1
  have hstart := hg.stamped c hissued
  rw [Period.start, beq_iff_eq.mp hk] at hstart
  rw [beq_iff_eq, ← hstart, BitVec.ofNat_toNat, BitVec.setWidth_eq]

/-- **The arrival envelope over any interval.** Along every honest run of a fresh controller, the jobs admitted
    between any two ticks and not rolled back are at most `maximum_admissions_per_window` for each whole window
    that fits between the ticks, and twice that for the two windows the ticks cut. -/
theorem admissions_between_le (h₀ : new N curve nowTick secret = .ok s₀) (hr : Run step Honest s₀ h s)
    (hle : t₁ ≤ t₂) :
    (kept h).countP (fun c => decide (t₁.toNat ≤ c.admittedTick.toNat ∧ c.admittedTick.toNat ≤ t₂.toNat))
      ≤ curve.maximumAdmissionsPerWindow.toNat * ((t₂.toNat - t₁.toNat) / curve.windowTicks.toNat + 2) := by
  have hl := ledger_run h₀ hr
  have hw : 0 < curve.windowTicks.toNat := hl.curve_eq ▸ windowTicks_pos_run h₀ hr
  exact Period.countP_between_le hw (hl.kept_period_le (gridded_run h₀ hr)) hle

end

/-- Four jobs at the last tick of the first window and four at the first tick of the next: the bound for two
    adjacent ticks is reached. -/
def burst : List Call := List.replicate 4 (.admitJob 1099 9000 0) ++ List.replicate 4 (.admitJob 1100 9000 0)

theorem admissions_between_le_burst :
    (kept (trace step sampleController burst)).length = 8 ∧
    (kept (trace step sampleController burst)).countP
      (fun c => decide ((1099 : U64).toNat ≤ c.admittedTick.toNat ∧ c.admittedTick.toNat ≤ (1100 : U64).toNat))
        ≤ sampleCurve.maximumAdmissionsPerWindow.toNat * ((1100 - 1099) / sampleCurve.windowTicks.toNat + 2) := by
  have hall : ∀ i ∈ burst, ∃ t d b, i = Call.admitJob t d b := by
    intro i hi
    rcases List.mem_append.mp hi with hi | hi
    · exact ⟨_, _, _, List.eq_of_mem_replicate hi⟩
    · exact ⟨_, _, _, List.eq_of_mem_replicate hi⟩
  -- an admission is always allowed
  have hr : Run step Honest sampleController (trace step sampleController burst)
      (finalState step sampleController burst) := by
    refine (Run.replay_of step sampleController hall).mono ?_
    rintro h i ⟨t, d, b, rfl⟩
    trivial
  have hle : (1099 : U64) ≤ 1100 := by decide
  exact ⟨by decide +kernel, admissions_between_le sampleController_new hr hle⟩

end Slope.Service.ServiceController
