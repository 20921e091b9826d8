import Slope.Service.History

/-!
# `Service.Undo` — rolling a fresh reservation back

`rollback` takes back what `admit` booked: the window count from the certificate, `accepted` and the virtual
backlog by a saturating subtraction. `accepted` never saturates, since it stays within the sequence numbers
issued (`AcceptedWithin`). The virtual backlog does: a completion late enough drives it to the largest word,
from where `admit` adds nothing and `rollback` still subtracts a whole job. `rollback_restores_iff` says from
which states the pair is exact.
-/

namespace Slope.Service.ServiceController

open Word

variable {N : Nat} {s s' s₁ s₂ : ServiceController N} {t d b : U64} {c : AdmissionCertificate}

/-! ## The count of reservations -/

/-- No more reservations stand than sequence numbers were issued. -/
def AcceptedWithin (s : ServiceController N) : Prop :=
  s.accepted.toNat ≤ s.reservationSequence.toNat

theorem AcceptedWithin.clock (hi : s.AcceptedWithin) (hc : ClockStep s s') : s'.AcceptedWithin := by
  unfold AcceptedWithin at hi ⊢
  rw [hc.accepted, hc.reservationSequence]
  exact hi

/-- A booking issues a sequence number for the reservation it counts. -/
theorem AcceptedWithin.book (hi : s.AcceptedWithin) (hseq : s.reservationSequence.toNat + 1 < 2 ^ 64)
    (admitted : U16) : (s.booked (s.reservationSequence + 1) admitted).AcceptedWithin := by
  have h1 : (1 : U64).toNat = 1 := rfl
  unfold AcceptedWithin at hi ⊢
  show (saturatingAdd s.accepted 1).toNat ≤ (s.reservationSequence + 1).toNat
  rw [toNat_saturatingAdd, BitVec.toNat_add, h1, Nat.mod_eq_of_lt hseq]
  omega

theorem AcceptedWithin.undo (hi : s.AcceptedWithin) (hr : s.rollback c = (.ok (), s')) :
    s'.AcceptedWithin := by
  obtain ⟨-, -, -, -, rfl⟩ := rollback_ok.mp hr
  unfold AcceptedWithin at hi ⊢
  show (saturatingSub s.accepted 1).toNat ≤ s.reservationSequence.toNat
  rw [toNat_saturatingSub]
  omega

theorem acceptedWithin_step (hw : 0 < s.curve.windowTicks.toNat) (hi : s.AcceptedWithin) (i : Call) :
    (step s i).2.AcceptedWithin := by
  rcases step_cases hw i with ⟨-, -, -, hclock, -⟩ |
    ⟨t, d, b, s₁, q, -, -, hclock, -, -, -, -, -, hseq, -, -, -, hpost⟩ | ⟨c, -, hr, -⟩ |
    ⟨c, t, -, -, -, -, hclock, -⟩
  · exact hi.clock hclock
  · rw [hpost]; exact (hi.clock hclock).book hseq _
  · exact hi.undo hr
  · exact hi.clock hclock

theorem acceptedWithin_run {curve : ServiceCurve} {nowTick secret : U64} {s₀ : ServiceController N}
    {allowed : List (ControllerEvent N) → Call → Prop} {h : List (ControllerEvent N)}
    (h₀ : new N curve nowTick secret = .ok s₀) (hr : Run step allowed s₀ h s) : s.AcceptedWithin := by
  obtain ⟨-, -, -, g, cal, -, -, hs₀⟩ := new_ok h₀
  refine hr.invariant (fun _ s => s.AcceptedWithin) ?_ ?_
  · rw [hs₀]; exact Nat.le_refl _
  · intro h s i hr _ hi
    exact acceptedWithin_step (windowTicks_pos_run h₀ hr) hi i

/-! ## The virtual backlog -/

/-- The virtual backlog left at tick `t`, once the windows elapsed by then have drained their service. -/
def backlogAt (s : ServiceController N) (t : U64) : Nat :=
  s.virtualBacklogQ16.toNat
    - (t.toNat - s.windowStart.toNat) / s.curve.windowTicks.toNat
      * s.curve.minimumCompletionsPerWindow.toNat * 2 ^ 16

theorem toNat_backlog_advanced (hclock : s.ClockAccepts t) :
    (s.advanced t).virtualBacklogQ16.toNat = s.backlogAt t := by
  obtain ⟨-, hws, hfit⟩ := hclock
  unfold advanced backlogAt
  split
  · -- both products of the drained service are exact
    have hservice := roll_service hws
    unfold RollFits at hfit
    rw [if_pos hfit] at hservice
    obtain ⟨x, hx, hy⟩ := Option.bind_eq_some_iff.mp hservice
    rw [checkedMul_eq_some, toNat_zext (by decide : 16 ≤ 64)] at hx
    rw [checkedMul_eq_some] at hy
    show (saturatingSub _ _).toNat = _
    rw [toNat_saturatingSub, hy, hx, toNat_elapsedWindows hws]
    rfl
  · next hroll =>
    rw [elapsed_of_not_roll hws hroll]
    show s.virtualBacklogQ16.toNat = _
    omega

/-! ## Admit, then roll back -/

/-- What `admit` followed by `rollback` makes of the state between `advance` and the booking. -/
theorem rollback_booked {q : Quote} (hseq : s₁.reservationSequence.toNat + 1 < 2 ^ 64)
    (hacc : s₁.AcceptedWithin)
    (hr : (s₁.booked (s₁.reservationSequence + 1) (s₁.admittedInWindow + 1)).rollback
      (s₁.certificateFor t d b q) = (.ok (), s₂)) :
    s₂ = { s₁ with
      reservationSequence := s₁.reservationSequence + 1
      virtualBacklogQ16 := saturatingSub (saturatingAdd s₁.virtualBacklogQ16 q16One) q16One } := by
  obtain ⟨-, -, -, -, hpost⟩ := rollback_ok.mp hr
  have h1 : (1 : U64).toNat = 1 := rfl
  unfold AcceptedWithin at hacc
  have haccepted : saturatingSub (saturatingAdd s₁.accepted 1) 1 = s₁.accepted :=
    saturatingSub_saturatingAdd.mpr (by rw [h1]; omega)
  have hbefore : (s₁.certificateFor t d b q).admittedBefore = s₁.admittedInWindow := rfl
  rw [hpost, hbefore]
  unfold booked
  dsimp only
  rw [haccepted]

/-- **Admit and roll back.** From every state reached from `new`, by any calls whatever: when an admission at
    tick `t` is granted and rolled back at once, everything but the sequence number is what the admission's own
    `advance` had left, exactly when the virtual backlog left at `t` has room for one more job. -/
theorem rollback_restores_iff {curve : ServiceCurve} {nowTick secret : U64} {s₀ : ServiceController N}
    {h : List (ControllerEvent N)} (h₀ : new N curve nowTick secret = .ok s₀)
    (hrun : Run step (fun _ _ => True) s₀ h s) (ha : s.admitJob t d b = (.ok c, s'))
    (hr : s'.rollback c = (.ok (), s₂)) :
    ∃ s₁, s.advance t = (.ok (), s₁) ∧
      (s₂ = { s₁ with reservationSequence := s₂.reservationSequence } ↔
        s.backlogAt t + 2 ^ 16 < 2 ^ 64) := by
  obtain ⟨s₁, q, hadv, -, -, -, -, hseq, rfl, rfl⟩ := admitJob_ok ha
  obtain ⟨hclock, hs₁⟩ := advance_ok.mp hadv
  have hacc : s₁.AcceptedWithin := by
    have hstep := advance_clockStep (windowTicks_pos_run h₀ hrun) t
    rw [hadv] at hstep
    exact (acceptedWithin_run h₀ hrun).clock hstep
  have hbacklog : s₁.virtualBacklogQ16.toNat = s.backlogAt t := by
    rw [hs₁]; exact toNat_backlog_advanced hclock
  have hpost := rollback_booked hseq hacc hr
  have hexact : saturatingSub (saturatingAdd s₁.virtualBacklogQ16 q16One) q16One = s₁.virtualBacklogQ16 ↔
      s.backlogAt t + 2 ^ 16 < 2 ^ 64 := by
    rw [saturatingSub_saturatingAdd, hbacklog, show q16One.toNat = 2 ^ 16 from rfl]
  refine ⟨s₁, hadv, ?_⟩
  rw [← hexact, hpost]
  constructor
  · intro heq
    have hfield := congrArg (·.virtualBacklogQ16) heq
    dsimp only at hfield
    exact hfield
  · intro heq
    rw [heq]

/-! ### A backlog at its ceiling -/

/-- The first job of the sample controller completes `2 ^ 49` ticks late: the overrun cannot be scaled, and the
    virtual backlog saturates. -/
def lateCompletion : List Call :=
  [.admitJob 1000 1500 0, .observeCompletion sampleCertificate (1000 + 2 ^ 49)]

def lateController : ServiceController 8 := finalState step sampleController lateCompletion

/-- The certificate of the next admission, at the same tick. -/
def nextCertificate : AdmissionCertificate :=
  (lateController.admitJob (1000 + 2 ^ 49) (2 ^ 63) 0).1.toOption.getD .empty

def undoneController : ServiceController 8 :=
  ((lateController.admitJob (1000 + 2 ^ 49) (2 ^ 63) 0).2.rollback nextCertificate).2

/-- The first admission of the sample controller is taken back whole. -/
theorem rollback_restores_sample :
    ∃ s₁ s₂, sampleController.advance 1000 = (.ok (), s₁) ∧
      (sampleController.admitJob 1000 1500 0).2.rollback sampleCertificate = (.ok (), s₂) ∧
      s₂ = { s₁ with reservationSequence := s₂.reservationSequence } := by
  have ha : sampleController.admitJob 1000 1500 0
      = (.ok sampleCertificate, (sampleController.admitJob 1000 1500 0).2) := by decide +kernel
  have hr : (sampleController.admitJob 1000 1500 0).2.rollback sampleCertificate
      = (.ok (), ((sampleController.admitJob 1000 1500 0).2.rollback sampleCertificate).2) := by
    decide +kernel
  obtain ⟨s₁, hadv, hiff⟩ := rollback_restores_iff sampleController_new .start ha hr
  exact ⟨s₁, _, hadv, hr, hiff.mpr (by decide +kernel)⟩

/-- After the late completion an admission and its rollback leave one job less than before. -/
theorem rollback_does_not_restore :
    new 8 sampleCurve 1000 7 = .ok sampleController ∧
    Run step (fun _ _ => True) sampleController (trace step sampleController lateCompletion) lateController ∧
    lateController.admitJob (1000 + 2 ^ 49) (2 ^ 63) 0
      = (.ok nextCertificate, (lateController.admitJob (1000 + 2 ^ 49) (2 ^ 63) 0).2) ∧
    (lateController.admitJob (1000 + 2 ^ 49) (2 ^ 63) 0).2.rollback nextCertificate
      = (.ok (), undoneController) ∧
    (lateController.advance (1000 + 2 ^ 49)).1 = .ok () ∧
    (lateController.advance (1000 + 2 ^ 49)).2.virtualBacklogQ16 = 0xffffffffffffffff ∧
    undoneController.virtualBacklogQ16 = 0xfffffffffffeffff := by
  refine ⟨sampleController_new, Run.replay step sampleController lateCompletion, ?_⟩
  decide +kernel

end Slope.Service.ServiceController
