import Mathlib.Order.Bounds.Basic
import Slope.Service.History

/-!
# `Service.Staircase` — the delay bound as a horizontal deviation

The service curve promises nothing for `latency_ticks`, and from then on `minimum_completions_per_window` more
completions at the end of every whole window: a staircase. The delay bound of a job that finds `b` others in
front of it is the first tick at which the staircase has reached `b + 1`, and `deterministic_delay` computes it
without going through the staircase.

The bound grows with the backlog. Everything else in an admission is independent of the backlog and of the
deadline, so an admission stays granted when the deadline is moved back or the backlog shrinks.
-/

namespace Slope.Service

open Word

namespace ServiceCurve

/-- The completions that the curve guarantees by `d` ticks. -/
def guaranteed (c : ServiceCurve) (d : Nat) : Nat :=
  c.minimumCompletionsPerWindow.toNat * ((d - c.latencyTicks.toNat) / c.windowTicks.toNat)

/-- The delays, not below the latency, by which the curve guarantees a job behind `b` others. -/
def Serves (c : ServiceCurve) (b : Nat) : Set Nat :=
  {d | c.latencyTicks.toNat ≤ d ∧ b + 1 ≤ c.guaranteed d}

/-- **The horizontal deviation.** The first delay that serves a job is a whole number of windows after the
    latency, and the number is the demand over the rate, rounded up. -/
theorem isLeast_serves {c : ServiceCurve} (hv : c.valid = true) (b : Nat) :
    IsLeast (c.Serves b) (c.latencyTicks.toNat +
      (b + 1 + (c.minimumCompletionsPerWindow.toNat - 1)) / c.minimumCompletionsPerWindow.toNat
        * c.windowTicks.toNat) := by
  obtain ⟨hm, -, hw, -⟩ := valid_iff.mp hv
  unfold Serves guaranteed
  generalize c.minimumCompletionsPerWindow.toNat = rate at *
  generalize c.windowTicks.toNat = window at *
  generalize c.latencyTicks.toNat = latency at *
  -- `windows` windows are enough exactly when they are at least the rounded quotient
  have hrate : ∀ windows, b + 1 ≤ rate * windows ↔ (b + 1 + (rate - 1)) / rate ≤ windows := by
    intro windows
    rw [Nat.div_le_iff_le_mul hm]
    constructor
    · intro h
      rw [Nat.mul_comm]
      omega
    · intro h
      rw [Nat.mul_comm] at h
      omega
  constructor
  · refine ⟨Nat.le_add_right .., ?_⟩
    rw [Nat.add_sub_cancel_left, Nat.mul_div_cancel _ hw]
    exact (hrate _).mpr (Nat.le_refl _)
  · rintro d ⟨hd, hserved⟩
    have hwindows := (hrate _).mp hserved
    have hspan : (b + 1 + (rate - 1)) / rate * window ≤ (d - latency) / window * window :=
      Nat.mul_le_mul_right window hwindows
    have hfloor := Nat.div_mul_le_self (d - latency) window
    omega

/-- A larger backlog is served by fewer delays. -/
theorem serves_anti {c : ServiceCurve} {b b' : Nat} (h : b ≤ b') : c.Serves b' ⊆ c.Serves b := by
  rintro d ⟨hd, hserved⟩
  exact ⟨hd, Nat.le_trans (Nat.succ_le_succ h) hserved⟩

/-- The delay bound, when there is one, is the first delay that serves the job. -/
theorem deterministicDelay_isLeast {c : ServiceCurve} {b d : U64} (h : c.deterministicDelay b = some d) :
    IsLeast (c.Serves b.toNat) d.toNat := by
  obtain ⟨hv, -, hd⟩ := deterministicDelay_eq_some.mp h
  rw [hd]
  exact isLeast_serves hv b.toNat

/-- There is a bound for every smaller backlog, and it is no larger. -/
theorem deterministicDelay_mono {c : ServiceCurve} {b b' d' : U64} (h : c.deterministicDelay b' = some d')
    (hle : b ≤ b') : ∃ d, c.deterministicDelay b = some d ∧ d ≤ d' := by
  obtain ⟨hv, hb', -⟩ := deterministicDelay_eq_some.mp h
  have hleast := isLeast_serves hv b.toNat
  have hserves := serves_anti hle (deterministicDelay_isLeast h).1
  have hbound := hleast.2 hserves
  have hlt := Nat.lt_of_le_of_lt hbound d'.isLt
  refine ⟨BitVec.ofNat 64 _, deterministicDelay_eq_some.mpr ⟨hv, Nat.lt_of_le_of_lt hle hb',
    (BitVec.toNat_ofNat ..).trans (Nat.mod_eq_of_lt hlt)⟩, ?_⟩
  rw [BitVec.le_def, BitVec.toNat_ofNat, Nat.mod_eq_of_lt hlt]
  exact hbound

/-- **The delay bound, as a deviation.** There is a bound exactly when the curve is valid, the backlog is below
    the maximum and the first delay that serves the job fits in a word; the bound is that delay; and it grows
    with the backlog. -/
theorem deterministicDelay_horizontal_deviation (c : ServiceCurve) :
    (∀ b : U64, (∃ d, c.deterministicDelay b = some d) ↔
      c.valid = true ∧ b.toNat < c.maximumBacklog.toNat ∧
        ∃ bound, IsLeast (c.Serves b.toNat) bound ∧ bound < 2 ^ 64) ∧
    (∀ b d : U64, c.deterministicDelay b = some d → IsLeast (c.Serves b.toNat) d.toNat) ∧
    ∀ b b' d d' : U64, b ≤ b' → c.deterministicDelay b = some d → c.deterministicDelay b' = some d' → d ≤ d' := by
  refine ⟨?_, fun b d => deterministicDelay_isLeast, ?_⟩
  · intro b
    constructor
    · rintro ⟨d, hd⟩
      obtain ⟨hv, hb, -⟩ := deterministicDelay_eq_some.mp hd
      exact ⟨hv, hb, d.toNat, deterministicDelay_isLeast hd, d.isLt⟩
    · rintro ⟨hv, hb, bound, hleast, hlt⟩
      -- the least delay is unique, so it is the one the code computes
      have hbound := hleast.unique (isLeast_serves hv b.toNat)
      refine ⟨BitVec.ofNat 64 bound, deterministicDelay_eq_some.mpr ⟨hv, hb, ?_⟩⟩
      rw [BitVec.toNat_ofNat, Nat.mod_eq_of_lt hlt, hbound]
  · intro b b' d d' hle hd hd'
    obtain ⟨x, hx, hxle⟩ := deterministicDelay_mono hd' hle
    obtain rfl : x = d := Option.some.inj (hx.symm.trans hd)
    exact hxle

/-- Two jobs in front, and the largest backlog, on the curve of the source's own tests. -/
theorem sampleCurve_deviation :
    IsLeast (ServiceController.sampleCurve.Serves 2) 220 ∧ (120 : U64) ≤ 220 ∧
      ∃ d, ServiceController.sampleCurve.deterministicDelay 7 = some d := by
  obtain ⟨hdefined, hleast, hmono⟩ := deterministicDelay_horizontal_deviation ServiceController.sampleCurve
  refine ⟨hleast 2 220 (by decide), hmono 1 2 120 220 (by decide) (by decide) (by decide), ?_⟩
  exact (hdefined 7).mpr ⟨by decide, by decide, 420, hleast 7 420 (by decide), by decide⟩

end ServiceCurve

namespace ServiceController

variable {N : Nat} {s s₁ s' : ServiceController N} {t d b d₁ d₂ b₁ b₂ : U64} {c : AdmissionCertificate}

/-- The parts of a certificate for an admission at `t` with deadline `d` add up over the integers. -/
structure Exact (c : AdmissionCertificate) (t d : U64) : Prop where
  bound : c.delayBoundTicks.toNat
    = c.deterministicDelayTicks.toNat + c.uncertaintyGuardTicks.toNat + c.driftPenaltyTicks.toNat
  slack : t.toNat + c.delayBoundTicks.toNat + c.deadlineSlackTicks.toNat = d.toNat

theorem exact_certificateFor {q : Quote} (hq : s₁.quote t b = .ok q) (hd : q.requiredDeadline ≤ d) :
    Exact (s₁.certificateFor t d b q) t d := by
  obtain ⟨-, -, -, hdelay, hreq⟩ := quote_ok hq
  refine ⟨hdelay, ?_⟩
  have hslack : (d - q.requiredDeadline).toNat = d.toNat - q.requiredDeadline.toNat := BitVec.toNat_sub_of_le hd
  rw [BitVec.le_def] at hd
  show t.toNat + q.delay.toNat + (d - q.requiredDeadline).toNat = d.toNat
  omega

/-- A smaller backlog is quoted, and no larger delay for it. -/
theorem quote_mono {q₁ : Quote} (hq : s.quote t b₁ = .ok q₁) (hb : b₂ ≤ b₁) :
    ∃ q₂, s.quote t b₂ = .ok q₂ ∧ q₂.delay ≤ q₁.delay ∧ q₂.requiredDeadline ≤ q₁.requiredDeadline := by
  obtain ⟨hdet, hunc, hdrift, hdelay, hreq⟩ := quote_ok hq
  obtain ⟨det, hdet₂, hle⟩ := ServiceCurve.deterministicDelay_mono hdet hb
  have hlt := q₁.requiredDeadline.isLt
  rw [BitVec.le_def] at hle
  rw [hdrift] at hdelay
  obtain ⟨q₂, hq₂⟩ := quote_of_fits hdet₂ hunc (show t.toNat + _ < 2 ^ 64 by omega)
  obtain ⟨hdet', hunc', hdrift', hdelay', hreq'⟩ := quote_ok hq₂
  -- only the deterministic part differs between the two quotes
  obtain rfl : det = q₂.deterministic := Option.some.inj (hdet₂.symm.trans hdet')
  have hsame : q₁.uncertainty = q₂.uncertainty := Except.ok.inj (hunc.symm.trans hunc')
  rw [hsame] at hdelay
  rw [hdrift'] at hdelay'
  refine ⟨q₂, hq₂, ?_, ?_⟩
  · rw [BitVec.le_def]
    omega
  · rw [BitVec.le_def]
    omega

/-- **Admission is monotone.** What is granted with a deadline and a backlog is granted with any later deadline
    and any smaller backlog; the controller is left in the same state and the delay bound is no larger; and both
    certificates account for their deadlines exactly. -/
theorem admit_monotone (hd : d₁ ≤ d₂) (hb : b₂ ≤ b₁) {c₁ : AdmissionCertificate}
    (h : s.admitJob t d₁ b₁ = (.ok c₁, s')) :
    ∃ c₂, s.admitJob t d₂ b₂ = (.ok c₂, s') ∧ c₂.delayBoundTicks ≤ c₁.delayBoundTicks ∧
      Exact c₁ t d₁ ∧ Exact c₂ t d₂ := by
  obtain ⟨s₁, q₁, hadv, hroom, hadm, hq₁, hd₁, hseq, rfl, rfl⟩ := admitJob_ok h
  obtain ⟨q₂, hq₂, hdelay, hreq⟩ := quote_mono hq₁ hb
  have hd₂ : q₂.requiredDeadline ≤ d₂ := BitVec.le_trans (BitVec.le_trans hreq hd₁) hd
  refine ⟨_, admitJob_granted hadv (Nat.lt_of_le_of_lt hb hroom) hadm hq₂ hd₂ hseq, hdelay, ?_, ?_⟩
  · exact exact_certificateFor hq₁ hd₁
  · exact exact_certificateFor hq₂ hd₂

theorem admit_monotone_sample :
    ∃ c₂, sampleController.admitJob 1000 1600 0 = (.ok c₂, (sampleController.admitJob 1000 1500 2).2) ∧
      c₂.delayBoundTicks ≤ 221 ∧ Exact c₂ 1000 1600 := by
  have hgranted : ∃ c₁,
      sampleController.admitJob 1000 1500 2 = (.ok c₁, (sampleController.admitJob 1000 1500 2).2) ∧
      c₁.delayBoundTicks = 221 :=
    ⟨((sampleController.admitJob 1000 1500 2).1.toOption.getD .empty), by decide +kernel, by decide +kernel⟩
  obtain ⟨c₁, h₁, hbound⟩ := hgranted
  obtain ⟨c₂, h₂, hle, -, hexact⟩ := admit_monotone (show (1500 : U64) ≤ 1600 by decide)
    (show (0 : U64) ≤ 2 by decide) h₁
  exact ⟨c₂, h₂, hbound ▸ hle, hexact⟩

end ServiceController

end Slope.Service
