import Slope.Lib.Server
import Slope.Service.Staircase

/-!
# `Service.Deadline` — what an admission promises

The controller never sees the server: it quotes a delay from the curve and grants the admission when the deadline
leaves room for it. Here the server is put next to it. Whatever first-come first-served server stands behind the
controller, when it offers the staircase of `Service.Staircase` a granted job departs before its deadline; and
`deterministic_delay` is the least delay of which that can be said (`Lib.Server`).
-/

namespace Slope.Service

open Word Server

namespace ServiceCurve

variable {c : ServiceCurve} {b d : U64} {δ : Nat}

/-- What the staircase guarantees in two stretches it guarantees in one: the latency is paid once. -/
theorem guaranteed_superadditive (c : ServiceCurve) : Superadditive c.guaranteed := by
  intro u v
  unfold guaranteed
  generalize c.latencyTicks.toNat = latency
  generalize c.windowTicks.toNat = window
  rw [← Nat.mul_add]
  refine Nat.mul_le_mul_left _ ?_
  by_cases hu : u ≤ latency
  · rw [Nat.sub_eq_zero_of_le hu, Nat.zero_div, Nat.zero_add]
    exact Nat.div_le_div_right (by omega)
  · calc (u - latency) / window + (v - latency) / window
      _ ≤ ((u - latency) + (v - latency)) / window := Nat.div_add_div_le_add_div
      _ ≤ (u + v - latency) / window := Nat.div_le_div_right (by omega)

/-- A delay that serves is never below the latency, so the curve alone decides it. -/
theorem mem_serves_iff : δ ∈ c.Serves b.toNat ↔ b.toNat + 1 ≤ c.guaranteed δ := by
  constructor
  · intro hserves
    exact hserves.2
  · intro hreach
    refine ⟨?_, hreach⟩
    by_contra hshort
    rw [guaranteed, Nat.sub_eq_zero_of_le (by omega), Nat.zero_div, Nat.mul_zero] at hreach
    omega

/-- The delays that serve on the staircase are those within which every server that offers it serves. -/
theorem serves_eq_servedWithin (c : ServiceCurve) (b : U64) :
    c.Serves b.toNat = {δ | ServedWithin c.guaranteed b.toNat δ} := by
  ext δ
  rw [Set.mem_ofPred_eq, servedWithin_iff c.guaranteed_superadditive, mem_serves_iff]

end ServiceCurve

namespace ServiceController

variable {N : Nat} {curve : ServiceCurve} {nowTick secret t d b : U64} {s₀ s : ServiceController N}
  {h : List (ControllerEvent N)} {e : ControllerEvent N} {c : AdmissionCertificate}

/-- What the calls of a granted admission say about its certificate. -/
theorem granted_parts (h₀ : new N curve nowTick secret = .ok s₀) (hr : Run step (fun _ _ => True) s₀ h s)
    (he : e ∈ h) (hcall : e.call = .admitJob t d b) (hresult : e.result = .ok (.admitted c)) :
    curve.deterministicDelay b = some c.deterministicDelayTicks ∧ Exact c t d := by
  have hevent := hr.event_of he
  obtain ⟨h₁, h₂, hsplit⟩ := List.append_of_mem he
  obtain ⟨hpre, -, -⟩ := hr.cut hsplit
  have hcurve : e.pre.curve = curve := by
    obtain ⟨-, -, -, g, cal, -, -, hs₀⟩ := new_ok h₀
    have hstart : s₀.curve = curve := by rw [hs₀]
    have hnone : Run step (fun _ _ => True) s₀ [] s₀ := .start
    exact (identity_run (windowTicks_pos_run h₀ hnone) hpre).1.trans hstart
  rcases ha : e.pre.admitJob t d b with ⟨f | c', s'⟩
  · rw [hevent, hcall] at hresult
    simp [Event.of, step, ha, Except.map] at hresult
  · obtain ⟨s₁, q, hadv, -, -, hq, hd, -, rfl, -⟩ := admitJob_ok ha
    rw [hevent, hcall] at hresult
    obtain rfl : s₁.certificateFor t d b q = c := by
      simpa [Event.of, step, ha, Except.map] using hresult
    have hclock := advance_clockStep (windowTicks_pos_run h₀ hpre) t
    rw [hadv] at hclock
    refine ⟨?_, exact_certificateFor hq hd⟩
    have hdet := (quote_ok hq).1
    rw [hclock.curve, hcurve] at hdet
    exact hdet

/-- **What an admission promises.** Whoever calls, take any admission granted along a run, at tick `t` with `b` jobs
    in front and deadline `d`. On every first-come first-served server that offers the curve, each job that finds at
    most `b` others in front of it at `t` has departed by the deterministic delay, by the delay bound and by the
    deadline, in this order; and no smaller delay than the deterministic one can be promised of all those servers. -/
theorem granted_meets_deadline (h₀ : new N curve nowTick secret = .ok s₀)
    (hr : Run step (fun _ _ => True) s₀ h s) (he : e ∈ h) (hcall : e.call = .admitJob t d b)
    (hresult : e.result = .ok (.admitted c)) :
    IsLeast {δ | ServedWithin curve.guaranteed b.toNat δ} c.deterministicDelayTicks.toNat ∧
    ∀ σ : Server, σ.Offers curve.guaranteed → ∀ n, σ.Finds n t.toNat b.toNat →
      n ≤ σ.departed (t.toNat + c.deterministicDelayTicks.toNat) ∧
      n ≤ σ.departed (t.toNat + c.delayBoundTicks.toNat) ∧ n ≤ σ.departed d.toNat := by
  obtain ⟨hdet, hexact⟩ := granted_parts h₀ hr he hcall hresult
  have hleast := ServiceCurve.deterministicDelay_isLeast hdet
  rw [ServiceCurve.serves_eq_servedWithin] at hleast
  refine ⟨hleast, ?_⟩
  intro σ hoffers n hfinds
  have hgone := hleast.1 σ hoffers n t.toNat hfinds
  have hbound := hexact.bound
  have hslack := hexact.slack
  exact ⟨hgone, Nat.le_trans hgone (σ.departed_mono (by omega)), Nat.le_trans hgone (σ.departed_mono (by omega))⟩

/-- The third of three jobs, with two in front: `20 + 2 · 100` ticks, and no fewer. -/
theorem granted_meets_deadline_sample :
    IsLeast {δ | ServedWithin sampleCurve.guaranteed 2 δ} 220 ∧
    ∀ σ : Server, σ.Offers sampleCurve.guaranteed → ∀ n, σ.Finds n 1000 2 → n ≤ σ.departed 1500 := by
  have hr := Run.replay step sampleController [.admitJob 1000 1500 2]
  have hgranted : (step sampleController (.admitJob 1000 1500 2)).1
      = .ok (.admitted ((sampleController.admitJob 1000 1500 2).1.toOption.getD .empty)) := by decide +kernel
  obtain ⟨hleast, hserves⟩ := granted_meets_deadline (t := 1000) (d := 1500) (b := 2) sampleController_new hr
    (List.mem_singleton.mpr rfl) rfl hgranted
  have hdet : ((sampleController.admitJob 1000 1500 2).1.toOption.getD .empty).deterministicDelayTicks.toNat = 220 := by
    decide +kernel
  rw [hdet] at hleast
  exact ⟨hleast, fun σ hoffers n hfinds => (hserves σ hoffers n hfinds).2.2⟩

end ServiceController

end Slope.Service
