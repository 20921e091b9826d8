import Mathlib.Order.Bounds.Basic
import Mathlib.Order.Monotone.Basic

/-!
# `Lib.Server` — a first-come first-served server and its service curve

Time counts in ticks and jobs are numbered from one in the order they arrive. A server is two counts, the jobs that
have arrived and those that have departed by a tick; served in order, job `n` is gone by `t` exactly when
`n ≤ departed t`. A server *offers* a curve `β` when over every stretch on which it always has a job waiting it
serves at least `β` of the length of the stretch.

How long a job waits that finds `b` others in front of it is then decided by the curve alone (`servedWithin_iff`):
it is gone after `δ` ticks on every server that offers `β` exactly when `β δ` reaches `b + 1`. One direction is the
argument that the server was busy all the while; the other runs a server that does no more than the curve asks.
-/

namespace Slope

structure Server where
  arrived : Nat → Nat
  departed : Nat → Nat
  arrived_mono : Monotone arrived
  departed_mono : Monotone departed
  departed_le : ∀ t, departed t ≤ arrived t

namespace Server

variable {β : Nat → Nat} {σ : Server} {n t u b δ δ' : Nat}

/-- Some job is waiting at every tick from `u` to `t`. -/
def Busy (σ : Server) (u t : Nat) : Prop := ∀ v, u ≤ v → v ≤ t → σ.departed v < σ.arrived v

/-- On every busy stretch at least `β` of its length is served. -/
def Offers (σ : Server) (β : Nat → Nat) : Prop :=
  ∀ u t, u ≤ t → σ.Busy u t → σ.departed u + β (t - u) ≤ σ.departed t

/-- At tick `t` job `n` has arrived, with at most `b` jobs in front of it. -/
def Finds (σ : Server) (n t b : Nat) : Prop := n ≤ σ.arrived t ∧ n ≤ σ.departed t + (b + 1)

/-- While job `n` waits, the server is busy. -/
theorem busy_of_waiting (hn : n ≤ σ.arrived u) (hwaits : σ.departed t < n) : σ.Busy u t := by
  intro v huv hvt
  calc σ.departed v
    _ ≤ σ.departed t := σ.departed_mono hvt
    _ < n := hwaits
    _ ≤ σ.arrived u := hn
    _ ≤ σ.arrived v := σ.arrived_mono huv

/-- A job with `b` in front of it has departed once the curve reaches `b + 1`. -/
theorem Offers.departs (hoffers : σ.Offers β) (hfinds : σ.Finds n t b) (hreach : b + 1 ≤ β δ) :
    n ≤ σ.departed (t + δ) := by
  by_contra hwaits
  have hbusy := busy_of_waiting hfinds.1 (Nat.not_le.mp hwaits)
  have hserved := hoffers t (t + δ) (Nat.le_add_right t δ) hbusy
  rw [Nat.add_sub_cancel_left] at hserved
  have hfront := hfinds.2
  omega

/-- Every job that finds at most `b` others in front of it has departed `δ` ticks later, on every server that offers
    the curve. -/
def ServedWithin (β : Nat → Nat) (b δ : Nat) : Prop :=
  ∀ σ : Server, σ.Offers β → ∀ n t, σ.Finds n t b → n ≤ σ.departed (t + δ)

/-! ## The slowest server -/

/-- What is served in two stretches is served in one of both lengths. -/
def Superadditive (β : Nat → Nat) : Prop := ∀ u v, β u + β v ≤ β (u + v)

theorem Superadditive.mono (hβ : Superadditive β) : Monotone β := by
  intro u v huv
  have h := hβ u (v - u)
  rw [Nat.add_sub_cancel' huv] at h
  omega

/-- `b + 1` jobs arrive at the first tick and are served as the curve asks, no faster. -/
def slowest (hβ : Superadditive β) (b : Nat) : Server where
  arrived _ := b + 1
  departed t := min (b + 1) (β t)
  arrived_mono := monotone_const
  departed_mono := fun u v huv => by
    have hcurve := hβ.mono huv
    show min (b + 1) (β u) ≤ min (b + 1) (β v)
    omega
  departed_le _ := Nat.min_le_left _ _

theorem slowest_offers (hβ : Superadditive β) : (slowest hβ b).Offers β := by
  intro u t hut hbusy
  have hlast : min (b + 1) (β t) < b + 1 := hbusy t hut (Nat.le_refl t)
  have hsum := hβ u (t - u)
  rw [Nat.add_sub_cancel' hut] at hsum
  show min (b + 1) (β u) + β (t - u) ≤ min (b + 1) (β t)
  omega

theorem slowest_finds (hβ : Superadditive β) : (slowest hβ b).Finds (b + 1) 0 b :=
  ⟨Nat.le_refl _, Nat.le_add_left _ _⟩

/-- **The horizontal deviation is the exact bound.** -/
theorem servedWithin_iff (hβ : Superadditive β) : ServedWithin β b δ ↔ b + 1 ≤ β δ := by
  constructor
  · intro hserved
    have hgone := hserved (slowest hβ b) (slowest_offers hβ) (b + 1) 0 (slowest_finds hβ)
    rw [Nat.zero_add] at hgone
    exact Nat.le_trans hgone (Nat.min_le_right _ _)
  · intro hreach σ hoffers n t hfinds
    exact hoffers.departs hfinds hreach

end Server

end Slope
