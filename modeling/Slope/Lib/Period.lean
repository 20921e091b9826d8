import Mathlib.Data.Nat.Init

/-!
# `Lib.Period` — whole periods on a clock

A clock that counts in periods of `w` ticks remembers where its current period began and, when it is next read,
rolls that start forward by the whole periods that have elapsed. The lemmas say that rolling is independent of how
often the clock is read: the periods elapsed up to a tick in between and those elapsed from the rolled start add
up, and rolling twice is rolling once. A bound on what happens in each period is a bound on what happens in every
interval (`countP_between_le`).
-/

namespace Slope.Period

variable {w a t t₁ t₂ : Nat}

/-- The whole periods from `a` to `t`. -/
def elapsed (w a t : Nat) : Nat := (t - a) / w

/-- The start of the period that `t` lies in, when periods are counted from `a`. -/
def start (w a t : Nat) : Nat := a + elapsed w a t * w

theorem elapsed_eq_zero_iff (hw : 0 < w) : elapsed w a t = 0 ↔ t - a < w := Nat.div_eq_zero_iff_lt hw

theorem elapsed_mono (h : t₁ ≤ t₂) : elapsed w a t₁ ≤ elapsed w a t₂ :=
  Nat.div_le_div_right (Nat.sub_le_sub_right h a)

/-- The start of the period is not in the future. -/
theorem start_le (h : a ≤ t) : start w a t ≤ t := by
  have hdiv : elapsed w a t * w ≤ t - a := Nat.div_mul_le_self _ _
  unfold start
  omega

/-- And less than a period in the past. -/
theorem lt_start_add (hw : 0 < w) : t < start w a t + w := by
  have hlt : t - a < elapsed w a t * w + w := Nat.lt_div_mul_add hw
  unfold start
  omega

/-- **Elapsed periods add up** across any tick in between. -/
theorem elapsed_add (hw : 0 < w) (h₁ : a ≤ t₁) (h₂ : t₁ ≤ t₂) :
    elapsed w a t₁ + elapsed w (start w a t₁) t₂ = elapsed w a t₂ := by
  have hstart := start_le (w := w) h₁
  have hsplit : t₂ - a = (t₂ - start w a t₁) + elapsed w a t₁ * w := by
    unfold start at hstart ⊢
    omega
  calc elapsed w a t₁ + elapsed w (start w a t₁) t₂
    _ = (t₂ - start w a t₁) / w + elapsed w a t₁ := Nat.add_comm _ _
    _ = ((t₂ - start w a t₁) + elapsed w a t₁ * w) / w := (Nat.add_mul_div_right _ _ hw).symm
    _ = elapsed w a t₂ := by rw [← hsplit, elapsed]

/-- **Rolling twice is rolling once.** -/
theorem start_start (hw : 0 < w) (h₁ : a ≤ t₁) (h₂ : t₁ ≤ t₂) : start w (start w a t₁) t₂ = start w a t₂ := by
  calc start w (start w a t₁) t₂
    _ = a + (elapsed w a t₁ + elapsed w (start w a t₁) t₂) * w := by
        rw [Nat.add_mul, ← Nat.add_assoc, start, start]
    _ = start w a t₂ := by rw [elapsed_add hw h₁ h₂, start]

/-- Periods counted from the start of a later one are the same periods. -/
theorem start_add_mul (hw : 0 < w) {k : Nat} (h : a + k * w ≤ t) : start w (a + k * w) t = start w a t := by
  have hsplit : t - a = (t - (a + k * w)) + k * w := by omega
  unfold start elapsed
  rw [hsplit, Nat.add_mul_div_right _ _ hw, Nat.add_mul]
  omega

/-! ## Counting over an interval

What happens at most `m` times in each period happens a bounded number of times in every interval, wherever the
interval begins. -/

/-- Two ticks are no further apart, in periods, than the whole periods between them and one more. -/
theorem elapsed_le_add (hw : 0 < w) (h : t₁ ≤ t₂) : elapsed w a t₂ ≤ elapsed w a t₁ + ((t₂ - t₁) / w + 1) := by
  have hfirst : t₁ - a < elapsed w a t₁ * w + w := Nat.lt_div_mul_add hw
  have hbetween : t₂ - t₁ < (t₂ - t₁) / w * w + w := Nat.lt_div_mul_add hw
  have hlt : t₂ - a < (elapsed w a t₁ + ((t₂ - t₁) / w + 2)) * w := by
    rw [Nat.add_mul, Nat.add_mul, Nat.two_mul]
    omega
  have hdiv : elapsed w a t₂ < elapsed w a t₁ + ((t₂ - t₁) / w + 2) := (Nat.div_lt_iff_lt_mul hw).mpr hlt
  omega

section

variable {α : Type*} {time : α → Nat} {l : List α} {m : Nat}

/-- What has one of two properties is counted by one of the two counts. -/
theorem countP_le_add {p q r : α → Bool} (h : ∀ x ∈ l, p x = true → q x = true ∨ r x = true) :
    l.countP p ≤ l.countP q + l.countP r := by
  induction l with
  | nil => exact Nat.zero_le _
  | cons x l ih =>
      have hrest := ih fun y hy => h y (List.mem_cons_of_mem x hy)
      have hhead := h x List.mem_cons_self
      simp only [List.countP_cons]
      by_cases hp : p x = true
      · rcases hhead hp with hq | hr
        · rw [if_pos hp, if_pos hq]
          omega
        · rw [if_pos hp, if_pos hr]
          omega
      · rw [if_neg hp]
        omega

/-- `n + 1` periods in a row. -/
theorem countP_periods_le (hm : ∀ k, l.countP (fun x => elapsed w a (time x) == k) ≤ m) (k n : Nat) :
    l.countP (fun x => decide (k ≤ elapsed w a (time x) ∧ elapsed w a (time x) ≤ k + n)) ≤ m * (n + 1) := by
  induction n with
  | zero =>
      refine Nat.le_trans (List.countP_mono_left ?_) (Nat.le_trans (hm k) (by omega))
      intro x _ hx
      have := of_decide_eq_true hx
      exact beq_iff_eq.mpr (by omega)
  | succ n ih =>
      have hlast := hm (k + (n + 1))
      have hsplit := countP_le_add (l := l)
        (p := fun x => decide (k ≤ elapsed w a (time x) ∧ elapsed w a (time x) ≤ k + (n + 1)))
        (q := fun x => decide (k ≤ elapsed w a (time x) ∧ elapsed w a (time x) ≤ k + n))
        (r := fun x => elapsed w a (time x) == k + (n + 1)) ?_
      · rw [Nat.mul_add, Nat.mul_one]
        omega
      · intro x _ hx
        have := of_decide_eq_true hx
        by_cases he : elapsed w a (time x) = k + (n + 1)
        · exact .inr (beq_iff_eq.mpr he)
        · exact .inl (decide_eq_true (by omega))

/-- **Every interval**: at most `m` for each whole period that fits into it, and twice `m` for the periods that its
    two ends cut. -/
theorem countP_between_le (hw : 0 < w) (hm : ∀ k, l.countP (fun x => elapsed w a (time x) == k) ≤ m)
    (h : t₁ ≤ t₂) : l.countP (fun x => decide (t₁ ≤ time x ∧ time x ≤ t₂)) ≤ m * ((t₂ - t₁) / w + 2) := by
  refine Nat.le_trans (List.countP_mono_left ?_)
    (countP_periods_le hm (elapsed w a t₁) ((t₂ - t₁) / w + 1))
  intro x _ hx
  obtain ⟨hfrom, hto⟩ := of_decide_eq_true hx
  have hupper := elapsed_mono (w := w) (a := a) hto
  have hends := elapsed_le_add (a := a) hw h
  exact decide_eq_true ⟨elapsed_mono hfrom, by omega⟩

end

end Slope.Period
