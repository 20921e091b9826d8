import Mathlib.Logic.Function.Basic
import Slope.Lib.Word

/-!
# `Lib.Bitmap` — sets of positions as arrays of 64-bit words

Position `i` is bit `i % 64` of word `i / 64`. The single-bit updates are written as programs write them, with
a shifted one and a mask; the lemmas say what they do to membership, and how to test and find members.
-/

namespace Slope

/-- `1 << bit`. -/
def bitMask (bit : Nat) : U64 := 1#64 <<< bit

theorem getLsbD_bitMask {i bit : Nat} (hi : i < 64) : (bitMask bit).getLsbD i = decide (i = bit) := by
  rw [bitMask, BitVec.getLsbD_shiftLeft, BitVec.getLsbD_one]
  by_cases h : i < bit
  · have : i ≠ bit := by omega
    simp [h, this]
  · by_cases heq : i = bit
    · subst heq; simp [hi]
    · have : i - bit ≠ 0 := by omega
      simp [heq, this]

theorem getLsbD_clear (x : U64) {i bit : Nat} (hi : i < 64) :
    (x &&& ~~~bitMask bit).getLsbD i = (x.getLsbD i && decide (i ≠ bit)) := by
  rw [BitVec.getLsbD_and, BitVec.getLsbD_not, getLsbD_bitMask hi]
  simp [hi]

theorem getLsbD_set (x : U64) {i bit : Nat} (hi : i < 64) :
    (x ||| bitMask bit).getLsbD i = (x.getLsbD i || decide (i = bit)) := by
  rw [BitVec.getLsbD_or, getLsbD_bitMask hi]

/-- The mask of one bit selects that bit. -/
theorem and_bitMask_eq_zero (x : U64) {bit : Nat} (hbit : bit < 64) :
    x &&& bitMask bit = 0 ↔ x.getLsbD bit = false := by
  constructor
  · intro h
    have hb := congrArg (·.getLsbD bit) h
    simp only [BitVec.getLsbD_and, getLsbD_bitMask hbit] at hb
    simpa using hb
  · intro h
    apply BitVec.eq_of_getLsbD_eq
    intro i hi
    rw [BitVec.getLsbD_and, getLsbD_bitMask hi]
    by_cases hib : i = bit
    · subst hib; simp [h]
    · simp [hib]

abbrev Bitmap (k : Nat) := Fin k → U64

namespace Bitmap

variable {k : Nat}

def get (b : Bitmap k) (i : Nat) : Bool :=
  if h : i / 64 < k then (b ⟨i / 64, h⟩).getLsbD (i % 64) else false

/-- `words[w] &= !(1 << bit)`. -/
def clear (b : Bitmap k) (w : Fin k) (bit : Nat) : Bitmap k :=
  Function.update b w (b w &&& ~~~bitMask bit)

/-- `words[w] |= 1 << bit`. -/
def set (b : Bitmap k) (w : Fin k) (bit : Nat) : Bitmap k :=
  Function.update b w (b w ||| bitMask bit)

theorem get_eq (b : Bitmap k) (w : Fin k) {bit : Nat} (hbit : bit < 64) :
    b.get (w * 64 + bit) = (b w).getLsbD bit := by
  have hdiv : (w * 64 + bit) / 64 = w := by omega
  have hmod : (w * 64 + bit) % 64 = bit := by omega
  have hw : (w * 64 + bit) / 64 < k := by rw [hdiv]; exact w.isLt
  rw [get, dif_pos hw, hmod]
  congr 2
  exact Fin.ext hdiv

/-- Replacing one word replaces the positions in it. -/
theorem get_update (b : Bitmap k) (w : Fin k) (x : U64) (i : Nat) :
    get (Function.update b w x) i = if i / 64 = w then x.getLsbD (i % 64) else b.get i := by
  unfold get
  by_cases hlt : i / 64 < k
  · rw [dif_pos hlt, dif_pos hlt]
    by_cases hw : (⟨i / 64, hlt⟩ : Fin k) = w
    · rw [hw, Function.update_self, if_pos (congrArg Fin.val hw)]
    · rw [Function.update_of_ne hw, if_neg fun h => hw (Fin.ext h)]
  · have hout : i / 64 ≠ w := by
      have := w.isLt
      omega
    rw [dif_neg hlt, dif_neg hlt, if_neg hout]

/-- A position is in one word, at one bit. -/
theorem position_iff {i w bit : Nat} (hbit : bit < 64) : i = w * 64 + bit ↔ i / 64 = w ∧ i % 64 = bit := by
  omega

/-- A position of word `w` reads that word. -/
theorem get_of_word (b : Bitmap k) {w : Fin k} {i : Nat} (h : i / 64 = w) : b.get i = (b w).getLsbD (i % 64) := by
  have hi : i = w * 64 + i % 64 := by omega
  calc b.get i
    _ = b.get (w * 64 + i % 64) := congrArg b.get hi
    _ = (b w).getLsbD (i % 64) := get_eq b w (by omega)

theorem get_clear (b : Bitmap k) (w : Fin k) {bit : Nat} (hbit : bit < 64) (i : Nat) :
    (b.clear w bit).get i = (b.get i && decide (i ≠ w * 64 + bit)) := by
  unfold clear
  rw [get_update]
  split
  · next hw =>
    rw [getLsbD_clear _ (by omega), get_of_word b hw]
    simp only [ne_eq, position_iff hbit, hw, true_and]
  · next hw => simp [position_iff hbit, hw]

theorem get_set (b : Bitmap k) (w : Fin k) {bit : Nat} (hbit : bit < 64) (i : Nat) :
    (b.set w bit).get i = (b.get i || decide (i = w * 64 + bit)) := by
  unfold set
  rw [get_update]
  split
  · next hw =>
    rw [getLsbD_set _ (by omega), get_of_word b hw]
    simp only [position_iff hbit, hw, true_and]
  · next hw => simp [position_iff hbit, hw]

/-- A nonzero word has its lowest member at its count of trailing zeros. -/
theorem get_trailingZeros (b : Bitmap k) {w : Fin k} (h : b w ≠ 0) :
    (b w).ctz.toNat < 64 ∧ b.get (w * 64 + (b w).ctz.toNat) = true := by
  have hlt : (b w).ctz.toNat < 64 := BitVec.ctz_lt_iff_ne_zero.mpr h
  refine ⟨hlt, ?_⟩
  rw [get_eq b w hlt]
  exact BitVec.getLsbD_true_ctz_of_ne_zero h

end Bitmap

end Slope
