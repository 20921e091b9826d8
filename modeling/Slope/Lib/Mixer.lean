import Mathlib.Logic.Equiv.Defs
import Slope.Lib.Word

/-!
# `Lib.Mixer` — invertible word mixing

Hash finalizers of the xorshift–multiply family are permutations of the machine words: `x ^ (x >> k)` can be
undone for every `k > 0`, and so can multiplication by a unit. This file builds these permutations as
equivalences, so that a finalizer is a composition of `Equiv`s and its injectivity comes for free.

`xorMulMix` is the absorbing step built on such a finalizer, `F (state ^ word * c)`; it can be solved for the
state, and for the word, that reaches a given target. So a transcript absorbed word by word ends in a different
state whenever exactly one of its words is changed (`foldl_ne_of_one`).
-/

namespace Slope.Mixer

variable {w : Nat}

/-! ## Xorshift -/

/-- `x ^ (x >> k)`. -/
def xorShiftRight (k : Nat) (x : BitVec w) : BitVec w := x ^^^ (x >>> k)

/-- `n` rounds of `z ↦ y ^ (z >> k)`, starting from `y`. -/
def undoShift (k : Nat) (y : BitVec w) : Nat → BitVec w
  | 0 => y
  | n + 1 => y ^^^ (undoShift k y n >>> k)

theorem ushiftRight_xor (x y : BitVec w) (k : Nat) : (x ^^^ y) >>> k = (x >>> k) ^^^ (y >>> k) := by
  apply BitVec.eq_of_getLsbD_eq
  intro i _
  simp only [BitVec.getLsbD_ushiftRight, BitVec.getLsbD_xor]

/-- After `n` rounds only a shift by `(n + 1) * k` separates the result from the preimage. -/
theorem undoShift_xorShiftRight (k : Nat) (x : BitVec w) (n : Nat) :
    undoShift k (xorShiftRight k x) n = x ^^^ (x >>> ((n + 1) * k)) := by
  induction n with
  | zero => simp [undoShift, xorShiftRight]
  | succ n ih =>
      have hsum : (n + 1) * k + k = (n + 1 + 1) * k := by rw [Nat.succ_mul (n + 1)]
      rw [undoShift, ih, ushiftRight_xor, ← BitVec.shiftRight_add, hsum, xorShiftRight,
        BitVec.xor_assoc, ← BitVec.xor_assoc (x >>> k), BitVec.xor_self, BitVec.zero_xor]

/-- The other composition leaves the same kind of remainder. -/
theorem xorShiftRight_undoShift (k : Nat) (y : BitVec w) (n : Nat) :
    xorShiftRight k (undoShift k y n) = y ^^^ (y >>> ((n + 1) * k)) := by
  induction n with
  | zero => simp [undoShift, xorShiftRight]
  | succ n ih =>
      have hsum : (n + 1) * k + k = (n + 1 + 1) * k := by rw [Nat.succ_mul (n + 1)]
      have hcancel : undoShift k y n ^^^ (y ^^^ (undoShift k y n >>> k)) = y >>> ((n + 1) * k) := by
        rw [← BitVec.xor_assoc, BitVec.xor_comm _ y, BitVec.xor_assoc, ← xorShiftRight, ih,
          ← BitVec.xor_assoc, BitVec.xor_self, BitVec.zero_xor]
      rw [undoShift, xorShiftRight, BitVec.xor_assoc, ← ushiftRight_xor, hcancel, ← BitVec.shiftRight_add,
        hsum]

/-- A shift by at least the width clears the word. -/
theorem shift_out {k : Nat} (hk : 0 < k) (x : BitVec w) : x >>> ((w + 1) * k) = 0 := by
  apply BitVec.eq_of_toNat_eq
  have hle : w ≤ (w + 1) * k := Nat.le_trans (Nat.le_succ w) (Nat.le_mul_of_pos_right _ hk)
  have hlt : x.toNat < 2 ^ ((w + 1) * k) :=
    Nat.lt_of_lt_of_le x.isLt (Nat.pow_le_pow_right (by decide) hle)
  rw [BitVec.toNat_ushiftRight, Nat.shiftRight_eq_div_pow, Nat.div_eq_of_lt hlt]
  rfl

/-- Xorshift by a positive distance is a permutation. -/
def xorShiftRightEquiv (k : Nat) (hk : 0 < k) : BitVec w ≃ BitVec w where
  toFun := xorShiftRight k
  invFun y := undoShift k y w
  left_inv x := by
    show undoShift k (xorShiftRight k x) w = x
    rw [undoShift_xorShiftRight, shift_out hk]; simp
  right_inv y := by
    show xorShiftRight k (undoShift k y w) = y
    rw [xorShiftRight_undoShift, shift_out hk]; simp

/-! ## Multiplication by a unit -/

/-- Multiplication by a word with a multiplicative inverse is a permutation. -/
def mulEquiv (c cinv : BitVec w) (h : c * cinv = 1) : BitVec w ≃ BitVec w where
  toFun x := x * c
  invFun y := y * cinv
  left_inv x := by
    show x * c * cinv = x
    rw [BitVec.mul_assoc, h]; simp
  right_inv y := by
    show y * cinv * c = y
    rw [BitVec.mul_assoc, BitVec.mul_comm cinv, h]; simp

/-! ## The 64-bit finalizer -/

/-- Two rounds of xorshift and multiply, and a last xorshift. -/
def finalizer : U64 ≃ U64 :=
  ((((xorShiftRightEquiv 30 (by decide)).trans
    (mulEquiv 0xbf58476d1ce4e5b9 0x96de1b173f119089 (by decide))).trans
    (xorShiftRightEquiv 27 (by decide))).trans
    (mulEquiv 0x94d049bb133111eb 0x319642b2d24d8ec3 (by decide))).trans
    (xorShiftRightEquiv 31 (by decide))

/-! ## Absorbing a word -/

section

variable (F : BitVec w ≃ BitVec w) (c : BitVec w)

/-- Absorb `word` into `state`. -/
def xorMulMix (state word : BitVec w) : BitVec w := F (state ^^^ word * c)

theorem xor_eq_iff (a b t : BitVec w) : a ^^^ b = t ↔ a = t ^^^ b := by
  constructor
  · rintro rfl; rw [BitVec.xor_assoc, BitVec.xor_self, BitVec.xor_zero]
  · rintro rfl; rw [BitVec.xor_assoc, BitVec.xor_self, BitVec.xor_zero]

/-- Exactly one state absorbs `word` into the target `t`. -/
theorem xorMulMix_eq_iff_state (state word t : BitVec w) :
    xorMulMix F c state word = t ↔ state = F.symm t ^^^ word * c := by
  rw [xorMulMix, ← Equiv.eq_symm_apply, xor_eq_iff]

/-- When the multiplier is a unit, exactly one word takes `state` to the target `t`. -/
theorem xorMulMix_eq_iff_word {cinv : BitVec w} (hc : c * cinv = 1) (state word t : BitVec w) :
    xorMulMix F c state word = t ↔ word = (state ^^^ F.symm t) * cinv := by
  rw [xorMulMix, ← Equiv.eq_symm_apply, BitVec.xor_comm, xor_eq_iff,
    BitVec.xor_comm (F.symm t)]
  exact (mulEquiv c cinv hc).eq_symm_apply.symm

theorem xorMulMix_injective_state (word : BitVec w) : Function.Injective (xorMulMix F c · word) := by
  intro s s' h
  rw [(xorMulMix_eq_iff_state F c s word _).mp h]
  exact ((xorMulMix_eq_iff_state F c s' word _).mp rfl).symm

theorem xorMulMix_injective_word {cinv : BitVec w} (hc : c * cinv = 1) (state : BitVec w) :
    Function.Injective (xorMulMix F c state) := by
  intro a b h
  rw [(xorMulMix_eq_iff_word F c hc state a _).mp h]
  exact ((xorMulMix_eq_iff_word F c hc state b _).mp rfl).symm

end

/-! ## Transcripts -/

section

variable {α σ β : Type*} {absorb : σ → β → σ}

/-- Absorbing the same words keeps different states different. -/
theorem foldl_injective_state (hs : ∀ b, Function.Injective (absorb · b)) (words : List β) :
    Function.Injective (words.foldl absorb) := by
  induction words with
  | nil => exact Function.injective_id
  | cons b words ih =>
      intro s s' h
      exact hs b (ih h)

/-- **One changed word changes the state.** Two transcripts over the same list of fields, whose words differ
    at exactly one of them, end in different states. -/
theorem foldl_ne_of_one (hs : ∀ b, Function.Injective (absorb · b)) (hw : ∀ s, Function.Injective (absorb s))
    {fields : List α} (hn : fields.Nodup) {word word' : α → β} {f : α} (hf : f ∈ fields)
    (hne : word f ≠ word' f) (hsame : ∀ g ∈ fields, g ≠ f → word g = word' g) (s : σ) :
    (fields.map word).foldl absorb s ≠ (fields.map word').foldl absorb s := by
  obtain ⟨before, after, rfl⟩ := List.append_of_mem hf
  obtain ⟨-, htail, hdisj⟩ := List.nodup_append.mp hn
  have hbefore : before.map word = before.map word' := by
    apply List.map_congr_left
    intro g hg
    exact hsame g (by simp [hg]) (hdisj g hg f (by simp))
  have hafter : after.map word = after.map word' := by
    apply List.map_congr_left
    intro g hg
    refine hsame g (by simp [hg]) ?_
    rintro rfl
    exact (List.nodup_cons.mp htail).1 hg
  intro h
  simp only [List.map_append, List.map_cons, List.foldl_append, List.foldl_cons, hbefore, hafter] at h
  exact hne (hw _ (foldl_injective_state hs _ h))

end

end Slope.Mixer
