import Mathlib.Tactic.Ring
import Slope.Lib.Word

/-!
# `Lib.Field` — words as sets of flags and as packed fields

Two readings of one machine word. As a set of flags, `a &&& ~~~b` is what `a` has and `b` has not, and its
emptiness is inclusion. As packed fields, `a ||| b <<< k` puts `b` above the `k` low bits that `a` may use, and
is the sum `a + b * 2 ^ k`; a word built field by field is the number that its layout makes of the fields, and the
fields come back by division and remainder.
-/

namespace Slope.Word

variable {w : Nat}

/-! ## Flags -/

/-- Every flag of `a` is a flag of `b`. -/
def Within (a b : BitVec w) : Prop := ∀ i, a.getLsbD i = true → b.getLsbD i = true

theorem and_not_eq_zero {a b : BitVec w} : a &&& ~~~b = 0 ↔ Within a b := by
  constructor
  · intro h i ha
    have hi : i < w := BitVec.lt_of_getLsbD ha
    have hbit : (a &&& ~~~b).getLsbD i = false := by rw [h]; exact BitVec.getLsbD_zero
    rw [BitVec.getLsbD_and, ha, BitVec.getLsbD_not] at hbit
    simpa [hi] using hbit
  · intro h
    refine BitVec.eq_of_getLsbD_eq fun i hi => ?_
    rw [BitVec.getLsbD_and, BitVec.getLsbD_not]
    cases ha : a.getLsbD i with
    | false => simp
    | true => simp [h i ha]

theorem within_zero {a : BitVec w} : Within a 0 ↔ a = 0 := by
  rw [← and_not_eq_zero]
  simp

/-! ## Fields -/

/-- **Packing is a sum**, as long as the low field keeps to its bits and the high one fits. -/
theorem toNat_pack {a b : BitVec w} {k : Nat} (ha : a.toNat < 2 ^ k) (hb : b.toNat * 2 ^ k < 2 ^ w) :
    (a ||| b <<< k).toNat = a.toNat + b.toNat * 2 ^ k := by
  rw [BitVec.toNat_or, BitVec.toNat_shiftLeft, Nat.shiftLeft_eq, Nat.mod_eq_of_lt hb, Nat.or_comm, ← Nat.shiftLeft_eq,
    ← Nat.shiftLeft_add_eq_or_of_lt ha, Nat.shiftLeft_eq, Nat.add_comm]

/-! ## Layouts

A layout is a list of field widths, lowest field first. -/

/-- The number that a layout makes of the values of its fields; a value that does not fit is cut. -/
def pack : List Nat → List Nat → Nat
  | [], _ => 0
  | width :: widths, values => values.headD 0 % 2 ^ width + 2 ^ width * pack widths values.tail

/-- The fields of a number. -/
def unpack : List Nat → Nat → List Nat
  | [], _ => []
  | width :: widths, n => n % 2 ^ width :: unpack widths (n / 2 ^ width)

theorem pack_lt (widths values : List Nat) : pack widths values < 2 ^ widths.sum := by
  induction widths generalizing values with
  | nil => exact Nat.one_pos
  | cons width widths ih =>
      have hlow := Nat.mod_lt (values.headD 0) (Nat.two_pow_pos width)
      have hhigh := Nat.mul_le_mul_left (2 ^ width) (Nat.succ_le_of_lt (ih values.tail))
      rw [Nat.mul_succ] at hhigh
      rw [pack, List.sum_cons, Nat.pow_add]
      omega

/-- **What was packed comes back**, cut to the widths. -/
theorem unpack_pack (widths values : List Nat) (hlen : values.length = widths.length) :
    unpack widths (pack widths values) = List.zipWith (fun width v => v % 2 ^ width) widths values := by
  induction widths generalizing values with
  | nil => rfl
  | cons width widths ih =>
      cases values with
      | nil => cases hlen
      | cons v values =>
          have hlow := Nat.mod_lt v (Nat.two_pow_pos width)
          rw [unpack, pack, List.zipWith_cons_cons, List.headD_cons, List.tail_cons, Nat.add_mul_mod_self_left,
            Nat.mod_mod, Nat.add_mul_div_left _ _ (Nat.two_pow_pos width), Nat.div_eq_of_lt hlow, Nat.zero_add,
            ih values (Nat.succ.inj hlen)]

/-- A number is packed from its fields, as far as the layout reaches. -/
theorem pack_unpack (widths : List Nat) (n : Nat) : pack widths (unpack widths n) = n % 2 ^ widths.sum := by
  induction widths generalizing n with
  | nil => rw [List.sum_nil, Nat.pow_zero, Nat.mod_one]; rfl
  | cons width widths ih =>
      rw [unpack, pack, List.headD_cons, List.tail_cons, ih, Nat.mod_mod, List.sum_cons, Nat.pow_add, Nat.mod_mul]

/-- **Packing is faithful up to the cuts**: the same number exactly for the same cut values. -/
theorem pack_eq_iff {widths values values' : List Nat} (hlen : values.length = widths.length)
    (hlen' : values'.length = widths.length) :
    pack widths values = pack widths values' ↔
      List.zipWith (fun width v => v % 2 ^ width) widths values
        = List.zipWith (fun width v => v % 2 ^ width) widths values' := by
  constructor
  · intro h
    rw [← unpack_pack widths values hlen, ← unpack_pack widths values' hlen', h]
  · intro h
    rw [← unpack_pack widths values hlen, ← unpack_pack widths values' hlen'] at h
    have hpack := congrArg (pack widths) h
    rwa [pack_unpack, pack_unpack, Nat.mod_eq_of_lt (pack_lt ..), Nat.mod_eq_of_lt (pack_lt ..)] at hpack

/-! ### Words built field by field -/

theorem pack_snoc {widths values : List Nat} (hlen : values.length = widths.length) (width v : Nat) :
    pack (widths ++ [width]) (values ++ [v]) = pack widths values + v % 2 ^ width * 2 ^ widths.sum := by
  induction widths generalizing values with
  | nil =>
      obtain rfl := List.length_eq_zero_iff.mp hlen
      show v % 2 ^ width + 2 ^ width * 0 = 0 + v % 2 ^ width * 2 ^ 0
      omega
  | cons width' widths ih =>
      cases values with
      | nil => cases hlen
      | cons v' values =>
          rw [List.cons_append, List.cons_append, pack, pack, List.headD_cons, List.tail_cons, List.headD_cons,
            List.tail_cons, ih (Nat.succ.inj hlen), List.sum_cons, Nat.pow_add]
          ring

theorem toNat_field {a : BitVec w} {width v : Nat} (h : a.toNat = v % 2 ^ width) : a.toNat = pack [width] [v] := h

/-- **A field on top.** A word of a layout of `k` bits, with one more field above it. -/
theorem toNat_push {a b : BitVec w} {widths values : List Nat} {k width v : Nat} (ha : a.toNat = pack widths values)
    (hlen : values.length = widths.length) (hk : widths.sum = k) (hb : b.toNat = v % 2 ^ width)
    (hfit : k + width ≤ w) : (a ||| b <<< k).toNat = pack (widths ++ [width]) (values ++ [v]) := by
  subst hk
  have hlow : a.toNat < 2 ^ widths.sum := ha ▸ pack_lt widths values
  have hhigh : b.toNat * 2 ^ widths.sum < 2 ^ w := by
    calc b.toNat * 2 ^ widths.sum < 2 ^ width * 2 ^ widths.sum :=
          Nat.mul_lt_mul_of_pos_right (hb ▸ Nat.mod_lt v (Nat.two_pow_pos width)) (Nat.two_pow_pos _)
      _ = 2 ^ (widths.sum + width) := by rw [Nat.pow_add, Nat.mul_comm]
      _ ≤ 2 ^ w := Nat.pow_le_pow_right (by decide) hfit
  rw [toNat_pack hlow hhigh, pack_snoc hlen, ha, hb]

end Slope.Word
