import Mathlib.Data.Nat.Digits.Lemmas
import Mathlib.Data.List.FinRange
import Slope.Lib.Word

/-!
# `Lib.Bytes` — checked slices and ASCII

A language with bounds-checked arrays has one more way to stop besides its own errors: an index or a range
that does not lie in the array. `Fault ε` keeps the two apart, so that "this code never indexes out of range"
is a statement about results. The operations are the ones of a fixed buffer that is filled and sliced:
`index`, `sliceTo`, `sliceFrom`, `storeAt`, and `copyTo` for `buffer[..n].copy_from_slice(src)`.

`pad` is the normal form of a filled buffer: the bytes written, then zeros. `chunks` cuts a slice into aligned
pieces and `fromLeBytes` reads a piece as a little-endian word. The ASCII classes at the end come with the facts
about case folding that canonicalisation proofs need.
-/

namespace Slope

universe u v

/-- Why a computation stopped: an out-of-range access, or an error of its own. -/
inductive Fault (ε : Type v) where
  | outOfRange
  | failed (err : ε)
deriving DecidableEq

section Slice

variable {ε : Type v} {α β : Type u} {n : Nat}

/-- A sequence of computations succeeded only if each of them did. -/
theorem bind_ok {x : Except ε α} {f : α → Except ε β} {b : β} (h : x >>= f = .ok b) :
    ∃ a, x = .ok a ∧ f a = .ok b := by
  cases x with
  | error err => cases h
  | ok a => exact ⟨a, rfl, h⟩

def index (xs : List α) (i : Nat) : Except (Fault ε) α :=
  match xs[i]? with
  | some a => .ok a
  | none => .error .outOfRange

/-- `xs[..n]` -/
def sliceTo (xs : List α) (n : Nat) : Except (Fault ε) (List α) :=
  if n ≤ xs.length then .ok (xs.take n) else .error .outOfRange

/-- `xs[n..]` -/
def sliceFrom (xs : List α) (n : Nat) : Except (Fault ε) (List α) :=
  if n ≤ xs.length then .ok (xs.drop n) else .error .outOfRange

/-- `buffer[i] = a` -/
def storeAt (buffer : Vector α n) (i : Nat) (a : α) : Except (Fault ε) (Vector α n) :=
  if h : i < n then .ok (buffer.set i a h) else .error .outOfRange

/-- `buffer[..k].copy_from_slice(src)` -/
def copyTo (buffer : Vector α n) (k : Nat) (src : List α) : Except (Fault ε) (Vector α n) :=
  if k ≤ n ∧ src.length = k then
    .ok (Vector.ofFn fun i => src[i.val]?.getD buffer[i])
  else .error .outOfRange

/-- The buffer that holds `xs` from its start and `default` after it. -/
def pad [Inhabited α] (n : Nat) (xs : List α) : Vector α n :=
  Vector.ofFn fun i => xs[i.val]?.getD default

theorem index_zero {a : α} {xs : List α} : index (ε := ε) (a :: xs) 0 = .ok a := rfl

theorem index_eq {xs : List α} {i : Nat} (h : i < xs.length) : index (ε := ε) xs i = .ok xs[i] := by
  unfold index
  rw [List.getElem?_eq_getElem h]

theorem sliceTo_eq {xs : List α} (h : n ≤ xs.length) : sliceTo (ε := ε) xs n = .ok (xs.take n) :=
  if_pos h

theorem sliceFrom_eq {xs : List α} (h : n ≤ xs.length) : sliceFrom (ε := ε) xs n = .ok (xs.drop n) :=
  if_pos h

theorem copyTo_replicate [Inhabited α] {xs : List α} (h : xs.length ≤ n) :
    copyTo (ε := ε) (Vector.replicate n default) xs.length xs = .ok (pad n xs) := by
  unfold copyTo pad
  rw [if_pos ⟨h, rfl⟩]
  simp

/-- Slicing a padded buffer at the length of its contents gives the contents back. -/
theorem take_pad [Inhabited α] {xs : List α} (h : xs.length ≤ n) :
    (pad n xs).toList.take xs.length = xs := by
  apply List.ext_getElem
  · simp; omega
  · intro i h₁ h₂
    simp [pad, List.getElem?_eq_getElem h₂]

theorem pad_nil [Inhabited α] : pad n ([] : List α) = Vector.replicate n default := by
  ext i hi
  simp [pad]

/-- Storing just past the contents appends to them. -/
theorem storeAt_pad [Inhabited α] {xs : List α} (h : xs.length < n) (a : α) :
    storeAt (ε := ε) (pad n xs) xs.length a = .ok (pad n (xs ++ [a])) := by
  unfold storeAt
  rw [dif_pos h]
  congr 1
  ext i hi
  rw [Vector.getElem_set]
  by_cases hix : xs.length = i
  · subst hix
    simp [pad]
  · rw [if_neg hix]
    rcases Nat.lt_or_gt_of_ne hix with hlt | hgt
    · have hnone : (xs ++ [a])[i]? = none := List.getElem?_eq_none (by simp; omega)
      simp [pad, hnone, List.getElem?_eq_none (Nat.le_of_lt hlt)]
    · simp [pad, List.getElem?_append_left hgt]

/-- Storing just past contents that are an image. -/
theorem storeAt_pad_map [Inhabited α] {γ : Type*} (f : γ → α) {xs : List γ} (h : xs.length < n) (c : γ) :
    storeAt (ε := ε) (pad n (xs.map f)) xs.length (f c) = .ok (pad n ((xs ++ [c]).map f)) := by
  have hstore : storeAt (ε := ε) (pad n (xs.map f)) (xs.map f).length (f c) = .ok (pad n (xs.map f ++ [f c])) :=
    storeAt_pad (by rwa [List.length_map]) (f c)
  rwa [List.length_map, ← List.map_singleton, ← List.map_append] at hstore

/-- Slicing a padded buffer at the length of contents that are an image. -/
theorem sliceTo_pad_map [Inhabited α] {γ : Type*} (f : γ → α) {xs : List γ} (h : xs.length ≤ n) :
    sliceTo (ε := ε) (pad n (xs.map f)).toList xs.length = .ok (xs.map f) := by
  have htake : (pad n (xs.map f)).toList.take (xs.map f).length = xs.map f := take_pad (by rwa [List.length_map])
  rw [List.length_map] at htake
  rw [sliceTo_eq (by simpa using h), htake]

theorem getElem_pad [Inhabited α] {xs : List α} {i : Nat} (hi : i < n) (hx : i < xs.length) :
    (pad n xs)[i] = xs[i] := by
  simp [pad, List.getElem?_eq_getElem hx]

/-- A search whose test never stops is a search with a plain test. -/
theorem anyM_ok {f : α → Except ε Bool} {g : α → Bool} {xs : List α} (h : ∀ a ∈ xs, f a = .ok (g a)) :
    xs.anyM f = .ok (xs.any g) := by
  induction xs with
  | nil => rfl
  | cons a xs ih =>
      obtain ⟨ha, hxs⟩ := List.forall_mem_cons.mp h
      rw [List.anyM_cons, ha, List.any_cons]
      cases hg : g a with
      | true => rfl
      | false => exact ih hxs

/-- Some element occurs among the ones before it exactly when the list repeats itself. -/
theorem any_take_contains [BEq α] [LawfulBEq α] (xs : List α) :
    (xs.zipIdx.any fun p => (xs.take p.2).contains p.1) = true ↔ ¬ xs.Nodup := by
  rw [List.any_eq_true, List.Nodup, List.pairwise_iff_getElem]
  constructor
  · rintro ⟨⟨a, j⟩, hmem, hcontains⟩ hdistinct
    obtain ⟨hj, ha⟩ := List.mem_zipIdx' hmem
    obtain ⟨i, hi, heq⟩ := List.mem_iff_getElem.mp (List.contains_iff_mem.mp hcontains)
    rw [List.length_take] at hi
    rw [List.getElem_take] at heq
    exact hdistinct i j (by omega) hj (by omega) (heq.trans ha)
  · intro hrepeat
    simp only [not_forall, not_not] at hrepeat
    obtain ⟨i, j, hi, hj, hij, heq⟩ := hrepeat
    refine ⟨(xs[j], j), List.mk_mem_zipIdx_iff_getElem?.mpr (List.getElem?_eq_getElem hj), ?_⟩
    rw [List.contains_iff_mem, ← heq, List.mem_take_iff_getElem]
    exact ⟨i, by omega, rfl⟩

/-- `xs.chunks(k)`: consecutive pieces of `k` elements, the last one possibly shorter. -/
def chunks (k : Nat) (xs : List α) : List (List α) :=
  (List.range ((xs.length + k - 1) / k)).map fun i => (xs.drop (k * i)).take k

theorem chunks_of_length_mul {k m : Nat} (hk : 0 < k) {xs : List α} (h : xs.length = k * m) :
    chunks k xs = (List.finRange m).map fun i => (xs.drop (k * i.val)).take k := by
  have hm : (xs.length + k - 1) / k = m := by
    rw [h, Nat.add_sub_assoc hk, Nat.mul_add_div hk, Nat.div_eq_of_lt (by omega), Nat.add_zero]
  rw [chunks, hm, ← List.map_coe_finRange_eq_range, List.map_map]
  rfl

/-- Storing within the contents replaces an element of them. -/
theorem storeAt_pad_set [Inhabited α] {xs : List α} {i : Nat} (hi : i < xs.length) (hn : xs.length ≤ n) (a : α) :
    storeAt (ε := ε) (pad n xs) i a = .ok (pad n (xs.set i a)) := by
  rw [storeAt, dif_pos (by omega)]
  congr 1
  ext j hj
  rw [Vector.getElem_set]
  by_cases hij : i = j
  · subst hij
    simp [pad, hi]
  · simp [pad, hij]

/-- Reading within the contents. -/
theorem index_pad [Inhabited α] {xs : List α} {i : Nat} (hi : i < xs.length) (hn : xs.length ≤ n) :
    index (ε := ε) (pad n xs).toList i = .ok xs[i] := by
  rw [index_eq (by simp; omega)]
  simp [pad, List.getElem?_eq_getElem hi]

end Slice

/-! ## Checked `usize` arithmetic -/

inductive Overflow where
  | overflow
deriving DecidableEq

def usizeAdd (a b : Nat) : Except (Fault Overflow) Nat :=
  if a + b < 2 ^ 64 then .ok (a + b) else .error (.failed .overflow)

def usizeSub (a b : Nat) : Except (Fault Overflow) Nat :=
  if b ≤ a then .ok (a - b) else .error (.failed .overflow)

def usizeMul (a b : Nat) : Except (Fault Overflow) Nat :=
  if a * b < 2 ^ 64 then .ok (a * b) else .error (.failed .overflow)

theorem usizeAdd_eq {a b : Nat} (h : a + b < 2 ^ 64) : usizeAdd a b = .ok (a + b) := if_pos h

theorem usizeSub_eq {a b : Nat} (h : b ≤ a) : usizeSub a b = .ok (a - b) := if_pos h

theorem usizeMul_eq {a b : Nat} (h : a * b < 2 ^ 64) : usizeMul a b = .ok (a * b) := if_pos h

/-! ## Little-endian words -/

def fromLeBytes (bytes : List U8) : U64 := BitVec.ofNat 64 (Nat.ofDigits 256 (bytes.map BitVec.toNat))

theorem fromLeBytes_injective {xs ys : List U8} (hx : xs.length = 8) (hy : ys.length = 8)
    (h : fromLeBytes xs = fromLeBytes ys) : xs = ys := by
  have hdigit : ∀ zs : List U8, ∀ d ∈ zs.map BitVec.toNat, d < 256 := by
    intro zs d hd
    obtain ⟨b, -, rfl⟩ := List.mem_map.mp hd
    exact b.isLt
  have hlt : ∀ zs : List U8, zs.length = 8 → Nat.ofDigits 256 (zs.map BitVec.toNat) < 2 ^ 64 := by
    intro zs hz
    have := Nat.ofDigits_lt_base_pow_length (by decide) (hdigit zs)
    rwa [List.length_map, hz] at this
  have hval := congrArg BitVec.toNat h
  simp only [fromLeBytes, BitVec.toNat_ofNat, Nat.mod_eq_of_lt (hlt xs hx), Nat.mod_eq_of_lt (hlt ys hy)] at hval
  have hmap : xs.map BitVec.toNat = ys.map BitVec.toNat :=
    Nat.ofDigits_inj_of_len_eq (by decide) (by simp [hx, hy]) (hdigit xs) (hdigit ys) hval
  exact List.map_injective_iff.mpr (fun a b => BitVec.eq_of_toNat_eq) hmap

def toLeBytes (w : U64) : List U8 := (List.range 8).map fun i => BitVec.ofNat 8 (w.toNat / 256 ^ i)

theorem length_toLeBytes (w : U64) : (toLeBytes w).length = 8 := by
  rw [toLeBytes, List.length_map, List.length_range]

theorem fromLeBytes_toLeBytes (w : U64) : fromLeBytes (toLeBytes w) = w := by
  have hw := w.isLt
  apply BitVec.eq_of_toNat_eq
  -- the eight digits, written out
  simp only [fromLeBytes, toLeBytes, List.range, List.range.loop, List.map_cons, List.map_nil,
    BitVec.toNat_ofNat, Nat.ofDigits_cons, Nat.ofDigits_nil]
  omega

/-! ## ASCII -/

namespace Ascii

def isAsciiDigit (b : U8) : Bool := 0x30 ≤ b && b ≤ 0x39
def isAsciiUppercase (b : U8) : Bool := 0x41 ≤ b && b ≤ 0x5a
def isAsciiLowercase (b : U8) : Bool := 0x61 ≤ b && b ≤ 0x7a
def isAsciiAlphanumeric (b : U8) : Bool := isAsciiDigit b || isAsciiUppercase b || isAsciiLowercase b
def isAsciiGraphic (b : U8) : Bool := 0x21 ≤ b && b ≤ 0x7e
def toAsciiLowercase (b : U8) : U8 := if isAsciiUppercase b then b ||| 0x20 else b

theorem toAsciiLowercase_idem (b : U8) : toAsciiLowercase (toAsciiLowercase b) = toAsciiLowercase b := by
  revert b; decide +kernel

theorem isAsciiAlphanumeric_lower (b : U8) :
    isAsciiAlphanumeric (toAsciiLowercase b) = isAsciiAlphanumeric b := by
  revert b; decide +kernel

theorem toAsciiLowercase_of_not_alphanumeric {b : U8} (hb : isAsciiAlphanumeric b = false) :
    toAsciiLowercase b = b := by
  unfold isAsciiAlphanumeric at hb
  simp only [Bool.or_eq_false_iff] at hb
  unfold toAsciiLowercase
  rw [hb.1.2]
  rfl

/-- Case folding neither makes nor unmakes a byte that is not a letter. -/
theorem toAsciiLowercase_eq_iff {b c : U8} (hc : isAsciiAlphanumeric c = false) :
    toAsciiLowercase b = c ↔ b = c := by
  constructor
  · intro h
    have hb : isAsciiAlphanumeric b = false := by rw [← isAsciiAlphanumeric_lower, h, hc]
    rwa [toAsciiLowercase_of_not_alphanumeric hb] at h
  · rintro rfl
    exact toAsciiLowercase_of_not_alphanumeric hc

end Ascii

end Slope
