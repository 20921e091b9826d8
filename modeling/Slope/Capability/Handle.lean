import Slope.Env.Lookup
import Slope.Lib.Bytes

/-!
# `Capability.Handle` — capability handles from the environment

A capability reaches a process as a number in an environment variable. `parse_handle` reads it in radix 10, or
in radix 16 after a `0x` prefix, with `_` as a separator that may stand anywhere; `recv` looks the variable up
under its primary and its legacy key.

The reader is a left fold with two checked operations. Its accumulator only ever grows (`le_horner`), so an
overflow on the way is an overflow of the number as a whole, and the fold of the digits is their positional
value (`horner_eq_ofDigits`).
-/

namespace Slope.Capability

open Slope Word Env

inductive CapabilityError where
  | missing | malformed | nullHandle | overflow
deriving DecidableEq

/-- `b'_'`. -/
def underscore : U8 := 0x5f

/-! ## The reader -/

/-- The value of a byte as a digit, before it is compared with the radix. -/
def digitOf (radix : U64) (byte : U8) : Option U64 :=
  if 0x30 ≤ byte ∧ byte ≤ 0x39 then some ((byte - 0x30).setWidth 64)
  else if (0x61 ≤ byte ∧ byte ≤ 0x66) ∧ radix = 16 then some ((byte - 0x61 + 10).setWidth 64)
  else if (0x41 ≤ byte ∧ byte ≤ 0x46) ∧ radix = 16 then some ((byte - 0x41 + 10).setWidth 64)
  else none

/-- The loop of `parse_handle`: the value and the number of digits consumed. -/
def parseDigits (radix : U64) : List U8 → U64 → Nat → Except CapabilityError (U64 × Nat)
  | [], value, consumed => .ok (value, consumed)
  | byte :: bytes, value, consumed =>
    if byte = underscore then parseDigits radix bytes value consumed
    else
      match digitOf radix byte with
      | none => .error .malformed
      | some digit =>
        -- never taken: the letters are digits in radix 16 only
        if radix ≤ digit then .error .malformed
        else
          match (checkedMul value radix).bind (checkedAdd · digit) with
          | none => .error .overflow
          | some value => parseDigits radix bytes value (consumed + 1)

/-- `bytes.starts_with(b"0x") || bytes.starts_with(b"0X")` -/
def hexPrefixed (bytes : List U8) : Bool := [0x30, 0x78].isPrefixOf bytes || [0x30, 0x58].isPrefixOf bytes

def parseHandle (bytes : List U8) : Except CapabilityError U64 :=
  let (radix, digits) := if hexPrefixed bytes then ((16 : U64), bytes.drop 2) else (10, bytes)
  if digits.isEmpty then .error .malformed
  else
    match parseDigits radix digits 0 0 with
    | .error err => .error err
    | .ok (value, consumed) => if consumed = 0 then .error .malformed else .ok value

/-! ## The envelope -/

structure Right where
  envKey : PhaseKey
  legacyEnvKey : Option PhaseKey

/-- `s.as_bytes()` for an ASCII literal. -/
def asBytes (s : String) : List U8 := s.toList.map fun c => BitVec.ofNat 8 c.toNat

def declareRight (key legacy : String) : Right where
  envKey := .fromBytes (asBytes key)
  legacyEnvKey := some (.fromBytes (asBytes legacy))

def fabricRight : Right := declareRight "ARACH_CAP_FABRIC" "SISYPHUS_CAP_FABRIC"
def resonanceRight : Right := declareRight "ARACH_CAP_RESONANCE" "SISYPHUS_CAP_RESONANCE"
def schedulerRight : Right := declareRight "ARACH_CAP_SCHEDULER" "SISYPHUS_CAP_SCHEDULER"
def learningRight : Right := declareRight "ARACH_CAP_LEARNING" "SISYPHUS_CAP_LEARNING"
def dmaRight : Right := declareRight "ARACH_CAP_DMA" "SISYPHUS_CAP_DMA"
def deviceMemoryRight : Right := declareRight "ARACH_CAP_DEVICE_MEMORY" "SISYPHUS_CAP_DEVICE_MEMORY"

structure CapHandle (R : Right) where
  raw : U64
deriving DecidableEq

structure CapabilityEnvelope where
  environment : EnvSnapshot

def CapabilityEnvelope.recv (envelope : CapabilityEnvelope) (mem : Memory) (R : Right) :
    Except CapabilityError (CapHandle R) :=
  let bytes := (envelope.environment.get R.envKey).or (R.legacyEnvKey.bind envelope.environment.get)
  match bytes with
  | none => .error .missing
  | some bytes =>
    match parseHandle (bytes.bytes mem) with
    | .error err => .error err
    | .ok raw => if raw = 0 then .error .nullHandle else .ok ⟨raw⟩

/-! ## Positional values -/

/-- Reading digits from the left, onto what was read before. -/
def horner (radix value : Nat) (digits : List Nat) : Nat := digits.foldl (fun value d => value * radix + d) value

theorem horner_cons (radix value d : Nat) (digits : List Nat) :
    horner radix value (d :: digits) = horner radix (value * radix + d) digits := rfl

/-- What has been read is never lost. -/
theorem le_horner {radix : Nat} (hradix : 0 < radix) (value : Nat) (digits : List Nat) :
    value ≤ horner radix value digits := by
  induction digits generalizing value with
  | nil => exact Nat.le_refl _
  | cons d digits ih =>
      calc value ≤ value * radix := Nat.le_mul_of_pos_right _ hradix
        _ ≤ value * radix + d := Nat.le_add_right ..
        _ ≤ horner radix (value * radix + d) digits := ih _

theorem horner_eq_ofDigits (radix : Nat) (digits : List Nat) :
    horner radix 0 digits = Nat.ofDigits radix digits.reverse := by
  rw [Nat.ofDigits_eq_foldr, List.foldr_reverse, horner]
  congr 1
  funext value d
  simp [Nat.mul_comm, Nat.add_comm]

/-! ## What a byte string denotes -/

/-- Radix 16 after `0x` or `0X`, else 10. -/
def radixOf (bytes : List U8) : Nat :=
  if bytes.take 2 = [0x30, 0x78] ∨ bytes.take 2 = [0x30, 0x58] then 16 else 10

/-- What stands after `0x` or `0X`, else everything. -/
def digitBytes (bytes : List U8) : List U8 :=
  if bytes.take 2 = [0x30, 0x78] ∨ bytes.take 2 = [0x30, 0x58] then bytes.drop 2 else bytes

/-- The value of a byte as a digit of the radix, in either letter case. -/
def digitValue (radix : Nat) (byte : U8) : Option Nat :=
  if Ascii.isAsciiDigit byte then some (byte.toNat - 0x30)
  else if radix = 16 ∧ 0x61 ≤ byte.toNat ∧ byte.toNat ≤ 0x66 then some (byte.toNat - 0x61 + 10)
  else if radix = 16 ∧ 0x41 ≤ byte.toNat ∧ byte.toNat ≤ 0x46 then some (byte.toNat - 0x41 + 10)
  else none

/-- A separator or a digit. -/
def wellFormed (radix : Nat) (byte : U8) : Bool := byte == underscore || (digitValue radix byte).isSome

/-- The value of the digits among the bytes, most significant first. -/
def valueOf (radix : Nat) (bytes : List U8) : Nat :=
  Nat.ofDigits radix (bytes.filterMap (digitValue radix)).reverse

/-- **A handle's text.** After the prefix there are only separators and digits of the radix, there is a digit,
    and `v` is the value of the digits. -/
structure Denotes (bytes : List U8) (v : U64) : Prop where
  well_formed : ∀ b ∈ digitBytes bytes, wellFormed (radixOf bytes) b = true
  has_digit : (digitBytes bytes).filterMap (digitValue (radixOf bytes)) ≠ []
  value : v.toNat = valueOf (radixOf bytes) (digitBytes bytes)

/-! ## One digit -/

/-- The two checked operations of one digit: the exact value if it fits a word. -/
theorem checked_step_some {value radix digit v : U64} :
    (checkedMul value radix).bind (checkedAdd · digit) = some v
      ↔ v.toNat = value.toNat * radix.toNat + digit.toNat := by
  rw [Option.bind_eq_some_iff]
  constructor
  · rintro ⟨p, hp, hv⟩
    rw [checkedMul_eq_some] at hp
    rw [checkedAdd_eq_some, hp] at hv
    exact hv
  · intro hv
    have hlt : value.toNat * radix.toNat < 2 ^ 64 := by
      have := v.isLt
      omega
    have hp : (BitVec.ofNat 64 (value.toNat * radix.toNat)).toNat = value.toNat * radix.toNat := by
      rw [BitVec.toNat_ofNat, Nat.mod_eq_of_lt hlt]
    exact ⟨_, checkedMul_eq_some.mpr hp, checkedAdd_eq_some.mpr (by rw [hp, hv])⟩

theorem checked_step_none {value radix digit : U64} :
    (checkedMul value radix).bind (checkedAdd · digit) = none
      ↔ 2 ^ 64 ≤ value.toNat * radix.toNat + digit.toNat := by
  constructor
  · intro hnone
    by_contra hlt
    have hfits : (BitVec.ofNat 64 (value.toNat * radix.toNat + digit.toNat)).toNat
        = value.toNat * radix.toNat + digit.toNat := by
      rw [BitVec.toNat_ofNat, Nat.mod_eq_of_lt (by omega)]
    rw [checked_step_some.mpr hfits] at hnone
    cases hnone
  · intro hle
    rw [Option.eq_none_iff_forall_not_mem]
    intro v hv
    have hval := checked_step_some.mp hv
    have hlt := v.isLt
    omega

/-- The match on a byte finds its digit value, which is always below the radix. -/
theorem digitOf_eq {radix : U64} (hradix : radix = 10 ∨ radix = 16) (byte : U8) :
    digitValue radix.toNat byte = (digitOf radix byte).map BitVec.toNat ∧
      (digitOf radix byte).all (fun d => decide (d < radix)) = true := by
  rcases hradix with rfl | rfl
  · revert byte
    decide +kernel
  · revert byte
    decide +kernel

theorem digitValue_underscore (radix : Nat) : digitValue radix underscore = none := by
  simp [digitValue, underscore, Ascii.isAsciiDigit]

section

variable {radix : U64} (hradix : radix = 10 ∨ radix = 16) {bytes : List U8}

include hradix

/-- **One byte.** A separator is skipped, a byte that is no digit ends the reading, and a digit is appended to
    the value if the result fits a word. -/
theorem parseDigits_cons (byte : U8) (bytes : List U8) (value : U64) (consumed : Nat) :
    (byte = underscore ∧ parseDigits radix (byte :: bytes) value consumed = parseDigits radix bytes value consumed) ∨
    (byte ≠ underscore ∧ digitValue radix.toNat byte = none ∧
      parseDigits radix (byte :: bytes) value consumed = .error .malformed) ∨
    ∃ d, byte ≠ underscore ∧ digitValue radix.toNat byte = some d ∧
      ((2 ^ 64 ≤ value.toNat * radix.toNat + d ∧
          parseDigits radix (byte :: bytes) value consumed = .error .overflow) ∨
        ∃ next : U64, next.toNat = value.toNat * radix.toNat + d ∧
          parseDigits radix (byte :: bytes) value consumed = parseDigits radix bytes next (consumed + 1)) := by
  by_cases hsep : byte = underscore
  · exact Or.inl ⟨hsep, by rw [parseDigits, if_pos hsep]⟩
  · obtain ⟨hvalue, hbelow⟩ := digitOf_eq hradix byte
    cases hdigit : digitOf radix byte with
    | none =>
        rw [hdigit] at hvalue
        exact Or.inr (Or.inl ⟨hsep, hvalue, by rw [parseDigits, if_neg hsep, hdigit]⟩)
    | some digit =>
        rw [hdigit] at hvalue hbelow
        have hlt : ¬ radix ≤ digit := by simpa using hbelow
        refine Or.inr (Or.inr ⟨digit.toNat, hsep, hvalue, ?_⟩)
        rw [parseDigits, if_neg hsep, hdigit]
        simp only [if_neg hlt]
        cases hstep : (checkedMul value radix).bind (checkedAdd · digit) with
        | none => exact Or.inl ⟨checked_step_none.mp hstep, rfl⟩
        | some next => exact Or.inr ⟨next, checked_step_some.mp hstep, rfl⟩

/-- **Reading to the end** succeeds exactly when every byte is a separator or a digit and the value fits. -/
theorem parseDigits_ok {value : U64} {consumed : Nat} {v : U64} {n : Nat} :
    parseDigits radix bytes value consumed = .ok (v, n) ↔
      (∀ b ∈ bytes, wellFormed radix.toNat b = true) ∧
      v.toNat = horner radix.toNat value.toNat (bytes.filterMap (digitValue radix.toNat)) ∧
      n = consumed + (bytes.filterMap (digitValue radix.toNat)).length := by
  induction bytes generalizing value consumed with
  | nil =>
      simp only [parseDigits, Except.ok.injEq, Prod.mk.injEq, List.filterMap_nil, horner, List.foldl_nil,
        List.length_nil, Nat.add_zero]
      constructor
      · rintro ⟨rfl, rfl⟩
        exact ⟨by simp, rfl, rfl⟩
      · rintro ⟨-, hv, rfl⟩
        exact ⟨(BitVec.eq_of_toNat_eq hv).symm, rfl⟩
  | cons byte bytes ih =>
      rw [List.forall_mem_cons]
      rcases parseDigits_cons hradix byte bytes value consumed with
        ⟨rfl, hparse⟩ | ⟨hsep, hnone, hparse⟩ | ⟨d, hsep, hdigit, hrest⟩
      · rw [hparse, ih, List.filterMap_cons_none (digitValue_underscore _)]
        simp [wellFormed]
      · rw [hparse]
        simp [wellFormed, hsep, hnone]
      · rw [List.filterMap_cons_some hdigit, horner_cons]
        rcases hrest with ⟨hbig, hparse⟩ | ⟨next, hnext, hparse⟩
        · -- the value only grows from here, so no word can hold the result
          rw [hparse]
          have hpos : 0 < radix.toNat := by rcases hradix with rfl | rfl <;> decide
          have hgrow := le_horner hpos (value.toNat * radix.toNat + d) (bytes.filterMap (digitValue radix.toNat))
          constructor
          · intro h
            cases h
          · rintro ⟨-, hv, -⟩
            have := v.isLt
            omega
        · rw [hparse, ih, hnext]
          simp only [wellFormed, hdigit, Option.isSome_some, Bool.or_true, true_and, List.length_cons]
          rw [Nat.add_assoc, Nat.add_comm 1]

/-- **Overflow** is reported only when the digits before the first offending byte are worth it. -/
theorem parseDigits_overflow {value : U64} {consumed : Nat}
    (h : parseDigits radix bytes value consumed = .error .overflow) :
    2 ^ 64 ≤ horner radix.toNat value.toNat
      ((bytes.takeWhile (wellFormed radix.toNat)).filterMap (digitValue radix.toNat)) := by
  induction bytes generalizing value consumed with
  | nil => cases h
  | cons byte bytes ih =>
      rcases parseDigits_cons hradix byte bytes value consumed with
        ⟨rfl, hparse⟩ | ⟨hsep, hnone, hparse⟩ | ⟨d, hsep, hdigit, hrest⟩
      · rw [hparse] at h
        rw [List.takeWhile_cons_of_pos (by simp [wellFormed]),
          List.filterMap_cons_none (digitValue_underscore _)]
        exact ih h
      · rw [hparse] at h
        cases h
      · rw [List.takeWhile_cons_of_pos (by simp [wellFormed, hdigit]), List.filterMap_cons_some hdigit, horner_cons]
        rcases hrest with ⟨hbig, -⟩ | ⟨next, hnext, hparse⟩
        · have hpos : 0 < radix.toNat := by rcases hradix with rfl | rfl <;> decide
          exact hbig.trans (le_horner hpos _ _)
        · rw [hparse] at h
          rw [← hnext]
          exact ih h

end

/-! ## The whole text -/

theorem hexPrefixed_iff (bytes : List U8) :
    hexPrefixed bytes = true ↔ bytes.take 2 = [0x30, 0x78] ∨ bytes.take 2 = [0x30, 0x58] := by
  rw [hexPrefixed, Bool.or_eq_true, List.isPrefixOf_iff_prefix, List.isPrefixOf_iff_prefix, List.prefix_iff_eq_take,
    List.prefix_iff_eq_take]
  exact or_congr eq_comm eq_comm

/-- The radix and the digits that `parse_handle` goes on with. -/
theorem parseHandle_eq (bytes : List U8) :
    ∃ radix : U64, (radix = 10 ∨ radix = 16) ∧ radix.toNat = radixOf bytes ∧
      parseHandle bytes
        = if (digitBytes bytes).isEmpty then .error .malformed
          else match parseDigits radix (digitBytes bytes) 0 0 with
            | .error err => .error err
            | .ok (value, consumed) => if consumed = 0 then .error .malformed else .ok value := by
  rw [parseHandle, radixOf, digitBytes]
  simp only [← hexPrefixed_iff]
  cases hexPrefixed bytes with
  | true => exact ⟨16, Or.inr rfl, rfl, rfl⟩
  | false => exact ⟨10, Or.inl rfl, rfl, rfl⟩

/-- `parse_handle` accepts the texts that denote a handle, with the value they denote. -/
theorem parseHandle_ok {bytes : List U8} {v : U64} : parseHandle bytes = .ok v ↔ Denotes bytes v := by
  obtain ⟨radix, hradix, hval, heq⟩ := parseHandle_eq bytes
  have hzero : (0 : U64).toNat = 0 := rfl
  rw [heq]
  constructor
  · intro h
    split at h
    · cases h
    · split at h
      · cases h
      · next value consumed hparse =>
        split at h
        · cases h
        · next hpos =>
          obtain rfl := Except.ok.inj h
          obtain ⟨hall, hv, hn⟩ := (parseDigits_ok hradix).mp hparse
          rw [hval] at hall hv hn
          refine ⟨hall, ?_, by rw [hv, hzero, horner_eq_ofDigits, valueOf]⟩
          intro hnil
          rw [hnil] at hn
          exact hpos hn
  · rintro ⟨hall, hdigit, hv⟩
    have hne : ¬ (digitBytes bytes).isEmpty = true := by
      intro hempty
      rw [List.isEmpty_iff] at hempty
      rw [hempty] at hdigit
      exact hdigit rfl
    rw [valueOf, ← horner_eq_ofDigits, ← hval] at hv
    rw [← hval] at hall hdigit
    have hparse := (@parseDigits_ok radix hradix (digitBytes bytes) 0 0 v _).mpr ⟨hall, hv, rfl⟩
    rw [if_neg hne, hparse]
    simp only [Nat.zero_add, List.length_eq_zero_iff, if_neg hdigit]

theorem parseHandle_overflow {bytes : List U8} (h : parseHandle bytes = .error .overflow) :
    2 ^ 64 ≤ valueOf (radixOf bytes) ((digitBytes bytes).takeWhile (wellFormed (radixOf bytes))) := by
  obtain ⟨radix, hradix, hval, heq⟩ := parseHandle_eq bytes
  rw [heq] at h
  split at h
  · cases h
  · split at h
    · next err hparse =>
      obtain rfl := Except.error.inj h
      have hbig := parseDigits_overflow hradix hparse
      rwa [hval, show (0 : U64).toNat = 0 from rfl, horner_eq_ofDigits] at hbig
    · split at h <;> cases h

/-- **Handles are read exactly.** `parse_handle` returns a value just when the text denotes it, reports an
    overflow only when the digits before the first offending byte denote at least `2 ^ 64`, and `recv` returns
    only handles that are not null and that the primary key's entry denotes, or the legacy key's entry when the
    primary key is absent. -/
theorem handles_exact :
    (∀ (bytes : List U8) (v : U64), parseHandle bytes = .ok v ↔ Denotes bytes v) ∧
    (∀ bytes : List U8, parseHandle bytes = .error .overflow →
      2 ^ 64 ≤ valueOf (radixOf bytes) ((digitBytes bytes).takeWhile (wellFormed (radixOf bytes)))) ∧
    ∀ (environment : EnvSnapshot) (mem : Memory) (R : Right) (handle : CapHandle R),
      (CapabilityEnvelope.mk environment).recv mem R = .ok handle →
      handle.raw ≠ 0 ∧
      ((∃ s, environment.get R.envKey = some s ∧ Denotes (s.bytes mem) handle.raw) ∨
        environment.get R.envKey = none ∧ ∃ legacy s, R.legacyEnvKey = some legacy ∧
          environment.get legacy = some s ∧ Denotes (s.bytes mem) handle.raw) := by
  refine ⟨fun bytes v => parseHandle_ok, fun bytes => parseHandle_overflow, ?_⟩
  intro environment mem R handle h
  rw [CapabilityEnvelope.recv] at h
  split at h
  · cases h
  · next s hentry =>
    split at h
    · cases h
    · next raw hparse =>
      split at h
      · cases h
      · next hraw =>
        obtain rfl := Except.ok.inj h
        refine ⟨hraw, ?_⟩
        have hdenotes := parseHandle_ok.mp hparse
        rcases Option.or_eq_some_iff.mp hentry with hprimary | ⟨hnone, hlegacy⟩
        · exact Or.inl ⟨s, hprimary, hdenotes⟩
        · obtain ⟨legacy, hkey, hget⟩ := Option.bind_eq_some_iff.mp hlegacy
          exact Or.inr ⟨hnone, legacy, s, hkey, hget, hdenotes⟩

/-- A snapshot whose only entry is the legacy variable of the fabric right, with the value `7`. -/
def legacyFabric : EnvSnapshot where
  entries := EnvSnapshot.empty.entries.set 0 ⟨fnv1aConst (asBytes "SISYPHUS_CAP_FABRIC"), 4096, 1⟩ (by decide)
  count := 1

def legacyMemory : Memory where
  word := fun _ => 0
  byte := fun _ => 0x37

/-- `0xF_f` is 255, `2 ^ 64` is too large, and the legacy variable is read when the primary one is absent. -/
theorem handles_sample :
    Denotes [0x30, 0x78, 0x46, 0x5f, 0x66] 255 ∧
    2 ^ 64 ≤ valueOf 10 (asBytes "18446744073709551616") ∧
    (CapabilityEnvelope.mk legacyFabric).recv legacyMemory fabricRight = .ok ⟨7⟩ ∧
    legacyFabric.get fabricRight.envKey = none := by
  have hrecv : (CapabilityEnvelope.mk legacyFabric).recv legacyMemory fabricRight = .ok ⟨7⟩ := by decide +kernel
  refine ⟨(handles_exact.1 _ _).mp (by decide), ?_, hrecv, ?_⟩
  · exact handles_exact.2.1 (asBytes "18446744073709551616") (by decide +kernel)
  · obtain ⟨-, ⟨s, hs, -⟩ | ⟨hnone, -⟩⟩ := handles_exact.2.2 _ _ _ _ hrecv
    · have hprimary : legacyFabric.get fabricRight.envKey = none := by decide +kernel
      rw [hprimary] at hs
      cases hs
    · exact hnone

end Slope.Capability
