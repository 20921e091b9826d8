import Slope.Lib.Word

/-!
# `Lib.AddressSpace` — a flat memory of bytes

Every 64-bit address holds a byte. A store of `bytes` at `addr` replaces the bytes at `addr`, `addr + 1`, …, and
a load reads as many from its own address on; address arithmetic wraps. Loads and stores are related only where
nothing wraps: a load reads back a store at the same address, and does not see one of a disjoint range.
-/

namespace Slope

abbrev AddressSpace := U64 → U8

namespace AddressSpace

def store (m : AddressSpace) (addr : U64) (bytes : List U8) : AddressSpace :=
  fun x => bytes.getD (x - addr).toNat (m x)

def load (m : AddressSpace) (addr : U64) (len : Nat) : List U8 :=
  (List.range len).map fun i => m (addr + BitVec.ofNat 64 i)

/-- The offset of an address from the start of a range it lies in. -/
theorem toNat_add_sub_self (addr : U64) {i : Nat} (hi : i < 2 ^ 64) :
    (addr + BitVec.ofNat 64 i - addr).toNat = i := by
  rw [BitVec.add_comm, BitVec.add_sub_cancel, BitVec.toNat_ofNat, Nat.mod_eq_of_lt hi]

theorem load_store_same (m : AddressSpace) (addr : U64) {bytes : List U8} (h : bytes.length ≤ 2 ^ 64) :
    (m.store addr bytes).load addr bytes.length = bytes := by
  unfold load store
  apply List.ext_getElem
  · rw [List.length_map, List.length_range]
  · intro i _ hi
    rw [List.getElem_map, List.getElem_range, toNat_add_sub_self addr (by omega),
      List.getD_eq_getElem?_getD, List.getElem?_eq_getElem hi, Option.getD_some]

/-- The ranges of `len` bytes at `addr` and `k` bytes at `addr'` do not meet, and neither wraps. -/
structure Apart (addr : U64) (len : Nat) (addr' : U64) (k : Nat) : Prop where
  fits : addr.toNat + len ≤ 2 ^ 64
  fits' : addr'.toNat + k ≤ 2 ^ 64
  apart : addr.toNat + len ≤ addr'.toNat ∨ addr'.toNat + k ≤ addr.toNat

theorem load_store_of_apart (m : AddressSpace) {addr addr' : U64} {len : Nat} {bytes : List U8}
    (h : Apart addr len addr' bytes.length) : (m.store addr' bytes).load addr len = m.load addr len := by
  obtain ⟨hfit, hfit', hapart⟩ := h
  unfold load
  apply List.map_congr_left
  intro i hi
  rw [List.mem_range] at hi
  unfold store
  have hoff : bytes.length ≤ (addr + BitVec.ofNat 64 i - addr').toNat := by
    have hx : (addr + BitVec.ofNat 64 i).toNat = addr.toNat + i := by
      rw [BitVec.toNat_add, BitVec.toNat_ofNat, Nat.mod_eq_of_lt (by omega : i < 2 ^ 64),
        Nat.mod_eq_of_lt (by omega)]
    rw [BitVec.toNat_sub, hx]
    omega
  rw [List.getD_eq_getElem?_getD, List.getElem?_eq_none hoff, Option.getD_none]

end AddressSpace

end Slope
