import Slope.Lib.Word

/-!
# `Lib.CStr` — strings and pointer blocks in memory

A flat memory, read as 8-byte words (by word address) or as bytes, and the two shapes that process entry
images are made of: NUL-terminated strings, and null-terminated blocks of pointers to them. Both are described
by what they hold (`CString.Stored`, `PointerBlock`), so that a loop over one of them can be proved by
induction on its contents.
-/

namespace Slope

structure Memory where
  word : Nat → U64
  byte : Nat → U8

/-- A pointer and a length. -/
structure ByteSlice where
  ptr : Nat
  len : Nat
deriving DecidableEq

def ByteSlice.bytes (s : ByteSlice) (mem : Memory) : List U8 :=
  (List.range s.len).map fun i => mem.byte (s.ptr + i)

@[simp] theorem ByteSlice.length_bytes (s : ByteSlice) (mem : Memory) : (s.bytes mem).length = s.len := by
  simp [ByteSlice.bytes]

/-- A tail of a slice is the slice of the tail, and a shorter slice is a prefix. -/
theorem ByteSlice.bytes_tail (mem : Memory) (ptr len k n : Nat) (hn : n ≤ len - k) :
    ByteSlice.bytes ⟨ptr + k, n⟩ mem = ((ByteSlice.bytes ⟨ptr, len⟩ mem).drop k).take n := by
  apply List.ext_getElem
  · simp
    omega
  · intro i h₁ h₂
    simp [ByteSlice.bytes, Nat.add_assoc]

/-- A string: where it starts, and its bytes without the terminator. -/
structure CString where
  ptr : U64
  bytes : List U8
deriving DecidableEq

namespace CString

def slice (c : CString) : ByteSlice := ⟨c.ptr.toNat, c.bytes.length⟩

/-- The string is in memory, behind a non-null pointer. -/
structure Stored (mem : Memory) (c : CString) : Prop where
  ptr_ne : c.ptr ≠ 0
  bytes_eq : c.slice.bytes mem = c.bytes
  bytes_ne : ∀ b ∈ c.bytes, b ≠ 0
  terminated : mem.byte (c.ptr.toNat + c.bytes.length) = 0

theorem Stored.byte_ne {mem : Memory} {c : CString} (h : c.Stored mem) {i : Nat}
    (hi : i < c.bytes.length) : mem.byte (c.ptr.toNat + i) ≠ 0 := by
  have hget : (c.slice.bytes mem)[i]? = some (mem.byte (c.ptr.toNat + i)) := by
    simp [ByteSlice.bytes, slice, hi]
  rw [h.bytes_eq] at hget
  exact h.bytes_ne _ (List.mem_of_getElem? hget)

end CString

/-- A block of pointers to the strings, ended by a null pointer. -/
def PointerBlock (mem : Memory) : Nat → List CString → Prop
  | w, [] => mem.word w = 0
  | w, c :: cs => mem.word w = c.ptr ∧ c.Stored mem ∧ PointerBlock mem (w + 1) cs

/-- The rest of a block is a block. -/
theorem PointerBlock.drop {mem : Memory} : ∀ {w : Nat} {cs : List CString} (n : Nat),
    PointerBlock mem w cs → n ≤ cs.length → PointerBlock mem (w + n) (cs.drop n)
  | _, _, 0, h, _ => h
  | _, [], n + 1, _, hn => absurd hn (Nat.not_succ_le_zero n)
  | w, c :: cs, n + 1, h, hn => by
      have hrest := PointerBlock.drop n h.2.2 (Nat.le_of_succ_le_succ hn)
      rwa [Nat.add_assoc, Nat.add_comm 1] at hrest

/-- Each pointer of a block leads to its string. -/
theorem PointerBlock.get {mem : Memory} {w : Nat} {cs : List CString} (h : PointerBlock mem w cs) {i : Nat}
    (hi : i < cs.length) : mem.word (w + i) = cs[i].ptr ∧ cs[i].Stored mem := by
  have hdrop := h.drop i (Nat.le_of_lt hi)
  rw [List.drop_eq_getElem_cons hi] at hdrop
  exact ⟨hdrop.1, hdrop.2.1⟩

end Slope
