import Mathlib.Data.Nat.Basic
import Slope.Lib.AddressSpace
import Slope.Lib.Bytes

/-!
# `Fabric.Layout` — what `spawn` puts on a fiber's stack

`spawn` carves the top of the caller's buffer: the `FiberArgs` record at an address aligned to 16 bytes, the
closure right behind it, and the stack below. The addresses come from the end of the buffer by a subtraction,
the only check is the minimum length of the buffer, and the closure's own alignment is not looked at. The buffer,
the record and the closure are bytes of one `AddressSpace`, which the new thread reads back.

`usize` arithmetic panics on overflow or wraps, as the crate is built; `checks` says which.
-/

namespace Slope.Fabric

open Slope Word

def minStackBytes : U64 := 4096

/-! ## The record at the top of the stack -/

/-- `FiberArgs`: the code of the fiber, its closure and its outcome word, by address. -/
structure FiberArgs where
  entry : U64
  closure : U64
  outcome : U64
deriving DecidableEq

/-- `size_of::<FiberArgs>()`: three pointers. -/
def fiberArgsBytes : Nat := 24

/-- `align_of::<FiberArgs>()` -/
def fiberArgsAlign : Nat := 8

namespace FiberArgs

def toBytes (args : FiberArgs) : List U8 :=
  toLeBytes args.entry ++ toLeBytes args.closure ++ toLeBytes args.outcome

def ofBytes (bytes : List U8) : FiberArgs where
  entry := fromLeBytes (bytes.take 8)
  closure := fromLeBytes ((bytes.drop 8).take 8)
  outcome := fromLeBytes (bytes.drop 16)

theorem length_toBytes (args : FiberArgs) : args.toBytes.length = fiberArgsBytes := by
  simp only [toBytes, List.length_append, length_toLeBytes]
  rfl

theorem ofBytes_toBytes (args : FiberArgs) : ofBytes args.toBytes = args := by
  have h8 : ∀ w : U64, (toLeBytes w).length = 8 := length_toLeBytes
  unfold ofBytes toBytes
  rw [List.append_assoc, List.take_left' (h8 _), List.drop_left' (h8 _), List.take_left' (h8 _),
    fromLeBytes_toLeBytes, fromLeBytes_toLeBytes, ← List.append_assoc,
    List.drop_left' (by rw [List.length_append, h8, h8]), fromLeBytes_toLeBytes]

end FiberArgs

/-! ## Carving the stack -/

def addUsize (checks : Bool) (a b : U64) : Option U64 := if checks then checkedAdd a b else some (a + b)

def subUsize (checks : Bool) (a b : U64) : Option U64 :=
  if checks ∧ a < b then none else some (a - b)

/-- `x & !15usize` -/
def alignDown (x : U64) : U64 := x &&& ~~~(15 : U64)

/-- The addresses `spawn` computes. -/
structure Layout where
  argsStart : U64
  closStart : U64
  stackTop : U64
deriving DecidableEq

/-- The buffer is the `len` bytes at `stackBuf`; `none` is a panic. -/
def layout (checks : Bool) (stackBuf len : U64) (closureSize : Nat) : Option Layout :=
  if len < minStackBytes then none
  else do
    let totalArgs ← addUsize checks (BitVec.ofNat 64 fiberArgsBytes) (BitVec.ofNat 64 closureSize)
    let bufEnd ← addUsize checks stackBuf len
    let argsStart := alignDown (← subUsize checks bufEnd totalArgs)
    let closStart ← addUsize checks argsStart (BitVec.ofNat 64 fiberArgsBytes)
    -- the stack begins right below the record
    let stackTop := alignDown argsStart
    return { argsStart, closStart, stackTop }

/-- `spawn` up to its system call, which passes `stackTop` and `argsStart` to the kernel. `entry` and `outcome`
    are the addresses of `run_fiber` for this closure and of the fiber's outcome word. -/
def spawn (checks : Bool) (memory : AddressSpace) (stackBuf len : U64) (closure : List U8)
    (entry outcome : U64) : Option (Layout × AddressSpace) := do
  let l ← layout checks stackBuf len closure.length
  let memory := memory.store l.closStart closure
  let memory := memory.store l.argsStart (FiberArgs.toBytes { entry, closure := l.closStart, outcome })
  return (l, memory)

/-- The record that `_fabric_trampoline` finds behind its argument. -/
def fabricTrampoline (memory : AddressSpace) (argsPtr : U64) : FiberArgs :=
  .ofBytes (memory.load argsPtr fiberArgsBytes)

/-- The closure that `run_fiber` moves out of the stack. -/
def runFiber (memory : AddressSpace) (closurePtr : U64) (closureSize : Nat) : List U8 :=
  memory.load closurePtr closureSize

/-! ## The addresses -/

theorem toNat_alignDown (x : U64) : (alignDown x).toNat = x.toNat / 16 * 16 := by
  -- clearing the low four bits is shifting them out and back
  have hshift : alignDown x = (x >>> 4) <<< 4 := by
    apply BitVec.eq_of_getLsbD_eq
    intro i hi
    have h15 : (15 : U64) = (BitVec.allOnes 4).setWidth 64 := rfl
    unfold alignDown
    rw [h15]
    simp only [BitVec.getLsbD_and, BitVec.getLsbD_not, BitVec.getLsbD_setWidth, BitVec.getLsbD_allOnes,
      BitVec.getLsbD_shiftLeft, BitVec.getLsbD_ushiftRight]
    by_cases h4 : i < 4
    · simp [h4, hi]
    · simp [h4, hi, show 4 + (i - 4) = i by omega]
  rw [hshift, BitVec.toNat_shiftLeft, BitVec.toNat_ushiftRight, Nat.shiftLeft_eq, Nat.shiftRight_eq_div_pow]
  have := x.isLt
  omega

theorem addUsize_some {checks : Bool} {a b c : U64} (h : addUsize checks a b = some c) : c = a + b := by
  unfold addUsize at h
  split at h
  · exact eq_add_of_checkedAdd h
  · exact (Option.some.inj h).symm

theorem subUsize_some {checks : Bool} {a b c : U64} (h : subUsize checks a b = some c) : c = a - b := by
  unfold subUsize at h
  split at h
  · cases h
  · exact (Option.some.inj h).symm

/-- **Inversion of `layout`.** However the crate is built, the addresses of a layout are these. -/
theorem layout_some {checks : Bool} {stackBuf len : U64} {closureSize : Nat} {l : Layout}
    (h : layout checks stackBuf len closureSize = some l) :
    minStackBytes ≤ len ∧
    l.argsStart = alignDown
      (stackBuf + len - (BitVec.ofNat 64 fiberArgsBytes + BitVec.ofNat 64 closureSize)) ∧
    l.closStart = l.argsStart + BitVec.ofNat 64 fiberArgsBytes ∧
    l.stackTop = alignDown l.argsStart := by
  unfold layout at h
  split at h
  · cases h
  next hlen =>
  simp only [Option.bind_eq_bind, Option.bind_eq_some_iff, Option.pure_def, Option.some.injEq] at h
  obtain ⟨total, htotal, bufEnd, hend, start, hstart, clos, hclos, rfl⟩ := h
  obtain rfl := addUsize_some htotal
  obtain rfl := addUsize_some hend
  obtain rfl := subUsize_some hstart
  exact ⟨BitVec.not_lt.mp hlen, rfl, addUsize_some hclos, rfl⟩

/-- A buffer of `len` bytes and a closure of `size` bytes, as `spawn` may receive them: the buffer does not wrap,
    and no Rust value is larger than half the address space. -/
structure Buffer (stackBuf len : U64) (size : Nat) : Prop where
  ends : stackBuf.toNat + len.toNat < 2 ^ 64
  size_lt : size < 2 ^ 63

/-- The record and the closure end at or below the end of the buffer. -/
def Reaches (stackBuf len : U64) (size : Nat) : Prop :=
  fiberArgsBytes + size ≤ stackBuf.toNat + len.toNat

section

variable {checks : Bool} {stackBuf len : U64} {size g : Nat} {l : Layout}

/-- The distance from address zero to the carved top of the buffer, before it is aligned. -/
theorem toNat_top (hb : Buffer stackBuf len size) (hr : Reaches stackBuf len size) :
    (stackBuf + len - (BitVec.ofNat 64 fiberArgsBytes + BitVec.ofNat 64 size)).toNat
      = stackBuf.toNat + len.toNat - (fiberArgsBytes + size) := by
  obtain ⟨hend, hsize⟩ := hb
  unfold Reaches fiberArgsBytes at *
  rw [BitVec.toNat_sub, BitVec.toNat_add, BitVec.toNat_add, BitVec.toNat_ofNat, BitVec.toNat_ofNat]
  omega

/-- A closure that does not fit below the end of the buffer wraps the record past it. -/
theorem top_past_end (hb : Buffer stackBuf len size) (hr : ¬ Reaches stackBuf len size) :
    stackBuf.toNat + len.toNat + 16
      ≤ (stackBuf + len - (BitVec.ofNat 64 fiberArgsBytes + BitVec.ofNat 64 size)).toNat := by
  obtain ⟨hend, hsize⟩ := hb
  unfold Reaches fiberArgsBytes at *
  rw [BitVec.toNat_sub, BitVec.toNat_add, BitVec.toNat_add, BitVec.toNat_ofNat, BitVec.toNat_ofNat]
  omega

/-- The addresses as numbers, when the closure fits below the end of the buffer. -/
theorem layout_toNat (hb : Buffer stackBuf len size) (hr : Reaches stackBuf len size)
    (h : layout checks stackBuf len size = some l) :
    l.argsStart.toNat = (stackBuf.toNat + len.toNat - (fiberArgsBytes + size)) / 16 * 16 ∧
    l.closStart.toNat = l.argsStart.toNat + fiberArgsBytes ∧ l.stackTop.toNat = l.argsStart.toNat := by
  obtain ⟨-, hargs, hclos, htop⟩ := layout_some h
  have hstart : l.argsStart.toNat = (stackBuf.toNat + len.toNat - (fiberArgsBytes + size)) / 16 * 16 := by
    rw [hargs, toNat_alignDown, toNat_top hb hr]
  obtain ⟨hend, -⟩ := hb
  unfold Reaches at hr
  refine ⟨hstart, ?_, ?_⟩
  · rw [hclos, BitVec.toNat_add, BitVec.toNat_ofNat, hstart]
    unfold fiberArgsBytes at *
    omega
  · rw [htop, toNat_alignDown, hstart]
    omega

/-! ## Placement -/

/-- **What the layout must be** for a buffer of `len` bytes at `stackBuf` and a closure of `size` bytes aligned to
    `g`: record and closure lie in the buffer, apart from each other and each on its own alignment, and the stack
    top is aligned, below both and inside the buffer. -/
structure Placed (stackBuf len : U64) (size g : Nat) (l : Layout) : Prop where
  args_inside : stackBuf.toNat ≤ l.argsStart.toNat ∧
    l.argsStart.toNat + fiberArgsBytes ≤ stackBuf.toNat + len.toNat
  clos_inside : stackBuf.toNat ≤ l.closStart.toNat ∧ l.closStart.toNat + size ≤ stackBuf.toNat + len.toNat
  apart : AddressSpace.Apart l.argsStart fiberArgsBytes l.closStart size
  args_aligned : fiberArgsAlign ∣ l.argsStart.toNat
  clos_aligned : g ∣ l.closStart.toNat
  top_aligned : 16 ∣ l.stackTop.toNat
  top_below : l.stackTop.toNat ≤ l.argsStart.toNat ∧ l.stackTop.toNat ≤ l.closStart.toNat
  top_above : stackBuf.toNat < l.stackTop.toNat

/-- The closure is aligned to at most eight bytes, and between the start of the buffer and the record there is an
    aligned address. -/
def Roomy (stackBuf len : U64) (size g : Nat) : Prop :=
  g ≤ 8 ∧ 16 * (stackBuf.toNat / 16 + 1) + fiberArgsBytes + size ≤ stackBuf.toNat + len.toNat

theorem placed_of_roomy (hb : Buffer stackBuf len size) (hg : ∃ k, g = 2 ^ k)
    (hroom : Roomy stackBuf len size g) (h : layout checks stackBuf len size = some l) :
    Placed stackBuf len size g l := by
  obtain ⟨hle, hfit⟩ := hroom
  have hr : Reaches stackBuf len size := by
    unfold Reaches
    omega
  obtain ⟨hargs, hclos, htop⟩ := layout_toNat hb hr h
  obtain ⟨hend, -⟩ := hb
  -- a power of two up to eight divides eight
  have hdvd : g ∣ 8 := by
    obtain ⟨k, rfl⟩ := hg
    have hk : k ≤ 3 := by
      by_contra hk
      have := Nat.pow_le_pow_right (show 0 < 2 by decide) (show 4 ≤ k by omega)
      omega
    exact Nat.pow_dvd_pow 2 hk
  have h24 : fiberArgsBytes = 24 := rfl
  refine ⟨⟨by omega, by omega⟩, ⟨by omega, by omega⟩, ⟨by omega, by omega, by omega⟩, ?_, ?_, by omega,
    ⟨by omega, by omega⟩, by omega⟩
  · unfold fiberArgsAlign
    omega
  · exact hdvd.trans (by omega)

theorem roomy_of_placed (hb : Buffer stackBuf len size) (hg : ∃ k, g = 2 ^ k)
    (hp : Placed stackBuf len size g l) (h : layout checks stackBuf len size = some l) :
    Roomy stackBuf len size g := by
  have hr : Reaches stackBuf len size := by
    by_contra hr
    have hpast := top_past_end hb hr
    have hinside := hp.args_inside.2
    obtain ⟨-, hargs, -⟩ := layout_some h
    rw [hargs, toNat_alignDown] at hinside
    omega
  obtain ⟨hargs, hclos, htop⟩ := layout_toNat hb hr h
  have habove := hp.top_above
  have h24 : fiberArgsBytes = 24 := rfl
  unfold Reaches at hr
  unfold Roomy
  constructor
  · -- the closure starts eight bytes past a multiple of sixteen
    obtain ⟨k, rfl⟩ := hg
    by_contra hbig
    have hk : 4 ≤ k := by
      by_contra hk
      have := Nat.pow_le_pow_right (show 0 < 2 by decide) (show k ≤ 3 by omega)
      omega
    have h16 : 16 ∣ l.closStart.toNat := (Nat.pow_dvd_pow 2 hk).trans hp.clos_aligned
    omega
  · omega

end

/-! ## What the new thread finds -/

section

variable {checks : Bool} {memory memory' : AddressSpace} {stackBuf len : U64} {closure : List U8} {g : Nat}
  {entry outcome : U64} {l : Layout}

/-- Where record and closure are apart, the new thread reads what `spawn` wrote. -/
theorem spawn_reads (h : spawn checks memory stackBuf len closure entry outcome = some (l, memory'))
    (hp : Placed stackBuf len closure.length g l) :
    fabricTrampoline memory' l.argsStart = { entry, closure := l.closStart, outcome } ∧
      runFiber memory' l.closStart closure.length = closure := by
  simp only [spawn, Option.bind_eq_bind, Option.bind_eq_some_iff, Option.pure_def, Option.some.injEq,
    Prod.mk.injEq] at h
  obtain ⟨l', -, rfl, rfl⟩ := h
  have hlen := FiberArgs.length_toBytes { entry, closure := l'.closStart, outcome }
  have hapart := hp.apart
  constructor
  · unfold fabricTrampoline
    rw [← hlen, AddressSpace.load_store_same _ _ (by rw [hlen]; decide), FiberArgs.ofBytes_toBytes]
  · unfold runFiber
    rw [AddressSpace.load_store_of_apart _ ⟨hapart.fits', by rw [hlen]; exact hapart.fits,
        by rw [hlen]; exact hapart.apart.symm⟩,
      AddressSpace.load_store_same _ _ (by have := hapart.fits'; omega)]

/-- **The carved stack.** For every buffer, every closure and either kind of build, when `spawn` does not panic:
    record, closure and stack top are placed as they must be, and the new thread reads back what `spawn` wrote,
    exactly when the closure is aligned to at most eight bytes and the buffer has room for both above an aligned
    address of its own. -/
theorem spawn_placed_iff (hb : Buffer stackBuf len closure.length) (hg : ∃ k, g = 2 ^ k)
    (h : spawn checks memory stackBuf len closure entry outcome = some (l, memory')) :
    (Placed stackBuf len closure.length g l ∧
      fabricTrampoline memory' l.argsStart = { entry, closure := l.closStart, outcome } ∧
      runFiber memory' (fabricTrampoline memory' l.argsStart).closure closure.length = closure) ↔
    Roomy stackBuf len closure.length g := by
  have hl : layout checks stackBuf len closure.length = some l := by
    simp only [spawn, Option.bind_eq_bind, Option.bind_eq_some_iff, Option.pure_def, Option.some.injEq,
      Prod.mk.injEq] at h
    obtain ⟨_, hl, rfl, -⟩ := h
    exact hl
  constructor
  · rintro ⟨hp, -⟩
    exact roomy_of_placed hb hg hp hl
  · intro hroom
    have hp := placed_of_roomy hb hg hroom hl
    obtain ⟨hargs, hclos⟩ := spawn_reads h hp
    refine ⟨hp, hargs, ?_⟩
    rw [hargs]
    exact hclos

end

/-! ### Closures that `spawn` accepts -/

/-- Sixteen bytes aligned to eight: record and closure are read back. -/
theorem spawn_places_small_closure :
    ∃ l memory, spawn true (fun _ => 0) 0x10000 4096 (List.replicate 16 7) 0x400 0x800 = some (l, memory) ∧
      Placed 0x10000 4096 16 8 l ∧
      runFiber memory (fabricTrampoline memory l.argsStart).closure 16 = List.replicate 16 7 := by
  obtain ⟨l, memory, h⟩ : ∃ l memory,
      spawn true (fun _ => 0) 0x10000 4096 (List.replicate 16 7) 0x400 0x800 = some (l, memory) :=
    ⟨_, _, rfl⟩
  obtain ⟨hp, -, hread⟩ := (spawn_placed_iff ⟨by decide, by decide⟩ ⟨3, rfl⟩ h).mpr ⟨Nat.le_refl 8, by decide⟩
  exact ⟨l, memory, h, hp, hread⟩

/-- **Two closures that are not placed.** One aligned to sixteen bytes is put at an address that is not; one of
    8192 bytes in a buffer of 4096 puts the record below the buffer. Neither panics, with checks on. -/
theorem spawn_misplaces :
    (∃ l memory, spawn true (fun _ => 0) 0x10000 4096 (List.replicate 16 7) 0x400 0x800 = some (l, memory) ∧
      ¬ 16 ∣ l.closStart.toNat) ∧
    (∃ l memory, spawn true (fun _ => 0) 0x10000 4096 (List.replicate 8192 7) 0x400 0x800 = some (l, memory) ∧
      l.argsStart.toNat + fiberArgsBytes < 0x10000) := by
  refine ⟨⟨_, _, rfl, by decide⟩, ?_⟩
  unfold spawn
  rw [List.length_replicate]
  exact ⟨_, _, rfl, by decide⟩

end Slope.Fabric
