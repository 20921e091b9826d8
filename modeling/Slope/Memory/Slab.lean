import Mathlib.Data.List.FinRange
import Slope.Lib.Bitmap
import Slope.Sync.Entanglement

/-!
# `Memory.Slab` — the slab allocator

Ten size classes share one arena of 64 pages. A page belongs to one class and is cut into equal slots; a
bitmap says which slots are free, and nothing else is recorded about a block. `alloc` takes the first free
slot of the class, or a fresh page; `dealloc` recomputes page and slot from the pointer and refuses what does
not come out as an allocated slot. Pointers are addresses, and `0` is the null pointer.
-/

namespace Slope.Memory

open Sync

def pageSize : Nat := 4096

def maxSlabPages : Nat := 64

def userHeapPages : Nat := 64

def numClasses : Nat := 10

def sizeClasses : Vector Nat numClasses := #v[8, 16, 32, 64, 128, 256, 512, 1024, 2048, 4096]

def sizeOf (ci : Fin numClasses) : Nat := sizeClasses[ci]

/-- `SIZE_CLASSES.iter().position(|&s| s >= size)`. -/
def classFor (size : Nat) : Option (Fin numClasses) :=
  (List.finRange numClasses).find? fun ci => size ≤ sizeOf ci

/-- A size and an alignment, which is a power of two. -/
structure Layout where
  size : Nat
  align : Nat
  align_pow : ∃ n, align = 2 ^ n

/-- `layout.size().max(layout.align())`. -/
def Layout.extent (layout : Layout) : Nat := max layout.size layout.align

/-! ## Pages -/

def bitmaskWords : Nat := 8

structure SlabPage where
  base : Nat
  freeMask : Bitmap bitmaskWords
  objectSize : Nat
  slotCount : Nat
  freeCount : U16

namespace SlabPage

/-- `slot_count.div_ceil(64)`. -/
def wordCount (slotCount : Nat) : Nat := (slotCount + 63) / 64

/-- The mask of a fresh page: whole words, and the last one cut at the slot count. -/
def freshMask (slotCount : Nat) : Bitmap bitmaskWords :=
  let mask : Bitmap bitmaskWords := fun i =>
    if i.val < min (wordCount slotCount) bitmaskWords then BitVec.allOnes 64 else 0
  if slotCount % 64 ≠ 0 ∧ 0 < wordCount slotCount then
    let last := wordCount slotCount - 1
    if h : last < bitmaskWords then Function.update mask ⟨last, h⟩ (bitMask (slotCount % 64) - 1) else mask
  else mask

def new (base objectSize : Nat) : SlabPage :=
  let slotCount := pageSize / objectSize
  { base, freeMask := freshMask slotCount, objectSize, slotCount
    freeCount := BitVec.ofNat 16 (min slotCount 0xffff) }

/-- The first free slot: the address, and the page with the slot taken. -/
def allocSlot (p : SlabPage) : Option (Nat × SlabPage) :=
  (List.finRange bitmaskWords).findSome? fun wi =>
    if min (wordCount p.slotCount) bitmaskWords ≤ wi.val then none
    else if p.freeMask wi = 0 then none
    else
      -- `trailing_zeros`
      let bit := (p.freeMask wi).ctz.toNat
      let slot := wi * 64 + bit
      if p.slotCount ≤ slot then none
      else some (p.base + slot * p.objectSize,
        { p with freeMask := p.freeMask.clear wi bit, freeCount := p.freeCount - 1 })

/-- The page with the slot of `ptr` free again; `none` where the source answers `false`. The last branch is
    out of reach: a page has at most 512 slots. -/
def deallocSlot (p : SlabPage) (ptr : Nat) : Option SlabPage :=
  if ptr < p.base then none
  else
    let offset := ptr - p.base
    if offset % p.objectSize ≠ 0 then none
    else
      let slot := offset / p.objectSize
      if p.slotCount ≤ slot then none
      else if h : slot / 64 < bitmaskWords then
        -- free already
        if p.freeMask ⟨slot / 64, h⟩ &&& bitMask (slot % 64) ≠ 0 then none
        else some { p with freeMask := p.freeMask.set ⟨slot / 64, h⟩ (slot % 64)
                           freeCount := p.freeCount + 1 }
      else none

end SlabPage

/-! ## The arena -/

/-- The page source: a page-aligned static block of `USER_HEAP_PAGES` pages, and how many were handed out. -/
structure FixedHeapArena where
  base : Nat
  base_pos : 0 < base
  base_aligned : pageSize ∣ base
  nextPage : Nat

namespace FixedHeapArena

def new (base : Nat) (base_pos : 0 < base) (base_aligned : pageSize ∣ base) : FixedHeapArena where
  base := base
  base_pos := base_pos
  base_aligned := base_aligned
  nextPage := 0

/-- The address of a page. -/
def pageBase (arena : FixedHeapArena) (page : Nat) : Nat := arena.base + page * pageSize

/-- With one caller, the compare-exchange loop reserves the page it loaded. -/
def allocatePage (arena : FixedHeapArena) : Option (Nat × FixedHeapArena) :=
  if userHeapPages ≤ arena.nextPage then none
  else some (arena.pageBase arena.nextPage, { arena with nextPage := arena.nextPage + 1 })

end FixedHeapArena

/-! ## Classes -/

structure SlabClass where
  pages : Fin maxSlabPages → Option SlabPage
  pageCount : Nat
  objectSize : Nat

namespace SlabClass

def uninit (objectSize : Nat) : SlabClass where
  pages := fun _ => none
  pageCount := 0
  objectSize := objectSize

def setPage (c : SlabClass) (i : Fin maxSlabPages) (p : SlabPage) : SlabClass :=
  { c with pages := Function.update c.pages i (some p) }

/-- The first slot that an existing page has free. -/
def allocExisting (c : SlabClass) : Option (Nat × SlabClass) :=
  (List.finRange maxSlabPages).findSome? fun i =>
    if c.pageCount ≤ i.val then none
    else (c.pages i).bind fun p => p.allocSlot.map fun (ptr, p) => (ptr, c.setPage i p)

/-- `self.pages[self.page_count] = Some(page); self.page_count += 1`. -/
def addPage (c : SlabClass) (h : c.pageCount < maxSlabPages) (p : SlabPage) : SlabClass :=
  { c.setPage ⟨c.pageCount, h⟩ p with pageCount := c.pageCount + 1 }

def grow (c : SlabClass) (arena : FixedHeapArena) : Option (SlabClass × FixedHeapArena) :=
  if h : c.pageCount < maxSlabPages then
    match arena.allocatePage with
    | none => none
    | some (base, arena) => some (c.addPage h (.new base c.objectSize), arena)
  else none

/-- A slot of the page that was added last. -/
def allocLast (c : SlabClass) : Option (Nat × SlabClass) :=
  if h : c.pageCount - 1 < maxSlabPages then
    (c.pages ⟨c.pageCount - 1, h⟩).bind fun p =>
      p.allocSlot.map fun (ptr, p) => (ptr, c.setPage ⟨c.pageCount - 1, h⟩ p)
  else none

def alloc (c : SlabClass) (arena : FixedHeapArena) : Option Nat × SlabClass × FixedHeapArena :=
  match c.allocExisting with
  | some (ptr, c) => (some ptr, c, arena)
  | none =>
    match c.grow arena with
    | none => (none, c, arena)
    | some (c, arena) =>
      match c.allocLast with
      | none => (none, c, arena)
      | some (ptr, c) => (some ptr, c, arena)

/-- The class with the block at `ptr` free again; `none` where the source answers `false`. -/
def dealloc (c : SlabClass) (ptr : Nat) : Option SlabClass :=
  (List.finRange maxSlabPages).findSome? fun i =>
    if c.pageCount ≤ i.val then none
    else (c.pages i).bind fun p => (p.deallocSlot ptr).map (c.setPage i)

end SlabClass

/-! ## The heap -/

structure HeapState where
  classes : Fin numClasses → SlabClass
  allocCount : U64
  deallocCount : U64
  oomCount : U64

namespace HeapState

def new : HeapState where
  classes := fun ci => .uninit (sizeOf ci)
  allocCount := 0
  deallocCount := 0
  oomCount := 0

def setClass (h : HeapState) (ci : Fin numClasses) (c : SlabClass) : HeapState :=
  { h with classes := Function.update h.classes ci c }

/-- The critical section of `alloc`. -/
def allocIn (ci : Fin numClasses) (h : HeapState) (arena : FixedHeapArena) :
    Nat × HeapState × FixedHeapArena :=
  match (h.classes ci).alloc arena with
  | (ptr, c, arena) =>
    let ptr := ptr.getD 0
    let h := h.setClass ci c
    if ptr = 0 then (ptr, { h with oomCount := h.oomCount + 1 }, arena)
    else (ptr, { h with allocCount := h.allocCount + 1 }, arena)

/-- The critical section of `dealloc`. -/
def deallocIn (ci : Fin numClasses) (ptr : Nat) (h : HeapState) (_ : Unit) : Unit × HeapState × Unit :=
  match (h.classes ci).dealloc ptr with
  | some c => ((), { h.setClass ci c with deallocCount := h.deallocCount + 1 }, ())
  | none => ((), h, ())

end HeapState

structure GlobalSlabHeap where
  cell : SpookyCell HeapState
  arena : FixedHeapArena
  ready : Bool

namespace GlobalSlabHeap

/-- A heap whose arena is linked at `base`. -/
def new (base : Nat) (base_pos : 0 < base) (base_aligned : pageSize ∣ base) : GlobalSlabHeap where
  cell := .new .new
  arena := .new base base_pos base_aligned
  ready := false

def init (s : GlobalSlabHeap) : GlobalSlabHeap := { s with ready := true }

def alloc (s : GlobalSlabHeap) (layout : Layout) : Nat × GlobalSlabHeap :=
  if !s.ready then (0, s)
  else
    match classFor layout.extent with
    | none => (0, s)
    | some ci =>
      match s.cell.mutateBounded s.arena (HeapState.allocIn ci) 64 with
      | (.ok ptr, cell, arena) => (ptr, { s with cell, arena })
      | (.error _, cell, arena) => (0, { s with cell, arena })

def dealloc (s : GlobalSlabHeap) (ptr : Nat) (layout : Layout) : GlobalSlabHeap :=
  if ptr = 0 then s
  else
    match classFor layout.extent with
    | none => s
    | some ci =>
      match s.cell.mutateBounded () (HeapState.deallocIn ci ptr) 64 with
      | (_, cell, _) => { s with cell }

end GlobalSlabHeap

end Slope.Memory
