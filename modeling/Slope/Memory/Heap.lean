import Mathlib.Data.Fintype.Card
import Slope.Lib.Run
import Slope.Memory.Class

/-!
# `Memory.Heap` — the allocator over whole runs

The blocks currently live are read off the history of calls: a block is live from the `alloc` that returned it
to the `dealloc` that names its pointer and class. The allocator keeps no such list. `HeapInv` ties the two
together: each class holds exactly the live blocks of that class, and each page that the arena has handed out
has exactly one place in one class.
-/

namespace Slope.Memory

open Sync SlabClass

/-! ## Size classes -/

theorem sizeOf_ge : ∀ ci, 8 ≤ sizeOf ci := by decide

theorem sizeOf_le : ∀ ci, sizeOf ci ≤ pageSize := by decide

theorem sizeOf_pow (ci : Fin numClasses) : ∃ n, sizeOf ci = 2 ^ n := by
  refine ⟨ci.val + 3, ?_⟩
  revert ci
  decide

theorem sizeOf_dvd : ∀ ci, sizeOf ci ∣ pageSize := by decide

theorem classFor_some {size : Nat} {ci : Fin numClasses} (h : classFor size = some ci) :
    size ≤ sizeOf ci := by
  have := List.find?_some h
  simpa using this

theorem classFor_none {size : Nat} : classFor size = none ↔ pageSize < size := by
  rw [classFor, List.find?_eq_none]
  constructor
  · intro h
    have hlast : ¬ size ≤ sizeOf ⟨9, by decide⟩ := by simpa using h ⟨9, by decide⟩ (List.mem_finRange _)
    exact Nat.lt_of_not_le hlast
  · intro h ci _
    have := sizeOf_le ci
    simp only [decide_eq_true_eq]
    omega

/-- The alignment of a layout divides the size of its class. -/
theorem align_dvd_sizeOf {layout : Layout} {ci : Fin numClasses} (h : classFor layout.extent = some ci) :
    layout.align ∣ sizeOf ci := by
  obtain ⟨n, hn⟩ := layout.align_pow
  obtain ⟨m, hm⟩ := sizeOf_pow ci
  have hle : layout.align ≤ sizeOf ci := Nat.le_trans (Nat.le_max_right ..) (classFor_some h)
  rw [hn, hm] at hle ⊢
  exact Nat.pow_dvd_pow 2 ((Nat.pow_le_pow_iff_right (by decide)).mp hle)

theorem pageBase_inj {arena : FixedHeapArena} {k k' : Nat} (h : arena.pageBase k = arena.pageBase k') :
    k = k' :=
  Nat.eq_of_mul_eq_mul_right (by decide : 0 < pageSize) (Nat.add_left_cancel h)

/-! ## Pages and their owners -/

/-- Each handed-out page has exactly one place in one class. -/
structure HeapShape (h : HeapState) (arena : FixedHeapArena) : Prop where
  classes : ∀ ci, ClassShape (sizeOf ci) (h.classes ci)
  next_le : arena.nextPage ≤ userHeapPages
  bases : ∀ ci i b, (h.classes ci).baseAt i = some b → ∃ k, k < arena.nextPage ∧ b = arena.pageBase k
  owned : ∀ k, k < arena.nextPage → ∃ ci i, (h.classes ci).baseAt i = some (arena.pageBase k)
  owner_unique : ∀ ci cj i j b, (h.classes ci).baseAt i = some b → (h.classes cj).baseAt j = some b → ci = cj

section

variable {h : HeapState} {arena : FixedHeapArena} {ci : Fin numClasses} {c : SlabClass}

/-- The next page is in no class yet. -/
theorem HeapShape.next_fresh (hs : HeapShape h arena) (ci : Fin numClasses) (i : Fin maxSlabPages) :
    (h.classes ci).baseAt i ≠ some (arena.pageBase arena.nextPage) := by
  intro hb
  obtain ⟨k, hk, heq⟩ := hs.bases ci i _ hb
  exact absurd (pageBase_inj heq) (by omega)

/-- A class with all its positions filled has all the pages of the arena. -/
theorem HeapShape.exhausted (hs : HeapShape h arena) (hfull : maxSlabPages ≤ (h.classes ci).pageCount) :
    userHeapPages ≤ arena.nextPage := by
  have hplace : ∀ i : Fin maxSlabPages, ∃ k : Fin arena.nextPage,
      (h.classes ci).baseAt i = some (arena.pageBase k) := by
    intro i
    obtain ⟨b, hb⟩ := (baseAt_eq_some (hs.classes ci)).mpr (Nat.lt_of_lt_of_le i.isLt hfull)
    obtain ⟨k, hk, rfl⟩ := hs.bases ci i b hb
    exact ⟨⟨k, hk⟩, hb⟩
  -- the class has as many different pages as it has positions
  choose place hat using hplace
  have hinj : Function.Injective place := by
    intro i j hij
    exact (hs.classes ci).bases_inj i j _ (hat i) (hij ▸ hat j)
  have hcard := Fintype.card_le_of_injective place hinj
  rwa [Fintype.card_fin, Fintype.card_fin] at hcard

/-- A pointer is held by at most one class. -/
theorem HeapShape.holds_class (hs : HeapShape h arena) {ci cj : Fin numClasses} {ptr : Nat}
    (hi : (h.classes ci).Holds ptr) (hj : (h.classes cj).Holds ptr) : ci = cj := by
  obtain ⟨i, p, hati, hpi⟩ := hi
  obtain ⟨j, p', hatj, hpj⟩ := hj
  apply hs.owner_unique ci cj i j p.base hati.base
  rw [hatj.base, hpi.base_eq (hati.shape (hs.classes ci)) (sizeOf_ge ci),
    hpj.base_eq (hatj.shape (hs.classes cj)) (sizeOf_ge cj)]

theorem classes_setClass_self : (h.setClass ci c).classes ci = c := Function.update_self ..

theorem classes_setClass_ne {cj : Fin numClasses} (hne : cj ≠ ci) :
    (h.setClass ci c).classes cj = h.classes cj := Function.update_of_ne hne ..

/-- The counters do not matter. -/
theorem HeapShape.of_classes {h' : HeapState} (hs : HeapShape h arena) (heq : h'.classes = h.classes) :
    HeapShape h' arena := by
  refine ⟨?_, hs.next_le, ?_, ?_, ?_⟩
  · rw [heq]; exact hs.classes
  · rw [heq]; exact hs.bases
  · rw [heq]; exact hs.owned
  · rw [heq]; exact hs.owner_unique

theorem HeapShape.classShape_setClass (hs : HeapShape h arena) (hc : ClassShape (sizeOf ci) c)
    (cj : Fin numClasses) : ClassShape (sizeOf cj) ((h.setClass ci c).classes cj) := by
  by_cases hcj : cj = ci
  · subst hcj
    rw [classes_setClass_self]
    exact hc
  · rw [classes_setClass_ne hcj]
    exact hs.classes cj

/-- A class is replaced by one with the same pages. -/
theorem HeapShape.setClass (hs : HeapShape h arena) (hc : ClassShape (sizeOf ci) c)
    (hbase : c.baseAt = (h.classes ci).baseAt) : HeapShape (h.setClass ci c) arena := by
  have hall : ∀ cj, ((h.setClass ci c).classes cj).baseAt = (h.classes cj).baseAt := by
    intro cj
    by_cases hcj : cj = ci
    · subst hcj; rw [classes_setClass_self, hbase]
    · rw [classes_setClass_ne hcj]
  refine ⟨hs.classShape_setClass hc, hs.next_le, ?_, ?_, ?_⟩
  · intro cj i b hb
    rw [hall] at hb
    exact hs.bases cj i b hb
  · intro k hk
    obtain ⟨cj, i, hb⟩ := hs.owned k hk
    exact ⟨cj, i, by rw [hall]; exact hb⟩
  · intro cj ck i j b hi hj
    rw [hall] at hi hj
    exact hs.owner_unique cj ck i j b hi hj

/-- A class is replaced by one with the next page of the arena added. -/
theorem HeapShape.setClass_grown (hs : HeapShape h arena) (hnext : arena.nextPage < userHeapPages)
    (hc : ClassShape (sizeOf ci) c) {n : Fin maxSlabPages}
    (hbase : c.baseAt = Function.update (h.classes ci).baseAt n (some (arena.pageBase arena.nextPage)))
    (hnew : (h.classes ci).baseAt n = none) :
    HeapShape (h.setClass ci c) { arena with nextPage := arena.nextPage + 1 } := by
  -- every place is an old one or the new one
  have hplace : ∀ cj i b, ((h.setClass ci c).classes cj).baseAt i = some b →
      (h.classes cj).baseAt i = some b ∨ (cj = ci ∧ i = n ∧ b = arena.pageBase arena.nextPage) := by
    intro cj i b hb
    by_cases hcj : cj = ci
    · subst hcj
      rw [classes_setClass_self, hbase] at hb
      by_cases hi : i = n
      · subst hi
        rw [Function.update_self] at hb
        exact Or.inr ⟨rfl, rfl, (Option.some.inj hb).symm⟩
      · rw [Function.update_of_ne hi] at hb
        exact Or.inl hb
    · rw [classes_setClass_ne hcj] at hb
      exact Or.inl hb
  have hkeep : ∀ cj i b, (h.classes cj).baseAt i = some b →
      ((h.setClass ci c).classes cj).baseAt i = some b := by
    intro cj i b hb
    by_cases hcj : cj = ci
    · subst hcj
      have hi : i ≠ n := by
        rintro rfl
        rw [hnew] at hb
        cases hb
      rw [classes_setClass_self, hbase, Function.update_of_ne hi]
      exact hb
    · rw [classes_setClass_ne hcj]
      exact hb
  refine ⟨hs.classShape_setClass hc, hnext, ?_, ?_, ?_⟩
  · intro cj i b hb
    rcases hplace cj i b hb with hold | ⟨-, -, rfl⟩
    · obtain ⟨k, hk, rfl⟩ := hs.bases cj i b hold
      exact ⟨k, Nat.lt_succ_of_lt hk, rfl⟩
    · exact ⟨arena.nextPage, Nat.lt_succ_self _, rfl⟩
  · intro k hk
    rcases Nat.lt_or_eq_of_le (Nat.le_of_lt_succ hk) with hlt | rfl
    · obtain ⟨cj, i, hb⟩ := hs.owned k hlt
      exact ⟨cj, i, hkeep cj i _ hb⟩
    · refine ⟨ci, n, ?_⟩
      rw [classes_setClass_self, hbase, Function.update_self]
      rfl
  · intro cj ck i j b hi hj
    rcases hplace cj i b hi with hold | ⟨hci, -, hb⟩
    · rcases hplace ck j b hj with hold' | ⟨-, -, hb⟩
      · exact hs.owner_unique cj ck i j b hold hold'
      · rw [hb] at hold
        exact absurd hold (hs.next_fresh cj i)
    · rcases hplace ck j b hj with hold' | ⟨hck, -, -⟩
      · rw [hb] at hold'
        exact absurd hold' (hs.next_fresh ck j)
      · rw [hci, hck]

end

/-! ## Calls, histories and live blocks -/

inductive Call where
  | alloc (layout : Layout)
  | dealloc (ptr : Nat) (layout : Layout)

inductive Reply where
  | allocated (ptr : Nat)
  | freed

structure Block where
  ptr : Nat
  layout : Layout

namespace Block

/-- The class the block was allocated in. -/
def classOf (b : Block) : Option (Fin numClasses) := classFor b.layout.extent

/-- The bytes that the block occupies. -/
def extent (b : Block) : Nat := b.classOf.elim 0 sizeOf

/-- No byte belongs to both. -/
def Disjoint (b b' : Block) : Prop := b.ptr + b.extent ≤ b'.ptr ∨ b'.ptr + b'.extent ≤ b.ptr

/-- The block lies in one page of the arena. -/
def InOnePage (b : Block) (arena : FixedHeapArena) : Prop :=
  ∃ k, k < userHeapPages ∧ arena.pageBase k ≤ b.ptr ∧ b.ptr + b.extent ≤ arena.pageBase k + pageSize

/-- `dealloc(ptr, layout)` names this block. -/
def isNamed (ptr : Nat) (layout : Layout) (b : Block) : Bool :=
  b.ptr == ptr && b.classOf == classFor layout.extent

theorem isNamed_iff {ptr : Nat} {layout : Layout} {b : Block} :
    b.isNamed ptr layout = true ↔ b.ptr = ptr ∧ b.classOf = classFor layout.extent := by
  rw [isNamed, Bool.and_eq_true, beq_iff_eq, beq_iff_eq]

end Block

/-- `ptr` is live in the class of `layout`. -/
def LiveIn (bs : List Block) (ptr : Nat) (layout : Layout) : Prop :=
  ∃ b ∈ bs, b.ptr = ptr ∧ b.classOf = classFor layout.extent

namespace GlobalSlabHeap

abbrev HeapEvent := Event GlobalSlabHeap Call Reply

def step (s : GlobalSlabHeap) : Call → Reply × GlobalSlabHeap
  | .alloc layout => (.allocated (s.alloc layout).1, (s.alloc layout).2)
  | .dealloc ptr layout => (.freed, s.dealloc ptr layout)

/-- The live blocks after one more call. -/
def liveAfter (bs : List Block) (e : HeapEvent) : List Block :=
  match e.call, e.result with
  | .alloc layout, .allocated ptr => if ptr = 0 then bs else bs ++ [⟨ptr, layout⟩]
  | .dealloc ptr layout, _ => bs.eraseP (Block.isNamed ptr layout)
  | _, _ => bs

/-- The blocks that the calls so far have left live. -/
def live (h : List HeapEvent) : List Block := h.foldl liveAfter []

theorem live_snoc (h : List HeapEvent) (e : HeapEvent) : live (h ++ [e]) = liveAfter (live h) e := by
  rw [live, List.foldl_append]
  rfl

/-- **The invariant** of a heap whose arena is linked at `base`, with the blocks `bs` live. -/
structure HeapInv (base : Nat) (bs : List Block) (s : GlobalSlabHeap) : Prop where
  ready : s.ready = true
  unlocked : s.cell.locked = false
  base_eq : s.arena.base = base
  shape : HeapShape s.cell.data s.arena
  holds_iff : ∀ ci ptr, (s.cell.data.classes ci).Holds ptr ↔ ∃ b ∈ bs, b.classOf = some ci ∧ b.ptr = ptr
  classes : ∀ b ∈ bs, ∃ ci, b.classOf = some ci
  nodup : (bs.map Block.ptr).Nodup
  count : s.cell.data.allocCount - s.cell.data.deallocCount = BitVec.ofNat 64 bs.length

section

variable {base : Nat} {bs : List Block} {s : GlobalSlabHeap} {layout : Layout} {ptr : Nat}

/-! ### The geometry of live blocks -/

/-- Where a live block lies. -/
theorem HeapInv.slot (hinv : HeapInv base bs s) {b : Block} (hb : b ∈ bs) :
    ∃ ci i k slot, b.classOf = some ci ∧ k < s.arena.nextPage ∧
      (s.cell.data.classes ci).baseAt i = some (s.arena.pageBase k) ∧
      b.ptr = s.arena.pageBase k + slot * sizeOf ci ∧ slot * sizeOf ci + sizeOf ci ≤ pageSize := by
  obtain ⟨ci, hci⟩ := hinv.classes b hb
  have hheld := (hinv.holds_iff ci b.ptr).mpr ⟨b, hb, hci, rfl⟩
  obtain ⟨i, base, slot, hbase, hptr, hend⟩ := hheld.slot (hinv.shape.classes ci)
  obtain ⟨k, hk, rfl⟩ := hinv.shape.bases ci i base hbase
  exact ⟨ci, i, k, slot, hci, hk, hbase, hptr, hend⟩

theorem HeapInv.inOnePage (hinv : HeapInv base bs s) {b : Block} (hb : b ∈ bs) : b.InOnePage s.arena := by
  obtain ⟨ci, i, k, slot, hci, hk, -, hptr, hend⟩ := hinv.slot hb
  refine ⟨k, Nat.lt_of_lt_of_le hk hinv.shape.next_le, by omega, ?_⟩
  rw [Block.extent, hci]
  show b.ptr + sizeOf ci ≤ _
  omega

theorem HeapInv.ptr_pos (hinv : HeapInv base bs s) {b : Block} (hb : b ∈ bs) : b.ptr ≠ 0 := by
  obtain ⟨k, -, hle, -⟩ := hinv.inOnePage hb
  have := s.arena.base_pos
  unfold FixedHeapArena.pageBase at hle
  omega

/-- A live block is aligned to its layout and large enough for it. -/
theorem HeapInv.fits (hinv : HeapInv base bs s) {b : Block} (hb : b ∈ bs) :
    b.layout.align ∣ b.ptr ∧ b.layout.size ≤ b.extent := by
  obtain ⟨ci, i, k, slot, hci, -, -, hptr, -⟩ := hinv.slot hb
  have halign := align_dvd_sizeOf hci
  have hpage := Nat.dvd_trans halign (sizeOf_dvd ci)
  refine ⟨?_, ?_⟩
  · rw [hptr]
    apply Nat.dvd_add
    · exact Nat.dvd_add (Nat.dvd_trans hpage s.arena.base_aligned) (Nat.dvd_mul_left_of_dvd hpage _)
    · exact Nat.dvd_mul_left_of_dvd halign _
  · rw [Block.extent, hci]
    exact Nat.le_trans (Nat.le_max_left ..) (classFor_some hci)

/-- Two live blocks with different pointers are disjoint: they lie in different pages, or in different slots
    of the same page, which belongs to one class only. -/
theorem HeapInv.disjoint (hinv : HeapInv base bs s) {b b' : Block} (hb : b ∈ bs) (hb' : b' ∈ bs)
    (hne : b.ptr ≠ b'.ptr) : b.Disjoint b' := by
  obtain ⟨ci, i, k, slot, hci, -, hbase, hptr, hend⟩ := hinv.slot hb
  obtain ⟨cj, j, k', slot', hcj, -, hbase', hptr', hend'⟩ := hinv.slot hb'
  rw [Block.Disjoint, Block.extent, Block.extent, hci, hcj]
  show b.ptr + sizeOf ci ≤ b'.ptr ∨ b'.ptr + sizeOf cj ≤ b.ptr
  unfold FixedHeapArena.pageBase at hptr hptr'
  rcases Nat.lt_trichotomy k k' with hlt | rfl | hgt
  · -- different pages
    left
    have : (k + 1) * pageSize ≤ k' * pageSize := Nat.mul_le_mul_right _ hlt
    rw [Nat.succ_mul] at this
    omega
  · -- one page has one owner, so the slots have one size
    obtain rfl := hinv.shape.owner_unique ci cj i j _ hbase hbase'
    rcases Nat.lt_trichotomy slot slot' with hlt | rfl | hgt
    · left
      have : (slot + 1) * sizeOf ci ≤ slot' * sizeOf ci := Nat.mul_le_mul_right _ hlt
      rw [Nat.succ_mul] at this
      omega
    · exact absurd (hptr.trans hptr'.symm) hne
    · right
      have : (slot' + 1) * sizeOf ci ≤ slot * sizeOf ci := Nat.mul_le_mul_right _ hgt
      rw [Nat.succ_mul] at this
      omega
  · right
    have : (k' + 1) * pageSize ≤ k * pageSize := Nat.mul_le_mul_right _ hgt
    rw [Nat.succ_mul] at this
    omega

/-! ### Allocation -/

/-- A heap between calls: the lock is free. -/
theorem HeapInv.eq_mk (hinv : HeapInv base bs s) : s = ⟨.new s.cell.data, s.arena, true⟩ := by
  obtain ⟨⟨locked, data⟩, arena, ready⟩ := s
  obtain rfl : locked = false := hinv.unlocked
  obtain rfl : ready = true := hinv.ready
  rfl

/-- `alloc` runs its critical section. -/
theorem HeapInv.alloc_eq (hinv : HeapInv base bs s) {ci : Fin numClasses}
    (hci : classFor layout.extent = some ci) :
    s.alloc layout = ((HeapState.allocIn ci s.cell.data s.arena).1,
      ⟨.new (HeapState.allocIn ci s.cell.data s.arena).2.1, (HeapState.allocIn ci s.cell.data s.arena).2.2,
        true⟩) := by
  rw [hinv.eq_mk]
  simp only [alloc, hci, SpookyCell.mutateBounded_free _ _ _ (by decide : 0 < 64)]
  rfl

/-- The live blocks of each class, after one more block. -/
theorem HeapInv.holds_iff_took (hinv : HeapInv base bs s) {ci : Fin numClasses} {c : SlabClass}
    (hci : classFor layout.extent = some ci) (htook : Took (sizeOf ci) (s.cell.data.classes ci) c ptr)
    (cj : Fin numClasses) (q : Nat) :
    ((s.cell.data.setClass ci c).classes cj).Holds q ↔
      ∃ b ∈ bs ++ [⟨ptr, layout⟩], b.classOf = some cj ∧ b.ptr = q := by
  have hsnoc : (∃ b ∈ bs ++ [Block.mk ptr layout], b.classOf = some cj ∧ b.ptr = q) ↔
      (∃ b ∈ bs, b.classOf = some cj ∧ b.ptr = q) ∨ (classFor layout.extent = some cj ∧ ptr = q) := by
    simp only [List.mem_append, List.mem_singleton, or_and_right, exists_or, exists_eq_left]
    rfl
  rw [hsnoc, ← hinv.holds_iff, hci]
  by_cases hcj : cj = ci
  · subst hcj
    rw [classes_setClass_self, htook.holds]
    constructor
    · rintro (rfl | hold)
      · exact Or.inr ⟨rfl, rfl⟩
      · exact Or.inl hold
    · rintro (hold | ⟨-, rfl⟩)
      · exact Or.inr hold
      · exact Or.inl rfl
  · rw [classes_setClass_ne hcj]
    constructor
    · exact Or.inl
    · rintro (hold | ⟨hclass, -⟩)
      · exact hold
      · exact absurd (Option.some.inj hclass).symm hcj

/-- No live block stands at the address of a block just taken: it would be held by the same class. -/
theorem HeapInv.fresh_of_took (hinv : HeapInv base bs s) {ci : Fin numClasses} {c : SlabClass}
    {arena : FixedHeapArena} (htook : Took (sizeOf ci) (s.cell.data.classes ci) c ptr)
    (hshape : HeapShape (s.cell.data.setClass ci c) arena) : ptr ∉ bs.map Block.ptr := by
  have hheld : ((s.cell.data.setClass ci c).classes ci).Holds ptr := by
    rw [classes_setClass_self, htook.holds]
    exact Or.inl rfl
  intro hmem
  obtain ⟨b, hb, rfl⟩ := List.mem_map.mp hmem
  obtain ⟨cj, hcj⟩ := hinv.classes b hb
  have hold := (hinv.holds_iff cj b.ptr).mpr ⟨b, hb, hcj, rfl⟩
  have hold' : ((s.cell.data.setClass ci c).classes cj).Holds b.ptr := by
    by_cases hcc : cj = ci
    · subst hcc; exact hheld
    · rw [classes_setClass_ne hcc]; exact hold
  obtain rfl := hshape.holds_class hheld hold'
  exact htook.fresh hold

/-- A class has one more block: so has the heap. -/
theorem HeapInv.took (hinv : HeapInv base bs s) {ci : Fin numClasses} {c : SlabClass} {arena : FixedHeapArena}
    (hci : classFor layout.extent = some ci) (htook : Took (sizeOf ci) (s.cell.data.classes ci) c ptr)
    (hshape : HeapShape (s.cell.data.setClass ci c) arena) (harena : arena.base = s.arena.base) :
    HeapInv base (bs ++ [⟨ptr, layout⟩])
      ⟨.new { s.cell.data.setClass ci c with allocCount := s.cell.data.allocCount + 1 }, arena, true⟩ := by
  refine ⟨rfl, rfl, harena.trans hinv.base_eq, hshape.of_classes rfl, hinv.holds_iff_took hci htook, ?_, ?_, ?_⟩
  · intro b hb
    rcases List.mem_append.mp hb with hb | hb
    · exact hinv.classes b hb
    · rw [List.mem_singleton] at hb
      subst hb
      exact ⟨ci, hci⟩
  · rw [List.map_append, List.nodup_append]
    refine ⟨hinv.nodup, List.nodup_singleton _, ?_⟩
    intro q hq q' hq' heq
    subst heq
    obtain rfl : q = ptr := by simpa using hq'
    exact hinv.fresh_of_took htook hshape hq
  · show s.cell.data.allocCount + 1 - s.cell.data.deallocCount
      = BitVec.ofNat 64 (bs ++ [Block.mk ptr layout]).length
    have hcount := hinv.count
    rw [List.length_append, List.length_singleton, BitVec.ofNat_add, ← hcount, BitVec.sub_add_comm]
    rfl

/-- The block that a class grants is the one the heap returns; it is not at address zero. -/
theorem HeapInv.allocIn_took (hinv : HeapInv base bs s) {ci : Fin numClasses} {c : SlabClass}
    {arena : FixedHeapArena} (hci : classFor layout.extent = some ci)
    (halloc : (s.cell.data.classes ci).alloc s.arena = (some ptr, c, arena))
    (htook : Took (sizeOf ci) (s.cell.data.classes ci) c ptr)
    (hshape : HeapShape (s.cell.data.setClass ci c) arena) (harena : arena.base = s.arena.base) :
    (HeapState.allocIn ci s.cell.data s.arena).1 ≠ 0 ∧
      HeapInv base (bs ++ [⟨(HeapState.allocIn ci s.cell.data s.arena).1, layout⟩])
        ⟨.new (HeapState.allocIn ci s.cell.data s.arena).2.1,
          (HeapState.allocIn ci s.cell.data s.arena).2.2, true⟩ := by
  have hinv' := hinv.took hci htook hshape harena
  have hne : ptr ≠ 0 := hinv'.ptr_pos (b := ⟨ptr, layout⟩) (by simp)
  have heq : HeapState.allocIn ci s.cell.data s.arena
      = (ptr, { s.cell.data.setClass ci c with allocCount := s.cell.data.allocCount + 1 }, arena) := by
    simp only [HeapState.allocIn, halloc, Option.getD_some, if_neg hne]
    rfl
  rw [heq]
  exact ⟨hne, hinv'⟩

/-- **What `alloc` does.** Without a class for the layout it returns null; with neither a free slot nor a page
    left it returns null and counts the failure; otherwise it returns a fresh block. -/
theorem HeapInv.alloc_cases (hinv : HeapInv base bs s) (layout : Layout) :
    (classFor layout.extent = none ∧ s.alloc layout = (0, s)) ∨
    (∃ ci, classFor layout.extent = some ci ∧ ¬ (s.cell.data.classes ci).HasFree ∧
      s.arena.nextPage = userHeapPages ∧ (s.alloc layout).1 = 0 ∧ HeapInv base bs (s.alloc layout).2) ∨
    (∃ ci, classFor layout.extent = some ci ∧
      ((s.cell.data.classes ci).HasFree ∨ s.arena.nextPage < userHeapPages) ∧ (s.alloc layout).1 ≠ 0 ∧
      HeapInv base (bs ++ [⟨(s.alloc layout).1, layout⟩]) (s.alloc layout).2) := by
  cases hci : classFor layout.extent with
  | none =>
      left
      refine ⟨rfl, ?_⟩
      rw [hinv.eq_mk]
      simp only [alloc, hci]
      rfl
  | some ci =>
      right
      rw [hinv.alloc_eq hci]
      have hclass := hinv.shape.classes ci
      rcases SlabClass.alloc_cases hclass (sizeOf_ge ci) (sizeOf_le ci) (hinv.shape.next_fresh ci) with
        ⟨hfree, ptr, c, halloc, htook, hbase⟩ | ⟨-, hnext, ptr, c, hlt, halloc, htook, hbase⟩ |
        ⟨hfull, hpages, halloc⟩
      · right
        exact ⟨ci, rfl, Or.inl hfree,
          hinv.allocIn_took hci halloc htook (hinv.shape.setClass htook.shape hbase) rfl⟩
      · right
        have hnew : (s.cell.data.classes ci).baseAt ⟨_, hlt⟩ = none := if_neg (Nat.lt_irrefl _)
        exact ⟨ci, rfl, Or.inr hnext,
          hinv.allocIn_took hci halloc htook (hinv.shape.setClass_grown hnext htook.shape hbase hnew) rfl⟩
      · left
        -- a class runs out of positions only together with the arena
        have hend : userHeapPages ≤ s.arena.nextPage := by
          rcases hpages with hp | hp
          · exact hinv.shape.exhausted hp
          · exact hp
        have hsame : s.cell.data.setClass ci (s.cell.data.classes ci) = s.cell.data := by
          simp [HeapState.setClass]
        have heq : HeapState.allocIn ci s.cell.data s.arena
            = (0, { s.cell.data with oomCount := s.cell.data.oomCount + 1 }, s.arena) := by
          simp only [HeapState.allocIn, halloc, Option.getD_none, if_pos, hsame]
        rw [heq]
        exact ⟨ci, rfl, hfull, Nat.le_antisymm hinv.shape.next_le hend, rfl, rfl, rfl, hinv.base_eq,
          hinv.shape.of_classes rfl, hinv.holds_iff, hinv.classes, hinv.nodup, hinv.count⟩

/-! ### Freeing -/

theorem eraseP_of_not_liveIn (h : ¬ LiveIn bs ptr layout) : bs.eraseP (Block.isNamed ptr layout) = bs := by
  apply List.eraseP_of_forall_not
  intro b hb hname
  exact h ⟨b, hb, Block.isNamed_iff.mp hname⟩

/-- Pointers being distinct, the named block is the only one that goes. -/
theorem mem_eraseP_isNamed (hnodup : (bs.map Block.ptr).Nodup) (hlive : LiveIn bs ptr layout) (b : Block) :
    b ∈ bs.eraseP (Block.isNamed ptr layout) ↔ b ∈ bs ∧ b.ptr ≠ ptr := by
  obtain ⟨a, ha, hname⟩ := hlive
  obtain ⟨a, l₁, l₂, -, hname, rfl, heq⟩ := List.exists_of_eraseP ha (Block.isNamed_iff.mpr hname)
  obtain ⟨rfl, -⟩ := Block.isNamed_iff.mp hname
  rw [List.map_append, List.map_cons, List.nodup_middle, List.nodup_cons, ← List.map_append] at hnodup
  rw [heq]
  constructor
  · intro hb
    refine ⟨?_, ?_⟩
    · rw [List.perm_middle.mem_iff]
      exact List.mem_cons_of_mem _ hb
    · intro hc
      exact hnodup.1 (hc ▸ List.mem_map_of_mem hb)
  · rintro ⟨hb, hne⟩
    rcases List.mem_cons.mp (List.perm_middle.mem_iff.mp hb) with rfl | hb
    · exact absurd rfl hne
    · exact hb

/-- A class has lost the block at `ptr`: so has the heap. -/
theorem HeapInv.freed (hinv : HeapInv base bs s) {ci : Fin numClasses} {c : SlabClass}
    (hci : classFor layout.extent = some ci) (hlive : LiveIn bs ptr layout)
    (hc : ClassShape (sizeOf ci) c) (hbase : c.baseAt = (s.cell.data.classes ci).baseAt)
    (hholds : ∀ q, c.Holds q ↔ (s.cell.data.classes ci).Holds q ∧ q ≠ ptr) :
    HeapInv base (bs.eraseP (Block.isNamed ptr layout))
      ⟨.new { s.cell.data.setClass ci c with deallocCount := s.cell.data.deallocCount + 1 }, s.arena, true⟩ := by
  have hmem := mem_eraseP_isNamed hinv.nodup hlive
  refine ⟨rfl, rfl, hinv.base_eq, (hinv.shape.setClass hc hbase).of_classes rfl, ?_, ?_, ?_, ?_⟩
  · intro cj q
    show ((s.cell.data.setClass ci c).classes cj).Holds q ↔ _
    by_cases hcj : cj = ci
    · subst hcj
      rw [classes_setClass_self, hholds, hinv.holds_iff]
      constructor
      · rintro ⟨⟨b, hb, hbc, rfl⟩, hne⟩
        exact ⟨b, (hmem b).mpr ⟨hb, hne⟩, hbc, rfl⟩
      · rintro ⟨b, hb, hbc, rfl⟩
        obtain ⟨hb, hne⟩ := (hmem b).mp hb
        exact ⟨⟨b, hb, hbc, rfl⟩, hne⟩
    · rw [classes_setClass_ne hcj, hinv.holds_iff]
      constructor
      · rintro ⟨b, hb, hbc, rfl⟩
        refine ⟨b, (hmem b).mpr ⟨hb, ?_⟩, hbc, rfl⟩
        -- the pointer would be held by two classes
        rintro rfl
        obtain ⟨a, ha, hptr, hac⟩ := hlive
        apply hcj
        apply hinv.shape.holds_class ((hinv.holds_iff cj b.ptr).mpr ⟨b, hb, hbc, rfl⟩)
        exact (hinv.holds_iff ci b.ptr).mpr ⟨a, ha, hac.trans hci, hptr⟩
      · rintro ⟨b, hb, hbc, hbq⟩
        exact ⟨b, ((hmem b).mp hb).1, hbc, hbq⟩
  · intro b hb
    exact hinv.classes b ((hmem b).mp hb).1
  · exact hinv.nodup.sublist (List.eraseP_sublist.map _)
  · obtain ⟨a, ha, hname⟩ := hlive
    have hpos : bs.length = bs.length - 1 + 1 := by
      have := List.length_pos_of_mem ha
      omega
    rw [List.length_eraseP_of_mem ha (Block.isNamed_iff.mpr hname)]
    show s.cell.data.allocCount - (s.cell.data.deallocCount + 1) = _
    rw [← BitVec.sub_sub, hinv.count, hpos, BitVec.ofNat_add, Nat.add_sub_cancel]
    exact BitVec.add_sub_cancel ..

/-- **What `dealloc` does.** It removes the block it names, and nothing at all when it names none: a wild
    pointer, one already freed, or one of another class. -/
theorem HeapInv.dealloc_cases (hinv : HeapInv base bs s) (ptr : Nat) (layout : Layout) :
    (¬ LiveIn bs ptr layout ∧ s.dealloc ptr layout = s) ∨
    (LiveIn bs ptr layout ∧
      HeapInv base (bs.eraseP (Block.isNamed ptr layout)) (s.dealloc ptr layout)) := by
  by_cases hnull : ptr = 0
  · left
    refine ⟨?_, if_pos hnull⟩
    rintro ⟨b, hb, hptr, -⟩
    exact hinv.ptr_pos hb (hptr.trans hnull)
  cases hci : classFor layout.extent with
  | none =>
      left
      refine ⟨?_, by simp only [dealloc, if_neg hnull, hci]⟩
      rintro ⟨b, hb, -, hbc⟩
      obtain ⟨ci, hb⟩ := hinv.classes b hb
      cases hb.symm.trans (hbc.trans hci)
  | some ci =>
      have heq : s.dealloc ptr layout
          = ⟨.new (HeapState.deallocIn ci ptr s.cell.data ()).2.1, s.arena, true⟩ := by
        rw [hinv.eq_mk]
        simp only [dealloc, if_neg hnull, hci, SpookyCell.mutateBounded_free _ _ _ (by decide : 0 < 64)]
        rfl
      have hlive : LiveIn bs ptr layout ↔ (s.cell.data.classes ci).Holds ptr := by
        rw [hinv.holds_iff]
        constructor
        · rintro ⟨b, hb, hptr, hbc⟩
          exact ⟨b, hb, hbc.trans hci, hptr⟩
        · rintro ⟨b, hb, hbc, hptr⟩
          exact ⟨b, hb, hptr, hbc.trans hci.symm⟩
      have hclass := hinv.shape.classes ci
      rw [heq]
      cases hd : (s.cell.data.classes ci).dealloc ptr with
      | none =>
          left
          refine ⟨fun hl => dealloc_none hclass (sizeOf_ge ci) hd (hlive.mp hl), ?_⟩
          simp only [HeapState.deallocIn, hd]
          exact hinv.eq_mk.symm
      | some c =>
          right
          obtain ⟨hheld, hshape, hbase, hholds⟩ := dealloc_some hclass (sizeOf_ge ci) hd
          simp only [HeapState.deallocIn, hd]
          exact ⟨hlive.mpr hheld, hinv.freed hci (hlive.mpr hheld) hshape hbase hholds⟩

end

end GlobalSlabHeap

end Slope.Memory
