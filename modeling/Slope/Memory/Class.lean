import Slope.Memory.Page

/-!
# `Memory.Class` — one size class

A class holds the blocks of its pages. Its pages never share a base (`ClassShape.bases_inj`), and a block
tells the base of its page, so a pointer belongs to at most one of them: `alloc` adds one block that was not
held, and `dealloc` removes exactly the block at its pointer, or refuses and changes nothing.
-/

namespace Slope.Memory.SlabClass

open SlabPage

/-- The page in position `i`. -/
def At (c : SlabClass) (i : Fin maxSlabPages) (p : SlabPage) : Prop :=
  i.val < c.pageCount ∧ c.pages i = some p

/-- The base of the page in position `i`. -/
def baseAt (c : SlabClass) (i : Fin maxSlabPages) : Option Nat :=
  if i.val < c.pageCount then (c.pages i).map SlabPage.base else none

def Holds (c : SlabClass) (ptr : Nat) : Prop := ∃ i p, c.At i p ∧ p.Holds ptr

/-- Some page of the class has a free slot. -/
def HasFree (c : SlabClass) : Prop := ∃ i p, c.At i p ∧ p.HasFree

structure ClassShape (size : Nat) (c : SlabClass) : Prop where
  size_eq : c.objectSize = size
  count_le : c.pageCount ≤ maxSlabPages
  pages : ∀ i : Fin maxSlabPages, i.val < c.pageCount → ∃ p, c.pages i = some p ∧ PageShape size p
  bases_inj : ∀ i j b, c.baseAt i = some b → c.baseAt j = some b → i = j

variable {size ptr : Nat} {c c' : SlabClass} {i j : Fin maxSlabPages} {p p' : SlabPage}

theorem At.base (h : c.At i p) : c.baseAt i = some p.base := by
  rw [baseAt, if_pos h.1, h.2]
  rfl

theorem At.shape (h : c.At i p) (hc : ClassShape size c) : PageShape size p := by
  obtain ⟨q, hq, hshape⟩ := hc.pages i h.1
  obtain rfl := Option.some.inj (h.2.symm.trans hq)
  exact hshape

theorem At.unique (h : c.At i p) (h' : c.At i p') : p = p' := Option.some.inj (h.2.symm.trans h'.2)

/-- A pointer is held in at most one position. -/
theorem holds_position (hc : ClassShape size c) (hs : 8 ≤ size) (hi : c.At i p) (hp : p.Holds ptr)
    (hj : c.At j p') (hp' : p'.Holds ptr) : i = j := by
  apply hc.bases_inj i j p.base hi.base
  rw [hj.base, hp.base_eq (hi.shape hc) hs, hp'.base_eq (hj.shape hc) hs]

theorem baseAt_eq_some (hc : ClassShape size c) : (∃ b, c.baseAt i = some b) ↔ i.val < c.pageCount := by
  constructor
  · rintro ⟨b, hb⟩
    by_contra hlt
    rw [baseAt, if_neg hlt] at hb
    cases hb
  · intro hlt
    obtain ⟨p, hp, -⟩ := hc.pages i hlt
    exact ⟨p.base, At.base ⟨hlt, hp⟩⟩

/-! ## Replacing a page -/

theorem at_setPage_self (hi : i.val < c.pageCount) : (c.setPage i p).At i p :=
  ⟨hi, Function.update_self ..⟩

theorem at_setPage_ne (h : j ≠ i) : (c.setPage i p).At j p' ↔ c.At j p' := by
  simp only [At, setPage, Function.update_of_ne h]

/-- A page is replaced by one with the same base. -/
theorem baseAt_setPage (hi : c.At i p) (hbase : p'.base = p.base) : (c.setPage i p').baseAt = c.baseAt := by
  funext j
  by_cases hj : j = i
  · subst hj
    rw [(at_setPage_self hi.1).base, hi.base, hbase]
  · simp only [baseAt, setPage, Function.update_of_ne hj]

theorem classShape_setPage (hc : ClassShape size c) (hi : c.At i p) (hbase : p'.base = p.base)
    (hp' : PageShape size p') : ClassShape size (c.setPage i p') := by
  refine ⟨hc.size_eq, hc.count_le, ?_, ?_⟩
  · intro j hj
    by_cases hji : j = i
    · subst hji
      exact ⟨p', Function.update_self .., hp'⟩
    · obtain ⟨q, hq, hshape⟩ := hc.pages j hj
      have hat : c.At j q := ⟨hj, hq⟩
      exact ⟨q, ((at_setPage_ne hji).mpr hat).2, hshape⟩
  · rw [baseAt_setPage hi hbase]
    exact hc.bases_inj

/-- What a class holds after a page was replaced. -/
theorem holds_setPage (hi : c.At i p) {q : Nat} :
    (c.setPage i p').Holds q ↔ p'.Holds q ∨ ∃ j p'', j ≠ i ∧ c.At j p'' ∧ p''.Holds q := by
  constructor
  · rintro ⟨j, p'', hj, hq⟩
    by_cases hji : j = i
    · subst hji
      obtain rfl := hj.unique (at_setPage_self hi.1)
      exact Or.inl hq
    · exact Or.inr ⟨j, p'', hji, (at_setPage_ne hji).mp hj, hq⟩
  · rintro (hq | ⟨j, p'', hji, hj, hq⟩)
    · exact ⟨i, p', at_setPage_self hi.1, hq⟩
    · exact ⟨j, p'', (at_setPage_ne hji).mpr hj, hq⟩

/-! ## Allocation -/

/-- `c'` is `c` with one more block, at `ptr`. -/
structure Took (size : Nat) (c c' : SlabClass) (ptr : Nat) : Prop where
  shape : ClassShape size c'
  fresh : ¬ c.Holds ptr
  holds : ∀ q, c'.Holds q ↔ q = ptr ∨ c.Holds q

/-- A slot taken from a page that the class has. -/
theorem took_setPage (hc : ClassShape size c) (hs : 8 ≤ size) (hi : c.At i p)
    (h : p.allocSlot = some (ptr, p')) :
    Took size c (c.setPage i p') ptr ∧ (c.setPage i p').baseAt = c.baseAt := by
  obtain ⟨hbase, hshape, hfresh, hholds⟩ := allocSlot_some (hi.shape hc) hs h
  have hp' : p'.Holds ptr := (hholds ptr).mpr (Or.inl rfl)
  refine ⟨⟨classShape_setPage hc hi hbase hshape, ?_, ?_⟩, baseAt_setPage hi hbase⟩
  · rintro ⟨j, p'', hj, hq⟩
    by_cases hji : j = i
    · subst hji
      obtain rfl := hj.unique hi
      exact hfresh hq
    · -- another page would have the same base
      apply hji
      apply hc.bases_inj j i p''.base hj.base
      rw [hi.base, ← hbase, hp'.base_eq hshape hs, hq.base_eq (hj.shape hc) hs]
  · intro q
    rw [holds_setPage hi, hholds]
    constructor
    · rintro ((rfl | hq) | ⟨j, p'', -, hj, hq⟩)
      · exact Or.inl rfl
      · exact Or.inr ⟨i, p, hi, hq⟩
      · exact Or.inr ⟨j, p'', hj, hq⟩
    · rintro (rfl | ⟨j, p'', hj, hq⟩)
      · exact Or.inl (Or.inl rfl)
      · by_cases hji : j = i
        · subst hji
          obtain rfl := hj.unique hi
          exact Or.inl (Or.inr hq)
        · exact Or.inr ⟨j, p'', hji, hj, hq⟩

theorem allocExisting_some (hc : ClassShape size c) (hs : 8 ≤ size) (h : c.allocExisting = some (ptr, c')) :
    c.HasFree ∧ Took size c c' ptr ∧ c'.baseAt = c.baseAt := by
  obtain ⟨i, -, hi⟩ := List.exists_of_findSome?_eq_some h
  dsimp only at hi
  split at hi
  · cases hi
  next hlt =>
  obtain ⟨p, hp, hi⟩ := Option.bind_eq_some_iff.mp hi
  obtain ⟨⟨ptr', p'⟩, ha, hi⟩ := Option.map_eq_some_iff.mp hi
  obtain ⟨rfl, rfl⟩ := Prod.mk.inj hi
  have hat : c.At i p := ⟨Nat.lt_of_not_le hlt, hp⟩
  refine ⟨⟨i, p, hat, ?_⟩, took_setPage hc hs hat ha⟩
  by_contra hfree
  rw [(allocSlot_none (hat.shape hc) hs).mpr hfree] at ha
  cases ha

theorem allocExisting_none (hc : ClassShape size c) (hs : 8 ≤ size) (h : c.allocExisting = none) :
    ¬ c.HasFree := by
  rintro ⟨i, p, hat, hfree⟩
  have hi := List.findSome?_eq_none_iff.mp h i (List.mem_finRange i)
  dsimp only at hi
  rw [if_neg (Nat.not_le.mpr hat.1), hat.2, Option.bind_some, Option.map_eq_none_iff] at hi
  exact (allocSlot_none (hat.shape hc) hs).mp hi hfree

/-! ## Growing -/

section

variable {h : c.pageCount < maxSlabPages}

theorem at_addPage : (c.addPage h p).At j p' ↔ (j = ⟨c.pageCount, h⟩ ∧ p' = p) ∨ c.At j p' := by
  by_cases hj : j = ⟨c.pageCount, h⟩
  · subst hj
    constructor
    · rintro ⟨-, hp⟩
      have hnew : (c.addPage h p).pages ⟨c.pageCount, h⟩ = some p := Function.update_self ..
      exact Or.inl ⟨rfl, Option.some.inj (hp.symm.trans hnew)⟩
    · rintro (⟨-, rfl⟩ | ⟨hlt, -⟩)
      · exact ⟨Nat.lt_succ_self _, Function.update_self ..⟩
      · exact absurd hlt (Nat.lt_irrefl _)
  · have hval : j.val ≠ c.pageCount := fun hc => hj (Fin.ext hc)
    have hpages : (c.addPage h p).pages j = c.pages j := Function.update_of_ne hj ..
    constructor
    · rintro ⟨hlt, hp⟩
      have hlt : j.val < c.pageCount + 1 := hlt
      exact Or.inr ⟨by omega, hpages ▸ hp⟩
    · rintro (⟨hc, -⟩ | ⟨hlt, hp⟩)
      · exact absurd hc hj
      · exact ⟨Nat.lt_succ_of_lt hlt, hpages.trans hp⟩

theorem baseAt_addPage :
    (c.addPage h p).baseAt = Function.update c.baseAt ⟨c.pageCount, h⟩ (some p.base) := by
  funext j
  by_cases hj : j = ⟨c.pageCount, h⟩
  · subst hj
    rw [Function.update_self, (at_addPage.mpr (Or.inl ⟨rfl, rfl⟩)).base]
  · have hval : j.val ≠ c.pageCount := fun hc => hj (Fin.ext hc)
    have hpages : (c.addPage h p).pages j = c.pages j := Function.update_of_ne hj ..
    have hcount : (j.val < (c.addPage h p).pageCount) = (j.val < c.pageCount) := by
      show (j.val < c.pageCount + 1) = _
      rw [eq_iff_iff]
      omega
    rw [Function.update_of_ne hj, baseAt, baseAt, hpages]
    simp only [hcount]

/-- A page with a base of its own may join the class. -/
theorem classShape_addPage (hc : ClassShape size c) (hp : PageShape size p)
    (hfresh : ∀ i, c.baseAt i ≠ some p.base) : ClassShape size (c.addPage h p) := by
  refine ⟨hc.size_eq, h, ?_, ?_⟩
  · intro j hj
    by_cases hj' : j.val < c.pageCount
    · obtain ⟨q, hq, hshape⟩ := hc.pages j hj'
      exact ⟨q, (at_addPage.mpr (Or.inr ⟨hj', hq⟩)).2, hshape⟩
    · have hj : j.val < c.pageCount + 1 := hj
      obtain rfl : j = ⟨c.pageCount, h⟩ := Fin.ext (by dsimp only; omega)
      exact ⟨p, (at_addPage.mpr (Or.inl ⟨rfl, rfl⟩)).2, hp⟩
  · rw [baseAt_addPage]
    intro i j b hi hj
    by_cases hin : i = ⟨c.pageCount, h⟩ <;> by_cases hjn : j = ⟨c.pageCount, h⟩
    · rw [hin, hjn]
    · rw [hin, Function.update_self] at hi
      rw [Function.update_of_ne hjn, ← Option.some.inj hi] at hj
      exact absurd hj (hfresh j)
    · rw [hjn, Function.update_self] at hj
      rw [Function.update_of_ne hin, ← Option.some.inj hj] at hi
      exact absurd hi (hfresh i)
    · rw [Function.update_of_ne hin] at hi
      rw [Function.update_of_ne hjn] at hj
      exact hc.bases_inj i j b hi hj

theorem holds_addPage (hp : ∀ q, ¬ p.Holds q) (q : Nat) : (c.addPage h p).Holds q ↔ c.Holds q := by
  constructor
  · rintro ⟨j, p', hj, hq⟩
    rcases at_addPage.mp hj with ⟨-, rfl⟩ | hj
    · exact absurd hq (hp q)
    · exact ⟨j, p', hj, hq⟩
  · rintro ⟨j, p', hj, hq⟩
    exact ⟨j, p', at_addPage.mpr (Or.inr hj), hq⟩

/-- The slot of the page just added. -/
theorem allocLast_addPage : (c.addPage h p).allocLast
    = p.allocSlot.map fun (ptr, p') => (ptr, (c.addPage h p).setPage ⟨c.pageCount, h⟩ p') := by
  have hlast : (c.addPage h p).pages ⟨c.pageCount, h⟩ = some p :=
    (at_addPage.mpr (Or.inl ⟨rfl, rfl⟩)).2
  have hlt : (c.addPage h p).pageCount - 1 < maxSlabPages := h
  rw [allocLast, dif_pos hlt]
  show ((c.addPage h p).pages ⟨c.pageCount, h⟩).bind _ = _
  rw [hlast]
  rfl

end

/-- **Inversion of `alloc`.** A free slot is taken; or, when there is none, a slot of a fresh page; or, when
    the class or the arena has no page left, nothing happens. -/
theorem alloc_cases {arena : FixedHeapArena} (hc : ClassShape size c) (hs : 8 ≤ size) (hle : size ≤ pageSize)
    (hfresh : ∀ i, c.baseAt i ≠ some (arena.pageBase arena.nextPage)) :
    (c.HasFree ∧ ∃ ptr c', c.alloc arena = (some ptr, c', arena) ∧ Took size c c' ptr ∧
      c'.baseAt = c.baseAt) ∨
    (¬ c.HasFree ∧ arena.nextPage < userHeapPages ∧ ∃ ptr c', ∃ h : c.pageCount < maxSlabPages,
      c.alloc arena = (some ptr, c', { arena with nextPage := arena.nextPage + 1 }) ∧ Took size c c' ptr ∧
      c'.baseAt = Function.update c.baseAt ⟨c.pageCount, h⟩ (some (arena.pageBase arena.nextPage))) ∨
    (¬ c.HasFree ∧ (maxSlabPages ≤ c.pageCount ∨ userHeapPages ≤ arena.nextPage) ∧
      c.alloc arena = (none, c, arena)) := by
  cases hex : c.allocExisting with
  | some r =>
      obtain ⟨ptr, c'⟩ := r
      obtain ⟨hfree, htook, hbase⟩ := allocExisting_some hc hs hex
      exact Or.inl ⟨hfree, ptr, c', by simp only [alloc, hex], htook, hbase⟩
  | none =>
      right
      have hfull := allocExisting_none hc hs hex
      by_cases h : c.pageCount < maxSlabPages
      · by_cases hnext : arena.nextPage < userHeapPages
        · left
          -- the fresh page has a free slot
          have haligned : pageSize ∣ arena.pageBase arena.nextPage :=
            Nat.dvd_add arena.base_aligned (Nat.dvd_mul_left _ _)
          obtain ⟨hshape, hnone, hfree⟩ := pageShape_new haligned hs hle
          have hpage : arena.allocatePage
              = some (arena.pageBase arena.nextPage, { arena with nextPage := arena.nextPage + 1 }) := by
            rw [FixedHeapArena.allocatePage, if_neg (Nat.not_le.mpr hnext)]
          cases ha : (SlabPage.new (arena.pageBase arena.nextPage) size).allocSlot with
          | none => exact absurd hfree ((allocSlot_none hshape hs).mp ha)
          | some r =>
              obtain ⟨ptr, p'⟩ := r
              have hgrow := classShape_addPage (h := h) hc hshape hfresh
              have hat : (c.addPage h (.new (arena.pageBase arena.nextPage) size)).At ⟨c.pageCount, h⟩ _ :=
                at_addPage.mpr (Or.inl ⟨rfl, rfl⟩)
              obtain ⟨htook, hbase⟩ := took_setPage hgrow hs hat ha
              refine ⟨hfull, hnext, ptr, _, h, ?_, ⟨htook.shape, ?_, ?_⟩, hbase.trans baseAt_addPage⟩
              · simp only [alloc, hex, grow, dif_pos h, hpage, hc.size_eq, allocLast_addPage, ha,
                  Option.map_some]
              · rw [← holds_addPage hnone]
                exact htook.fresh
              · intro q
                rw [htook.holds, holds_addPage hnone]
        · right
          refine ⟨hfull, Or.inr (Nat.le_of_not_lt hnext), ?_⟩
          simp only [alloc, hex, grow, dif_pos h, FixedHeapArena.allocatePage,
            if_pos (Nat.le_of_not_lt hnext)]
      · right
        exact ⟨hfull, Or.inl (Nat.le_of_not_lt h), by simp only [alloc, hex, grow, dif_neg h]⟩

/-! ## Freeing -/

/-- **Inversion of a successful `dealloc`.** -/
theorem dealloc_some (hc : ClassShape size c) (hs : 8 ≤ size) (h : c.dealloc ptr = some c') :
    c.Holds ptr ∧ ClassShape size c' ∧ c'.baseAt = c.baseAt ∧ ∀ q, c'.Holds q ↔ c.Holds q ∧ q ≠ ptr := by
  obtain ⟨i, -, hi⟩ := List.exists_of_findSome?_eq_some h
  split at hi
  · cases hi
  next hlt =>
  obtain ⟨p, hp, hi⟩ := Option.bind_eq_some_iff.mp hi
  obtain ⟨p', hd, rfl⟩ := Option.map_eq_some_iff.mp hi
  have hat : c.At i p := ⟨Nat.lt_of_not_le hlt, hp⟩
  obtain ⟨hheld, hbase, hshape, hholds⟩ := deallocSlot_some (hat.shape hc) hs hd
  refine ⟨⟨i, p, hat, hheld⟩, classShape_setPage hc hat hbase hshape, baseAt_setPage hat hbase, ?_⟩
  intro q
  rw [holds_setPage hat, hholds]
  constructor
  · rintro (⟨hq, hne⟩ | ⟨j, p'', hji, hj, hq⟩)
    · exact ⟨⟨i, p, hat, hq⟩, hne⟩
    · refine ⟨⟨j, p'', hj, hq⟩, ?_⟩
      rintro rfl
      exact hji (holds_position hc hs hj hq hat hheld)
  · rintro ⟨⟨j, p'', hj, hq⟩, hne⟩
    by_cases hji : j = i
    · subst hji
      obtain rfl := hj.unique hat
      exact Or.inl ⟨hq, hne⟩
    · exact Or.inr ⟨j, p'', hji, hj, hq⟩

theorem dealloc_none (hc : ClassShape size c) (hs : 8 ≤ size) (h : c.dealloc ptr = none) : ¬ c.Holds ptr := by
  rintro ⟨i, p, hat, hheld⟩
  have hi := List.findSome?_eq_none_iff.mp h i (List.mem_finRange i)
  rw [if_neg (Nat.not_le.mpr hat.1), hat.2, Option.bind_some, Option.map_eq_none_iff] at hi
  exact deallocSlot_none (hat.shape hc) hs hi hheld

/-! ## Where blocks lie -/

/-- A block lies in a slot of one of the pages. -/
theorem Holds.slot (h : c.Holds ptr) (hc : ClassShape size c) :
    ∃ i b slot, c.baseAt i = some b ∧ ptr = b + slot * size ∧ slot * size + size ≤ pageSize := by
  obtain ⟨i, p, hat, slot, hlt, -, rfl⟩ := h
  have hshape := hat.shape hc
  exact ⟨i, p.base, slot, hat.base, by rw [hshape.size_eq], slot_end_le hshape hlt⟩

theorem not_holds_uninit (size q : Nat) : ¬ (uninit size).Holds q := by
  rintro ⟨i, p, ⟨hlt, -⟩, -⟩
  exact absurd hlt (Nat.not_lt_zero _)

theorem baseAt_uninit (size : Nat) (i : Fin maxSlabPages) : (uninit size).baseAt i = none := rfl

theorem classShape_uninit (size : Nat) : ClassShape size (uninit size) := by
  refine ⟨rfl, Nat.zero_le _, ?_, ?_⟩
  · intro i hi
    exact absurd hi (Nat.not_lt_zero _)
  · intro i j b hi
    rw [baseAt_uninit] at hi
    cases hi

end Slope.Memory.SlabClass
