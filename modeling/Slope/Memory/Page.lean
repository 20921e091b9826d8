import Mathlib.Data.Finset.Card
import Mathlib.Data.Finset.Range
import Slope.Memory.Slab

/-!
# `Memory.Page` — one slab page

A page holds the blocks of its allocated slots (`SlabPage.Holds`). Taking a slot adds one block that was not
held, freeing a pointer removes exactly the block at that pointer and is refused when there is none. The
well-formedness that makes this true (`PageShape`) is kept by both.
-/

namespace Slope.Memory.SlabPage

/-! ## The mask of a fresh page -/

theorem toNat_bitMask {r : Nat} (hr : r < 64) : (bitMask r).toNat = 2 ^ r := by
  rw [bitMask, BitVec.toNat_shiftLeft, Nat.shiftLeft_eq]
  show 1 * 2 ^ r % 2 ^ 64 = 2 ^ r
  rw [Nat.one_mul, Nat.mod_eq_of_lt (Nat.pow_lt_pow_right (by decide) hr)]

/-- `(1 << r) - 1` has the bits below `r`. -/
theorem getLsbD_bitMask_sub_one {r : Nat} (hr : r < 64) (j : Nat) :
    (bitMask r - 1).getLsbD j = decide (j < r) := by
  have hpos : 0 < 2 ^ r := Nat.pow_pos (by decide)
  have hle : (1 : U64) ≤ bitMask r := by
    rw [BitVec.le_def, toNat_bitMask hr]
    exact hpos
  rw [BitVec.getLsbD, BitVec.toNat_sub_of_le hle, toNat_bitMask hr]
  exact Nat.testBit_two_pow_sub_one r j

theorem getLsbD_wholeWord (c : Prop) [Decidable c] {j : Nat} (hj : j < 64) :
    (if c then BitVec.allOnes 64 else (0 : U64)).getLsbD j = decide c := by
  by_cases h : c
  · rw [if_pos h, BitVec.getLsbD_allOnes, decide_eq_true hj, decide_eq_true h]
  · rw [if_neg h, decide_eq_false h]
    exact BitVec.getLsbD_zero

/-- The fresh mask is exactly the set of slots. -/
theorem get_freshMask {slotCount : Nat} (h : slotCount ≤ bitmaskWords * 64) (i : Nat) :
    (freshMask slotCount).get i = decide (i < slotCount) := by
  have hwords : bitmaskWords = 8 := rfl
  by_cases hi : i / 64 < bitmaskWords
  · rw [Bitmap.get, dif_pos hi, freshMask]
    by_cases hcut : slotCount % 64 ≠ 0 ∧ 0 < wordCount slotCount
    · -- the last word is cut
      have hlast : wordCount slotCount - 1 = slotCount / 64 := by unfold wordCount; omega
      have hlt : wordCount slotCount - 1 < bitmaskWords := by omega
      rw [if_pos hcut, dif_pos hlt]
      by_cases heq : (⟨i / 64, hi⟩ : Fin bitmaskWords) = ⟨wordCount slotCount - 1, hlt⟩
      · have hval : i / 64 = slotCount / 64 := (congrArg Fin.val heq).trans hlast
        rw [heq, Function.update_self, getLsbD_bitMask_sub_one (Nat.mod_lt _ (by decide))]
        exact decide_eq_decide.mpr (by omega)
      · have hval : i / 64 ≠ slotCount / 64 := fun hc => heq (Fin.ext (hc.trans hlast.symm))
        rw [Function.update_of_ne heq, getLsbD_wholeWord _ (Nat.mod_lt _ (by decide))]
        exact decide_eq_decide.mpr (by dsimp only; unfold wordCount; omega)
    · rw [if_neg hcut, getLsbD_wholeWord _ (Nat.mod_lt _ (by decide))]
      unfold wordCount at hcut
      exact decide_eq_decide.mpr (by dsimp only; unfold wordCount; omega)
  · rw [Bitmap.get, dif_neg hi]
    have : ¬ i < slotCount := by omega
    simp [this]

/-! ## Well-formed pages -/

def freeSlots (p : SlabPage) : Finset Nat := (Finset.range p.slotCount).filter fun i => p.freeMask.get i

/-- A page of the class of size `size`. -/
structure PageShape (size : Nat) (p : SlabPage) : Prop where
  base_aligned : pageSize ∣ p.base
  size_eq : p.objectSize = size
  slots_eq : p.slotCount = pageSize / size
  free_lt : ∀ i, p.freeMask.get i = true → i < p.slotCount
  count_eq : p.freeCount.toNat = p.freeSlots.card

/-- The page holds a block at `ptr`. -/
def Holds (p : SlabPage) (ptr : Nat) : Prop :=
  ∃ slot, slot < p.slotCount ∧ p.freeMask.get slot = false ∧ ptr = p.base + slot * p.objectSize

/-- Some slot of the page is free. -/
def HasFree (p : SlabPage) : Prop := ∃ slot, slot < p.slotCount ∧ p.freeMask.get slot = true

section

variable {size ptr : Nat} {p p' : SlabPage}

theorem slotCount_le (hp : PageShape size p) (hs : 8 ≤ size) : p.slotCount ≤ bitmaskWords * 64 := by
  rw [hp.slots_eq]
  show pageSize / size ≤ 512
  exact Nat.div_le_of_le_mul (by unfold pageSize; omega)

/-- A slot lies inside the page. -/
theorem slot_end_le (hp : PageShape size p) {slot : Nat} (h : slot < p.slotCount) :
    slot * size + size ≤ pageSize := by
  rw [hp.slots_eq] at h
  have hle : (slot + 1) * size ≤ pageSize / size * size := Nat.mul_le_mul_right _ h
  have := Nat.div_mul_le_self pageSize size
  rw [Nat.succ_mul] at hle
  omega

/-- The address of a slot tells its page. -/
theorem base_of_slot (hp : PageShape size p) (hs : 8 ≤ size) {slot : Nat} (h : slot < p.slotCount) :
    p.base = (p.base + slot * size) / pageSize * pageSize := by
  have hend := slot_end_le hp h
  obtain ⟨k, hk⟩ := hp.base_aligned
  have hdiv : (p.base + slot * size) / pageSize = k := by
    rw [hk]
    apply Nat.div_eq_of_lt_le
    · rw [Nat.mul_comm]; omega
    · rw [Nat.succ_mul, Nat.mul_comm k]; omega
  rw [hdiv, hk, Nat.mul_comm]

theorem Holds.base_eq (h : p.Holds ptr) (hp : PageShape size p) (hs : 8 ≤ size) :
    p.base = ptr / pageSize * pageSize := by
  obtain ⟨slot, hslot, -, rfl⟩ := h
  rw [hp.size_eq]
  exact base_of_slot hp hs hslot

/-- Different slots have different addresses. -/
theorem slot_address_inj (hs : 8 ≤ size) {base slot slot' : Nat}
    (h : base + slot * size = base + slot' * size) : slot = slot' :=
  Nat.eq_of_mul_eq_mul_right (by omega : 0 < size) (Nat.add_left_cancel h)

/-- A fresh page is well formed, holds nothing and has a free slot. -/
theorem pageShape_new {base : Nat} (hb : pageSize ∣ base) (hs : 8 ≤ size) (hle : size ≤ pageSize) :
    PageShape size (new base size) ∧ (∀ q, ¬ (new base size).Holds q) ∧ (new base size).HasFree := by
  have hcount : pageSize / size ≤ bitmaskWords * 64 := by
    show pageSize / size ≤ 512
    exact Nat.div_le_of_le_mul (by unfold pageSize; omega)
  have hmask := get_freshMask hcount
  refine ⟨⟨hb, rfl, rfl, ?_, ?_⟩, ?_, ?_⟩
  · intro i hi
    simpa [new, hmask] using hi
  · have hall : (new base size).freeSlots = Finset.range (pageSize / size) := by
      ext i
      simp [freeSlots, new, hmask]
    have hmin : min (pageSize / size) 0xffff = pageSize / size :=
      Nat.min_eq_left (Nat.le_trans hcount (by decide))
    rw [hall, Finset.card_range]
    show (BitVec.ofNat 16 (min (pageSize / size) 0xffff)).toNat = _
    rw [hmin, BitVec.toNat_ofNat]
    exact Nat.mod_eq_of_lt (Nat.lt_of_le_of_lt hcount (by decide))
  · rintro q ⟨slot, hslot, hget, -⟩
    have hfree : (new base size).freeMask.get slot = true := by
      show (freshMask (pageSize / size)).get slot = true
      rw [hmask]
      exact decide_eq_true hslot
    rw [hfree] at hget
    cases hget
  · have hpos : 0 < pageSize / size := Nat.div_pos hle (by omega)
    refine ⟨0, hpos, ?_⟩
    show (freshMask (pageSize / size)).get 0 = true
    rw [hmask]
    exact decide_eq_true hpos

/-! ## Taking a slot -/

/-- Removing a free slot from the mask, or adding a taken one, moves the count by one. -/
theorem card_free_clear (hp : PageShape size p) {slot : Nat} (hfree : p.freeMask.get slot = true)
    {mask : Bitmap bitmaskWords} (hmask : ∀ i, mask.get i = (p.freeMask.get i && decide (i ≠ slot))) :
    (p.freeCount - 1).toNat = (freeSlots { p with freeMask := mask, freeCount := p.freeCount - 1 }).card := by
  have herase : freeSlots { p with freeMask := mask, freeCount := p.freeCount - 1 }
      = p.freeSlots.erase slot := by
    ext i
    simp only [freeSlots, Finset.mem_filter, Finset.mem_erase, hmask, Bool.and_eq_true, decide_eq_true_eq]
    tauto
  have hmem : slot ∈ p.freeSlots :=
    Finset.mem_filter.mpr ⟨Finset.mem_range.mpr (hp.free_lt slot hfree), hfree⟩
  have hpos := Finset.card_pos.mpr ⟨slot, hmem⟩
  rw [herase, Finset.card_erase_of_mem hmem, BitVec.toNat_sub_of_le, hp.count_eq]
  · rfl
  · rw [BitVec.le_def, hp.count_eq]
    exact hpos

theorem card_free_set (hp : PageShape size p) (hs : 8 ≤ size) {slot : Nat} (hlt : slot < p.slotCount)
    (htaken : p.freeMask.get slot = false)
    {mask : Bitmap bitmaskWords} (hmask : ∀ i, mask.get i = (p.freeMask.get i || decide (i = slot))) :
    (p.freeCount + 1).toNat = (freeSlots { p with freeMask := mask, freeCount := p.freeCount + 1 }).card := by
  have hinsert : freeSlots { p with freeMask := mask, freeCount := p.freeCount + 1 }
      = insert slot p.freeSlots := by
    ext i
    simp only [freeSlots, Finset.mem_filter, Finset.mem_insert, Finset.mem_range, hmask, Bool.or_eq_true,
      decide_eq_true_eq]
    constructor
    · rintro ⟨hi, hg | rfl⟩
      · exact Or.inr ⟨hi, hg⟩
      · exact Or.inl rfl
    · rintro (rfl | ⟨hi, hg⟩)
      · exact ⟨hlt, Or.inr rfl⟩
      · exact ⟨hi, Or.inl hg⟩
  have hnot : slot ∉ p.freeSlots := by
    intro hmem
    have := (Finset.mem_filter.mp hmem).2
    rw [htaken] at this
    cases this
  have hle : p.freeSlots.card ≤ p.slotCount := by
    refine Nat.le_trans (Finset.card_filter_le _ _) ?_
    rw [Finset.card_range]
  have hbound := slotCount_le hp hs
  have hwords : bitmaskWords * 64 = 512 := rfl
  rw [hinsert, Finset.card_insert_of_notMem hnot, BitVec.toNat_add, hp.count_eq]
  show (p.freeSlots.card + 1) % 2 ^ 16 = _
  rw [Nat.mod_eq_of_lt (by omega)]

/-- Taking a slot adds its block to those held. -/
theorem holds_clear {slot : Nat} (hlt : slot < p.slotCount) {mask : Bitmap bitmaskWords} {count : U16}
    (hmask : ∀ i, mask.get i = (p.freeMask.get i && decide (i ≠ slot))) (q : Nat) :
    Holds { p with freeMask := mask, freeCount := count } q ↔
      q = p.base + slot * p.objectSize ∨ p.Holds q := by
  constructor
  · rintro ⟨slot', hlt', htaken, hq⟩
    rw [hmask, Bool.and_eq_false_iff, decide_eq_false_iff_not, not_not] at htaken
    rcases htaken with htaken | rfl
    · exact Or.inr ⟨slot', hlt', htaken, hq⟩
    · exact Or.inl hq
  · rintro (rfl | ⟨slot', hlt', htaken, hq⟩)
    · exact ⟨slot, hlt, by simp [hmask], rfl⟩
    · exact ⟨slot', hlt', by simp [hmask, htaken], hq⟩

/-- Giving a slot back removes its block: no other slot has the same address. -/
theorem holds_set (hp : PageShape size p) (hs : 8 ≤ size) {slot : Nat} {mask : Bitmap bitmaskWords} {count : U16}
    (hmask : ∀ i, mask.get i = (p.freeMask.get i || decide (i = slot))) (q : Nat) :
    Holds { p with freeMask := mask, freeCount := count } q ↔
      p.Holds q ∧ q ≠ p.base + slot * p.objectSize := by
  constructor
  · rintro ⟨slot', hlt', hbusy, hq⟩
    rw [hmask, Bool.or_eq_false_iff, decide_eq_false_iff_not] at hbusy
    refine ⟨⟨slot', hlt', hbusy.1, hq⟩, fun heq => hbusy.2 ?_⟩
    have hsame : p.base + slot' * p.objectSize = p.base + slot * p.objectSize := hq.symm.trans heq
    rw [hp.size_eq] at hsame
    exact slot_address_inj hs hsame
  · rintro ⟨⟨slot', hlt', hbusy, hq⟩, hne⟩
    have hss : slot' ≠ slot := by
      rintro rfl
      exact hne hq
    exact ⟨slot', hlt', by simp [hmask, hbusy, hss], hq⟩

/-- **Inversion of `alloc_slot`.** -/
theorem allocSlot_some (hp : PageShape size p) (hs : 8 ≤ size) (h : p.allocSlot = some (ptr, p')) :
    p'.base = p.base ∧ PageShape size p' ∧ ¬ p.Holds ptr ∧ (∀ q, p'.Holds q ↔ q = ptr ∨ p.Holds q) := by
  obtain ⟨wi, -, hw⟩ := List.exists_of_findSome?_eq_some h
  dsimp only at hw
  split at hw
  · cases hw
  split at hw
  · cases hw
  next hne =>
  split at hw
  · cases hw
  next hslot =>
  obtain ⟨hptr, hp'⟩ := Prod.mk.inj (Option.some.inj hw)
  -- the lowest set bit of the word names a free slot; from here on only its number matters
  obtain ⟨hbit, hfree⟩ := p.freeMask.get_trailingZeros hne
  have hmask := p.freeMask.get_clear wi hbit
  generalize hslotEq : wi.val * 64 + (p.freeMask wi).ctz.toNat = slot at *
  have hlt : slot < p.slotCount := Nat.lt_of_not_le hslot
  subst hp'
  refine ⟨rfl, ⟨hp.base_aligned, hp.size_eq, hp.slots_eq, ?_, card_free_clear hp hfree hmask⟩, ?_, ?_⟩
  · intro i hi
    rw [hmask, Bool.and_eq_true] at hi
    exact hp.free_lt i hi.1
  · rintro ⟨slot', hlt', htaken, heq⟩
    rw [← hptr, hp.size_eq] at heq
    obtain rfl := slot_address_inj hs heq
    rw [hfree] at htaken
    cases htaken
  · intro q
    rw [← hptr]
    exact holds_clear hlt hmask q

/-- `alloc_slot` fails exactly when no slot is free. -/
theorem allocSlot_none (hp : PageShape size p) (hs : 8 ≤ size) : p.allocSlot = none ↔ ¬ p.HasFree := by
  have hbound := slotCount_le hp hs
  rw [allocSlot, List.findSome?_eq_none_iff]
  constructor
  · rintro h ⟨slot, hlt, hfree⟩
    -- the word of a free slot is not zero, so its lowest free slot would have been taken
    have hwi : slot / 64 < bitmaskWords := by omega
    have hw := h ⟨slot / 64, hwi⟩ (List.mem_finRange _)
    dsimp only at hw
    have hne : p.freeMask ⟨slot / 64, hwi⟩ ≠ 0 := by
      intro hz
      rw [Bitmap.get, dif_pos hwi, hz] at hfree
      simp at hfree
    obtain ⟨hbit, hlow⟩ := p.freeMask.get_trailingZeros hne
    have hlowlt := hp.free_lt _ hlow
    rw [if_neg (by unfold wordCount; omega), if_neg hne, if_neg (Nat.not_le.mpr hlowlt)] at hw
    cases hw
  · intro h wi _
    dsimp only
    split
    · rfl
    split
    · rfl
    next hne =>
    split
    · rfl
    next hslot =>
    obtain ⟨hbit, hfree⟩ := p.freeMask.get_trailingZeros hne
    exact absurd ⟨_, Nat.lt_of_not_le hslot, hfree⟩ h

/-! ## Freeing a pointer -/

/-- **Inversion of `dealloc_slot`.** -/
theorem deallocSlot_some (hp : PageShape size p) (hs : 8 ≤ size) (h : p.deallocSlot ptr = some p') :
    p.Holds ptr ∧ p'.base = p.base ∧ PageShape size p' ∧ (∀ q, p'.Holds q ↔ p.Holds q ∧ q ≠ ptr) := by
  unfold deallocSlot at h
  split at h
  · cases h
  next hbase =>
  dsimp only at h
  split at h
  · cases h
  next hoff =>
  split at h
  · cases h
  next hslot =>
  split at h
  next hwi =>
    split at h
    · cases h
    next hbit =>
    -- word and bit of the slot, joined again
    have hmod : (ptr - p.base) / p.objectSize % 64 < 64 := Nat.mod_lt _ (by decide)
    have hget := p.freeMask.get_set ⟨_, hwi⟩ hmod
    have hjoin : (ptr - p.base) / p.objectSize / 64 * 64 + (ptr - p.base) / p.objectSize % 64
        = (ptr - p.base) / p.objectSize := Nat.div_add_mod' _ _
    have htaken := p.freeMask.get_eq ⟨_, hwi⟩ hmod
    rw [(and_bitMask_eq_zero _ hmod).mp (not_not.mp hbit)] at htaken
    have hptr : ptr = p.base + (ptr - p.base) / p.objectSize * p.objectSize := by
      have := Nat.div_add_mod' (ptr - p.base) p.objectSize
      omega
    dsimp only at hget htaken
    rw [hjoin] at hget htaken
    obtain rfl := Option.some.inj h
    generalize (ptr - p.base) / p.objectSize = slot at *
    have hlt : slot < p.slotCount := Nat.lt_of_not_le hslot
    refine ⟨⟨slot, hlt, htaken, hptr⟩, rfl,
      ⟨hp.base_aligned, hp.size_eq, hp.slots_eq, ?_, card_free_set hp hs hlt htaken hget⟩, ?_⟩
    · intro i hi
      rw [hget, Bool.or_eq_true, decide_eq_true_eq] at hi
      rcases hi with hi | rfl
      · exact hp.free_lt i hi
      · exact hlt
    · intro q
      rw [hptr]
      exact holds_set hp hs hget q
  · cases h

/-- A held block can be freed. -/
theorem deallocSlot_none (hp : PageShape size p) (hs : 8 ≤ size) (h : p.deallocSlot ptr = none) :
    ¬ p.Holds ptr := by
  rintro ⟨slot, hlt, htaken, hptr⟩
  have hbound := slotCount_le hp hs
  have hpos : 0 < p.objectSize := by rw [hp.size_eq]; omega
  have hoff : ptr - p.base = slot * p.objectSize := by omega
  have hwi : slot / 64 < bitmaskWords := by omega
  have hmod : slot % 64 < 64 := Nat.mod_lt _ (by decide)
  have hget := p.freeMask.get_eq ⟨slot / 64, hwi⟩ hmod
  dsimp only at hget
  rw [Nat.div_add_mod', htaken] at hget
  have hzero := (and_bitMask_eq_zero _ hmod).mpr hget.symm
  unfold deallocSlot at h
  rw [if_neg (by omega), hoff] at h
  dsimp only at h
  rw [if_neg (by simp), Nat.mul_div_cancel _ hpos, if_neg (by omega), dif_pos hwi,
    if_neg (not_not.mpr hzero)] at h
  cases h

end

end Slope.Memory.SlabPage
