import Mathlib.Data.Fintype.Fin
import Slope.Lib.Quota
import Slope.Memory.Safety

/-!
# `Memory.Capacity` — what the slab heap can still give out

The heap refines the pool of `Lib.Quota`: the kinds are the size classes, a class of blocks of `size` bytes has
`4096 / size` slots a page, and the arena is the budget. Forgetting where the blocks are, and keeping how many there
are, each call of `alloc` is a `take` and each `dealloc` of a live block a `give` (`alloc_pool`, `dealloc_pool`).

So the layout of the blocks does not matter for what is left: a class has the pages that its largest number of live
blocks so far needed, and keeps them; and whether an allocation succeeds follows from these numbers alone.
-/

namespace Slope.Memory.GlobalSlabHeap

open SlabClass

/-- The slots of a page of class `ci`. -/
def slotsOf (ci : Fin numClasses) : Nat := pageSize / sizeOf ci

theorem slotsOf_pos (ci : Fin numClasses) : 0 < slotsOf ci :=
  Nat.div_pos (sizeOf_le ci) (Nat.lt_of_lt_of_le (by decide) (sizeOf_ge ci))

def slabTerms : Quota.Terms (Fin numClasses) where
  slots := slotsOf
  slots_pos := slotsOf_pos
  budget := userHeapPages

/-- The live blocks of class `ci`. -/
def demand (ci : Fin numClasses) (bs : List Block) : Nat := bs.countP fun b => decide (b.classOf = some ci)

/-- The heap, but for where its blocks are. -/
def poolOf (bs : List Block) (s : GlobalSlabHeap) : Quota.Pool (Fin numClasses) where
  live ci := demand ci bs
  pages ci := (s.cell.data.classes ci).pageCount

/-! ## Counting slots -/

/-- The addresses of the slots of a class. -/
def slotAddresses (size : Nat) (c : SlabClass) : Finset Nat :=
  ((Finset.univ.filter fun i : Fin maxSlabPages => i.val < c.pageCount) ×ˢ Finset.range (pageSize / size)).image
    fun x => (c.baseAt x.1).getD 0 + x.2 * size

section

variable {size : Nat} {c : SlabClass}

theorem mem_slotAddresses (hc : ClassShape size c) {q : Nat} :
    q ∈ slotAddresses size c ↔ ∃ i p slot, c.At i p ∧ slot < p.slotCount ∧ q = p.base + slot * size := by
  unfold slotAddresses
  rw [Finset.mem_image]
  constructor
  · rintro ⟨⟨i, slot⟩, hmem, rfl⟩
    obtain ⟨hi, hslot⟩ := Finset.mem_product.mp hmem
    obtain ⟨p, hp, hshape⟩ := hc.pages i (Finset.mem_filter.mp hi).2
    have hat : c.At i p := ⟨(Finset.mem_filter.mp hi).2, hp⟩
    refine ⟨i, p, slot, hat, hshape.slots_eq ▸ Finset.mem_range.mp hslot, ?_⟩
    show (c.baseAt i).getD 0 + slot * size = _
    rw [hat.base]
    rfl
  · rintro ⟨i, p, slot, hat, hslot, rfl⟩
    refine ⟨⟨i, slot⟩, Finset.mem_product.mpr ⟨?_, ?_⟩, ?_⟩
    · exact Finset.mem_filter.mpr ⟨Finset.mem_univ i, hat.1⟩
    · exact Finset.mem_range.mpr ((hat.shape hc).slots_eq ▸ hslot)
    · show (c.baseAt i).getD 0 + slot * size = _
      rw [hat.base]
      rfl

theorem card_slotAddresses (hc : ClassShape size c) (hs : 8 ≤ size) :
    (slotAddresses size c).card = c.pageCount * (pageSize / size) := by
  unfold slotAddresses
  rw [Finset.card_image_of_injOn, Finset.card_product, Finset.card_range, Fin.card_filter_val_lt,
    Nat.min_eq_right hc.count_le]
  rintro ⟨i, slot⟩ hx ⟨j, slot'⟩ hy heq
  obtain ⟨hi, hslot⟩ := Finset.mem_product.mp hx
  obtain ⟨hj, hslot'⟩ := Finset.mem_product.mp hy
  obtain ⟨p, hp, hshape⟩ := hc.pages i (Finset.mem_filter.mp hi).2
  obtain ⟨p', hp', hshape'⟩ := hc.pages j (Finset.mem_filter.mp hj).2
  have hat : c.At i p := ⟨(Finset.mem_filter.mp hi).2, hp⟩
  have hat' : c.At j p' := ⟨(Finset.mem_filter.mp hj).2, hp'⟩
  have heq' : p.base + slot * size = p'.base + slot' * size := by
    have heq : (c.baseAt i).getD 0 + slot * size = (c.baseAt j).getD 0 + slot' * size := heq
    rw [hat.base, hat'.base] at heq
    exact heq
  -- the address tells the page, and then the slot
  have hbase : p.base = p'.base := by
    rw [SlabPage.base_of_slot hshape hs (hshape.slots_eq ▸ Finset.mem_range.mp hslot), heq',
      ← SlabPage.base_of_slot hshape' hs (hshape'.slots_eq ▸ Finset.mem_range.mp hslot')]
  obtain rfl := hc.bases_inj i j _ hat.base (hbase ▸ hat'.base)
  rw [hbase] at heq'
  rw [SlabPage.slot_address_inj hs heq']

end

section

variable {base : Nat} {bs : List Block} {s : GlobalSlabHeap} {ci : Fin numClasses} {layout : Layout} {ptr : Nat}

/-- The addresses of the live blocks of a class. -/
def liveAddresses (ci : Fin numClasses) (bs : List Block) : Finset Nat :=
  ((bs.filter fun b => decide (b.classOf = some ci)).map Block.ptr).toFinset

theorem mem_liveAddresses {q : Nat} : q ∈ liveAddresses ci bs ↔ ∃ b ∈ bs, b.classOf = some ci ∧ b.ptr = q := by
  unfold liveAddresses
  simp only [List.mem_toFinset, List.mem_map, List.mem_filter, decide_eq_true_eq, and_assoc]

theorem HeapInv.card_liveAddresses (hinv : HeapInv base bs s) (ci : Fin numClasses) :
    (liveAddresses ci bs).card = demand ci bs := by
  have hnodup : ((bs.filter fun b => decide (b.classOf = some ci)).map Block.ptr).Nodup :=
    hinv.nodup.sublist (List.filter_sublist.map _)
  unfold liveAddresses demand
  rw [List.toFinset_card_of_nodup hnodup, List.length_map, List.countP_eq_length_filter]

/-- Live blocks are in slots. -/
theorem HeapInv.live_subset (hinv : HeapInv base bs s) (ci : Fin numClasses) :
    liveAddresses ci bs ⊆ slotAddresses (sizeOf ci) (s.cell.data.classes ci) := by
  intro q hq
  have hheld := (hinv.holds_iff ci q).mpr (mem_liveAddresses.mp hq)
  obtain ⟨i, p, hat, slot, hslot, -, rfl⟩ := hheld
  have hshape := hat.shape (hinv.shape.classes ci)
  rw [mem_slotAddresses (hinv.shape.classes ci)]
  exact ⟨i, p, slot, hat, hslot, by rw [hshape.size_eq]⟩

/-- A class has no more live blocks than slots. -/
theorem HeapInv.demand_le (hinv : HeapInv base bs s) (ci : Fin numClasses) :
    demand ci bs ≤ (s.cell.data.classes ci).pageCount * slotsOf ci := by
  have hcard := Finset.card_le_card (hinv.live_subset ci)
  rw [hinv.card_liveAddresses, card_slotAddresses (hinv.shape.classes ci) (sizeOf_ge ci)] at hcard
  exact hcard

/-- It has a free slot exactly if it has fewer. -/
theorem HeapInv.hasFree_iff_demand (hinv : HeapInv base bs s) (ci : Fin numClasses) :
    (s.cell.data.classes ci).HasFree ↔ demand ci bs < (s.cell.data.classes ci).pageCount * slotsOf ci := by
  have hclass := hinv.shape.classes ci
  have hcard := card_slotAddresses hclass (sizeOf_ge ci)
  constructor
  · intro hfree
    obtain ⟨k, slot, ⟨i, hbase⟩, hslot, hnone⟩ := (hinv.hasFree_iff ci).mp hfree
    have hi := (baseAt_eq_some hclass).mp ⟨_, hbase⟩
    obtain ⟨p, hp, hshape⟩ := hclass.pages i hi
    have hat : (s.cell.data.classes ci).At i p := ⟨hi, hp⟩
    have hpage : p.base = s.arena.pageBase k := Option.some.inj (hat.base.symm.trans hbase)
    have hmem : s.arena.pageBase k + slot * sizeOf ci ∈ slotAddresses (sizeOf ci) (s.cell.data.classes ci) :=
      (mem_slotAddresses hclass).mpr ⟨i, p, slot, hat, hshape.slots_eq ▸ hslot, by rw [hpage]⟩
    have hnot : s.arena.pageBase k + slot * sizeOf ci ∉ liveAddresses ci bs := by
      intro hlive
      obtain ⟨b, hb, -, hptr⟩ := mem_liveAddresses.mp hlive
      exact hnone b hb hptr
    have hssub := (Finset.ssubset_iff_of_subset (hinv.live_subset ci)).mpr ⟨_, hmem, hnot⟩
    have hlt := Finset.card_lt_card hssub
    rw [hinv.card_liveAddresses, hcard] at hlt
    exact hlt
  · intro hlt
    by_contra hfull
    have hsub : slotAddresses (sizeOf ci) (s.cell.data.classes ci) ⊆ liveAddresses ci bs := by
      intro q hq
      obtain ⟨i, p, slot, hat, hslot, rfl⟩ := (mem_slotAddresses hclass).mp hq
      have hshape := hat.shape hclass
      have htaken : p.freeMask.get slot = false := by
        by_contra hset
        exact hfull ⟨i, p, hat, slot, hslot, eq_true_of_ne_false hset⟩
      refine mem_liveAddresses.mpr ((hinv.holds_iff ci _).mp ?_)
      exact ⟨i, p, hat, slot, hslot, htaken, by rw [hshape.size_eq]⟩
    have hle := Finset.card_le_card hsub
    rw [hinv.card_liveAddresses, hcard] at hle
    exact absurd hlt (Nat.not_lt.mpr hle)

/-! ## The heap as a pool -/

/-- The pages of a class are those with a base. -/
theorem pageCount_eq {size n : Nat} {c : SlabClass} (hc : ClassShape size c) (hn : n ≤ maxSlabPages)
    (hbase : ∀ i, (∃ b, c.baseAt i = some b) ↔ i.val < n) : c.pageCount = n := by
  have hiff : ∀ i : Fin maxSlabPages, i.val < c.pageCount ↔ i.val < n := by
    intro i
    rw [← baseAt_eq_some hc, hbase]
  have hle := hc.count_le
  rcases Nat.lt_trichotomy c.pageCount n with hlt | heq | hgt
  · exact absurd ((hiff ⟨c.pageCount, Nat.lt_of_lt_of_le hlt hn⟩).mpr hlt) (Nat.lt_irrefl _)
  · exact heq
  · exact absurd ((hiff ⟨n, Nat.lt_of_lt_of_le hgt hle⟩).mp hgt) (Nat.lt_irrefl _)

theorem pageCount_same {size : Nat} {c c' : SlabClass} (hc : ClassShape size c) (hc' : ClassShape size c')
    (hbase : c'.baseAt = c.baseAt) : c'.pageCount = c.pageCount := by
  refine pageCount_eq hc' hc.count_le ?_
  intro i
  rw [hbase]
  exact baseAt_eq_some hc

theorem pageCount_grown {size b : Nat} {c c' : SlabClass} (hc : ClassShape size c) (hc' : ClassShape size c')
    (hlt : c.pageCount < maxSlabPages) (hbase : c'.baseAt = Function.update c.baseAt ⟨c.pageCount, hlt⟩ (some b)) :
    c'.pageCount = c.pageCount + 1 := by
  refine pageCount_eq hc' hlt ?_
  intro i
  rw [hbase]
  by_cases hi : i = ⟨c.pageCount, hlt⟩
  · subst hi
    rw [Function.update_self]
    exact iff_of_true ⟨b, rfl⟩ (Nat.lt_succ_self _)
  · have hne : i.val ≠ c.pageCount := fun h => hi (Fin.ext h)
    rw [Function.update_of_ne hi, baseAt_eq_some hc]
    omega

theorem demand_snoc (bs : List Block) {b : Block} (hb : b.classOf = some ci) :
    (fun cj => demand cj (bs ++ [b])) = Function.update (fun cj => demand cj bs) ci (demand ci bs + 1) := by
  funext cj
  show demand cj (bs ++ [b]) = _
  have happend : demand cj (bs ++ [b]) = demand cj bs + demand cj [b] := List.countP_append
  have hone : demand cj [b] = if cj = ci then 1 else 0 := by
    unfold demand
    rw [List.countP_singleton, hb]
    by_cases hcj : cj = ci
    · subst hcj
      rw [if_pos rfl, decide_eq_true rfl, if_pos rfl]
    · rw [if_neg hcj, decide_eq_false fun h => hcj (Option.some.inj h).symm]
      rfl
  rw [happend, hone]
  by_cases hcj : cj = ci
  · subst hcj
    rw [if_pos rfl, Function.update_self]
  · rw [if_neg hcj, Function.update_of_ne hcj, Nat.add_zero]

/-- The pool after a block of class `ci` has been taken. -/
theorem poolOf_took (hci : classFor layout.extent = some ci) (c : SlabClass) (allocCount : U64)
    (arena : FixedHeapArena) :
    poolOf (bs ++ [⟨ptr, layout⟩]) ⟨.new { s.cell.data.setClass ci c with allocCount }, arena, true⟩
      = ⟨Function.update (poolOf bs s).live ci ((poolOf bs s).live ci + 1),
          Function.update (poolOf bs s).pages ci c.pageCount⟩ := by
  have hlive := demand_snoc bs (b := ⟨ptr, layout⟩) hci
  unfold poolOf
  rw [hlive]
  congr 1
  funext cj
  show ((s.cell.data.setClass ci c).classes cj).pageCount = _
  by_cases hcj : cj = ci
  · subst hcj
    rw [classes_setClass_self, Function.update_self]
  · rw [classes_setClass_ne hcj, Function.update_of_ne hcj]

/-- The block that a class grants is what the heap returns. -/
theorem allocIn_granted {h : HeapState} {arena arena' : FixedHeapArena} {c : SlabClass}
    (halloc : (h.classes ci).alloc arena = (some ptr, c, arena')) (hne : ptr ≠ 0) :
    HeapState.allocIn ci h arena = (ptr, { h.setClass ci c with allocCount := h.allocCount + 1 }, arena') := by
  simp only [HeapState.allocIn, halloc, Option.getD_some, if_neg hne]
  rfl

/-- **`alloc` refines `take`**, and the arena has handed out the pages of the pool. -/
theorem HeapInv.alloc_pool (hinv : HeapInv base bs s) (harena : s.arena.nextPage = Custody.total (poolOf bs s).pages)
    (hci : classFor layout.extent = some ci) :
    ((s.alloc layout).1 ≠ 0 ↔ (Quota.take slabTerms ci (poolOf bs s)).1 = true) ∧
    poolOf (if (s.alloc layout).1 = 0 then bs else bs ++ [⟨(s.alloc layout).1, layout⟩]) (s.alloc layout).2
      = (Quota.take slabTerms ci (poolOf bs s)).2 ∧
    (s.alloc layout).2.arena.nextPage = Custody.total (Quota.take slabTerms ci (poolOf bs s)).2.pages := by
  have hclass := hinv.shape.classes ci
  have hdemand := hinv.hasFree_iff_demand ci
  rw [hinv.alloc_eq hci]
  rcases SlabClass.alloc_cases hclass (sizeOf_ge ci) (sizeOf_le ci) (hinv.shape.next_fresh ci) with
    ⟨hfree, ptr, c, halloc, htook, hbase⟩ | ⟨hfull, hnext, ptr, c, hlt, halloc, htook, hbase⟩ |
    ⟨hfull, hpages, halloc⟩
  · have hinv' := hinv.took hci htook (hinv.shape.setClass htook.shape hbase) rfl
    have hne : ptr ≠ 0 := hinv'.ptr_pos (b := ⟨ptr, layout⟩) (by simp)
    have htake := Quota.take_room (T := slabTerms) (p := poolOf bs s) (hdemand.mp hfree)
    rw [allocIn_granted halloc hne, htake]
    dsimp only
    rw [if_neg hne, poolOf_took hci, pageCount_same hclass htook.shape hbase]
    refine ⟨iff_of_true hne rfl, ?_, harena⟩
    congr 1
    exact Function.update_eq_self ..
  · have hnew : (s.cell.data.classes ci).baseAt ⟨_, hlt⟩ = none := if_neg (Nat.lt_irrefl _)
    have hinv' := hinv.took hci htook (hinv.shape.setClass_grown hnext htook.shape hbase hnew) rfl
    have hne : ptr ≠ 0 := hinv'.ptr_pos (b := ⟨ptr, layout⟩) (by simp)
    have hspace : Custody.total (poolOf bs s).pages < slabTerms.budget := harena ▸ hnext
    have htake := Quota.take_page (T := slabTerms) (p := poolOf bs s)
      (Nat.le_of_not_lt fun h => hfull (hdemand.mpr h)) hspace
    rw [allocIn_granted halloc hne, htake]
    dsimp only
    rw [if_neg hne, poolOf_took hci, pageCount_grown hclass htook.shape hlt hbase, Quota.total_update]
    exact ⟨iff_of_true hne rfl, rfl, congrArg (· + 1) harena⟩
  · have hend : userHeapPages ≤ s.arena.nextPage := by
      rcases hpages with hp | hp
      · exact hinv.shape.exhausted hp
      · exact hp
    have htake := Quota.take_spent (T := slabTerms) (p := poolOf bs s)
      (Nat.le_of_not_lt fun h => hfull (hdemand.mpr h)) (harena ▸ hend)
    have hsame : s.cell.data.setClass ci (s.cell.data.classes ci) = s.cell.data := by
      simp [HeapState.setClass]
    have heq : HeapState.allocIn ci s.cell.data s.arena
        = (0, { s.cell.data with oomCount := s.cell.data.oomCount + 1 }, s.arena) := by
      simp only [HeapState.allocIn, halloc, Option.getD_none, if_pos, hsame]
    rw [heq, htake]
    exact ⟨iff_of_false (fun h => h rfl) Bool.false_ne_true, rfl, harena⟩

/-- A named block is taken from the demand of its class. -/
theorem demand_eraseP (hci : classFor layout.extent = some ci) (hlive : LiveIn bs ptr layout) :
    (fun cj => demand cj (bs.eraseP (Block.isNamed ptr layout)))
      = Function.update (fun cj => demand cj bs) ci (demand ci bs - 1) := by
  obtain ⟨a, ha, hname⟩ := hlive
  obtain ⟨a, l₁, l₂, -, hname, hsplit, heq⟩ := List.exists_of_eraseP ha (Block.isNamed_iff.mpr hname)
  have hclass : a.classOf = some ci := (Block.isNamed_iff.mp hname).2.trans hci
  -- the erased block in front
  have hfront : ∀ cj, demand cj bs = demand cj (bs.eraseP (Block.isNamed ptr layout)) + demand cj [a] := by
    intro cj
    unfold demand
    rw [heq, hsplit, List.countP_append, List.countP_append, List.countP_cons, List.countP_singleton]
    split <;> omega
  have hone : ∀ cj, demand cj [a] = if cj = ci then 1 else 0 := by
    intro cj
    have hsnoc := congrFun (demand_snoc [] hclass) cj
    simp only [List.nil_append] at hsnoc
    rw [hsnoc]
    by_cases hcj : cj = ci
    · subst hcj
      rw [Function.update_self, if_pos rfl]
      rfl
    · rw [Function.update_of_ne hcj, if_neg hcj]
      rfl
  funext cj
  have hcount := hfront cj
  rw [hone] at hcount
  by_cases hcj : cj = ci
  · subst hcj
    rw [if_pos rfl] at hcount
    rw [Function.update_self]
    omega
  · rw [if_neg hcj] at hcount
    rw [Function.update_of_ne hcj]
    omega

/-- `dealloc` gives no page back, and none away. -/
theorem HeapInv.dealloc_pages (hinv : HeapInv base bs s) (ptr : Nat) (layout : Layout) :
    (poolOf bs (s.dealloc ptr layout)).pages = (poolOf bs s).pages ∧
      (s.dealloc ptr layout).arena.nextPage = s.arena.nextPage := by
  by_cases hnull : ptr = 0
  · have heq : s.dealloc ptr layout = s := if_pos hnull
    rw [heq]
    exact ⟨rfl, rfl⟩
  cases hci : classFor layout.extent with
  | none =>
      have heq : s.dealloc ptr layout = s := by simp only [dealloc, if_neg hnull, hci]
      rw [heq]
      exact ⟨rfl, rfl⟩
  | some ci =>
      have heq : s.dealloc ptr layout
          = ⟨.new (HeapState.deallocIn ci ptr s.cell.data ()).2.1, s.arena, true⟩ := by
        rw [hinv.eq_mk]
        simp only [dealloc, if_neg hnull, hci, Sync.SpookyCell.mutateBounded_free _ _ _ (by decide : 0 < 64)]
        rfl
      rw [heq]
      refine ⟨?_, rfl⟩
      cases hd : (s.cell.data.classes ci).dealloc ptr with
      | none =>
          simp only [HeapState.deallocIn, hd]
          rfl
      | some c =>
          have hclass := hinv.shape.classes ci
          obtain ⟨-, hshape, hbase, -⟩ := dealloc_some hclass (sizeOf_ge ci) hd
          simp only [HeapState.deallocIn, hd]
          funext cj
          show ((s.cell.data.setClass ci c).classes cj).pageCount = (s.cell.data.classes cj).pageCount
          by_cases hcj : cj = ci
          · subst hcj
            rw [classes_setClass_self]
            exact pageCount_same hclass hshape hbase
          · rw [classes_setClass_ne hcj]

/-- **`dealloc` of a live block refines `give`.** -/
theorem HeapInv.dealloc_pool (hinv : HeapInv base bs s) (hci : classFor layout.extent = some ci)
    (hlive : LiveIn bs ptr layout) :
    poolOf (bs.eraseP (Block.isNamed ptr layout)) (s.dealloc ptr layout) = Quota.give ci (poolOf bs s) := by
  have hdemand := demand_eraseP hci hlive
  have hpages := (hinv.dealloc_pages ptr layout).1
  unfold poolOf at hpages ⊢
  rw [hdemand]
  exact congrArg (Quota.Pool.mk _) hpages

/-! ## Runs -/

/-- The numbers of live blocks of a class that a history has gone through. -/
def Seen (h : List HeapEvent) (ci : Fin numClasses) (n : Nat) : Prop :=
  ∃ h₁ h₂, h = h₁ ++ h₂ ∧ n = demand ci (live h₁)

theorem seen_snoc {h : List HeapEvent} {e : HeapEvent} {n : Nat} :
    Seen (h ++ [e]) ci n ↔ Seen h ci n ∨ n = demand ci (live (h ++ [e])) := by
  constructor
  · rintro ⟨h₁, h₂, heq, rfl⟩
    rcases List.eq_nil_or_concat h₂ with rfl | ⟨h₂', e', rfl⟩
    · right
      rw [heq, List.append_nil]
    · left
      rw [List.concat_eq_append, ← List.append_assoc] at heq
      exact ⟨h₁, h₂', (List.append_inj' heq rfl).1, rfl⟩
  · rintro (⟨h₁, h₂, rfl, rfl⟩ | rfl)
    · exact ⟨h₁, h₂ ++ [e], List.append_assoc .., rfl⟩
    · exact ⟨h ++ [e], [], (List.append_nil _).symm, rfl⟩

/-- **The heap as a pool**, along a history. -/
structure Pooled (base : Nat) (h : List HeapEvent) (s : GlobalSlabHeap) : Prop where
  inv : HeapInv base (live h) s
  arena : s.arena.nextPage = Custody.total (poolOf (live h) s).pages
  peaks : Quota.Peaks slabTerms (Seen h) (poolOf (live h) s)

theorem Pooled.fits {h : List HeapEvent} (hp : Pooled base h s) : Quota.Fits slabTerms (poolOf (live h) s) :=
  ⟨hp.inv.demand_le, hp.arena ▸ hp.inv.shape.next_le⟩

theorem Pooled.step {h : List HeapEvent} (hp : Pooled base h s) (call : Call) :
    Pooled base (h ++ [Event.of step s call]) (step s call).2 := by
  have hinv' := heapInv_step hp.inv call
  rw [← live_snoc] at hinv'
  have hseen : ∀ {pool : Quota.Pool (Fin numClasses)},
      poolOf (live (h ++ [Event.of GlobalSlabHeap.step s call])) (GlobalSlabHeap.step s call).2 = pool →
        ∀ cj n, Seen (h ++ [Event.of GlobalSlabHeap.step s call]) cj n ↔ Seen h cj n ∨ n = pool.live cj := by
    rintro pool rfl cj n
    exact seen_snoc
  -- a call that leaves the pool as it is
  have hstay : poolOf (live (h ++ [Event.of GlobalSlabHeap.step s call])) (GlobalSlabHeap.step s call).2
        = poolOf (live h) s → (GlobalSlabHeap.step s call).2.arena.nextPage = s.arena.nextPage →
      Pooled base (h ++ [Event.of GlobalSlabHeap.step s call]) (GlobalSlabHeap.step s call).2 := by
    intro hpool hnext
    refine ⟨hinv', ?_, ?_⟩
    · rw [hpool, hnext]
      exact hp.arena
    · rw [hpool]
      exact hp.peaks.stay hp.fits (hseen hpool)
  cases call with
  | alloc layout =>
      cases hci : classFor layout.extent with
      | none =>
          rcases hp.inv.alloc_cases layout with ⟨-, heq⟩ | ⟨ci, hsome, -⟩ | ⟨ci, hsome, -⟩
          · refine hstay ?_ ?_
            · rw [live_snoc]
              show poolOf (if (s.alloc layout).1 = 0 then _ else _) (s.alloc layout).2 = _
              rw [heq]
              rfl
            · show (s.alloc layout).2.arena.nextPage = _
              rw [heq]
          · cases hci.symm.trans hsome
          · cases hci.symm.trans hsome
      | some ci =>
          obtain ⟨-, hpool, hnext⟩ := hp.inv.alloc_pool hp.arena hci
          have hpool' : poolOf (live (h ++ [Event.of GlobalSlabHeap.step s (.alloc layout)]))
              (GlobalSlabHeap.step s (.alloc layout)).2 = (Quota.take slabTerms ci (poolOf (live h) s)).2 := by
            rw [live_snoc]
            exact hpool
          refine ⟨hinv', ?_, ?_⟩
          · rw [hpool']
            exact hnext
          · rw [hpool']
            exact hp.peaks.take hp.fits ci (hseen hpool')
  | dealloc ptr layout =>
      obtain ⟨hpages, hnext⟩ := hp.inv.dealloc_pages ptr layout
      rcases hp.inv.dealloc_cases ptr layout with ⟨hnot, heq⟩ | ⟨hlive, -⟩
      · refine hstay ?_ hnext
        rw [live_snoc]
        show poolOf ((live h).eraseP (Block.isNamed ptr layout)) (s.dealloc ptr layout) = _
        rw [heq, eraseP_of_not_liveIn hnot]
      · have hlive' : ∃ ci, classFor layout.extent = some ci := by
          obtain ⟨b, hb, -, hbc⟩ := hlive
          obtain ⟨ci, hci⟩ := hp.inv.classes b hb
          exact ⟨ci, hbc.symm.trans hci⟩
        obtain ⟨ci, hci⟩ := hlive'
        have hpool : poolOf (live (h ++ [Event.of GlobalSlabHeap.step s (.dealloc ptr layout)]))
            (GlobalSlabHeap.step s (.dealloc ptr layout)).2 = Quota.give ci (poolOf (live h) s) := by
          rw [live_snoc]
          exact hp.inv.dealloc_pool hci hlive
        refine ⟨hinv', ?_, ?_⟩
        · rw [hpool]
          exact hnext.trans hp.arena
        · rw [hpool]
          exact hp.peaks.give hp.fits ci (hseen hpool)

theorem pooled_new (base : Nat) (hpos : 0 < base) (haligned : pageSize ∣ base) :
    Pooled base [] (new base hpos haligned).init := by
  refine ⟨heapInv_new base hpos haligned, (Custody.total_zero fun _ => rfl).symm, ?_, ?_⟩
  · intro ci
    exact ⟨[], [], rfl, rfl⟩
  · intro ci
    have hzero : (0 : Nat) ⌈/⌉ slabTerms.slots ci = 0 := zero_ceilDiv _
    constructor
    · exact ⟨0, ⟨[], [], rfl, rfl⟩, hzero.symm⟩
    · rintro k ⟨n, ⟨h₁, h₂, heq, rfl⟩, rfl⟩
      rw [(List.append_eq_nil_iff.mp heq.symm).1]
      exact Nat.le_of_eq hzero

theorem pooled_run {hpos : 0 < base} {haligned : pageSize ∣ base} {h : List HeapEvent}
    (hr : Run step (fun _ _ => True) (new base hpos haligned).init h s) : Pooled base h s := by
  refine hr.invariant (fun h s => Pooled base h s) (pooled_new base hpos haligned) ?_
  intro h s call _ _ ih
  exact ih.step call

/-- An allocation of a class fails when its pages are full of live blocks and no page is left. -/
theorem Pooled.alloc_null_iff {h : List HeapEvent} (hp : Pooled base h s) (hci : classFor layout.extent = some ci) :
    (s.alloc layout).1 = 0 ↔
      demand ci (live h) = (s.cell.data.classes ci).pageCount * slotsOf ci ∧
        Custody.total (fun cj => (s.cell.data.classes cj).pageCount) = userHeapPages := by
  have hle := hp.inv.demand_le ci
  have htotal : Custody.total (poolOf (live h) s).pages ≤ userHeapPages := hp.fits.pages_le
  have hiff := (hp.inv.alloc_pool hp.arena hci).1
  show _ ↔ _ ∧ Custody.total (poolOf (live h) s).pages = userHeapPages
  rcases Nat.lt_or_ge (demand ci (live h)) ((s.cell.data.classes ci).pageCount * slotsOf ci) with hroom | hfull
  · have htake := Quota.take_room (T := slabTerms) (p := poolOf (live h) s) hroom
    rw [htake] at hiff
    refine iff_of_false (hiff.mpr rfl) ?_
    rintro ⟨heq, -⟩
    omega
  · rcases Nat.lt_or_ge (Custody.total (poolOf (live h) s).pages) userHeapPages with hbudget | hspent
    · rw [Quota.take_page (T := slabTerms) hfull hbudget] at hiff
      refine iff_of_false (hiff.mpr rfl) ?_
      rintro ⟨-, heq⟩
      omega
    · rw [Quota.take_spent (T := slabTerms) hfull hspent] at hiff
      refine iff_of_true (by_contra fun hne => Bool.false_ne_true (hiff.mp hne)) ?_
      exact ⟨Nat.le_antisymm hle hfull, Nat.le_antisymm htotal hspent⟩

/-- **Capacity of the allocator.** After any calls, well formed or not: each class has the pages that its largest
    number of live blocks so far needed, and the arena has handed out these; so an allocation fails exactly when its
    class is full of live blocks and the classes have all pages of the arena; and a class that has held more blocks
    than now can give out one more. -/
theorem pages_follow_peak {hpos : 0 < base} {haligned : pageSize ∣ base} {h : List HeapEvent}
    (hr : Run step (fun _ _ => True) (new base hpos haligned).init h s) :
    (∀ ci, IsGreatest {k | ∃ h₁ h₂, h = h₁ ++ h₂ ∧ k = demand ci (live h₁) ⌈/⌉ slotsOf ci}
      (s.cell.data.classes ci).pageCount) ∧
    s.arena.nextPage = Custody.total (fun ci => (s.cell.data.classes ci).pageCount) ∧
    (∀ layout ci, classFor layout.extent = some ci →
      ((s.alloc layout).1 = 0 ↔
        demand ci (live h) = (s.cell.data.classes ci).pageCount * slotsOf ci ∧
          Custody.total (fun cj => (s.cell.data.classes cj).pageCount) = userHeapPages)) ∧
    (∀ layout ci h₁ h₂, classFor layout.extent = some ci → h = h₁ ++ h₂ →
      demand ci (live h) < demand ci (live h₁) → (s.alloc layout).1 ≠ 0) := by
  have hp := pooled_run hr
  have hseen : ∀ ci k, (∃ h₁ h₂, h = h₁ ++ h₂ ∧ k = demand ci (live h₁) ⌈/⌉ slotsOf ci)
      ↔ ∃ n, Seen h ci n ∧ k = n ⌈/⌉ slotsOf ci := by
    intro ci k
    constructor
    · rintro ⟨h₁, h₂, heq, hk⟩
      exact ⟨_, ⟨h₁, h₂, heq, rfl⟩, hk⟩
    · rintro ⟨n, ⟨h₁, h₂, heq, rfl⟩, hk⟩
      exact ⟨h₁, h₂, heq, hk⟩
  refine ⟨?_, hp.arena, fun layout ci hci => hp.alloc_null_iff hci, ?_⟩
  · intro ci
    simp only [hseen]
    exact hp.peaks.greatest ci
  · intro layout ci h₁ h₂ hci heq hlt hnull
    have hpages := (hp.peaks.greatest ci).2 ⟨_, ⟨h₁, h₂, heq, rfl⟩, rfl⟩
    have hroom : demand ci (live h₁) ≤ (s.cell.data.classes ci).pageCount * slotsOf ci :=
      (Quota.ceilDiv_le_iff (T := slabTerms)).mp hpages
    have hfull := ((hp.alloc_null_iff hci).mp hnull).1
    omega

/-- Three blocks of half a page, and one of them freed. -/
def halfPageCalls : List Call :=
  let layout : Layout := ⟨2048, 16, ⟨4, rfl⟩⟩
  [.alloc layout, .alloc layout, .alloc layout, .dealloc 4096 layout]

theorem pages_follow_peak_sample :
    ∃ h s, Run step (fun _ _ => True) (new 4096 (by decide) (by decide)).init h s ∧
      (live h).map Block.ptr = [6144, 8192] ∧ s.arena.nextPage = 2 ∧
      s.arena.nextPage = Custody.total (fun ci => (s.cell.data.classes ci).pageCount) := by
  have hstart : Run step (fun _ _ => True) (new 4096 (by decide) (by decide)).init [] _ := .start
  have hr := hstart.calls halfPageCalls
  exact ⟨_, _, hr, by decide +kernel, by decide +kernel, (pages_follow_peak hr).2.1⟩

end

end Slope.Memory.GlobalSlabHeap
