import Mathlib.Order.Interval.Finset.Nat
import Slope.Memory.Heap

/-!
# `Memory.Safety` — what every run of the allocator guarantees

`HeapInv` holds between any two calls, whatever the calls were. From it, in one statement for every run: live
blocks are disjoint, lie in one page each, are aligned and large enough; each page has one owner; the counters
count the live blocks; a stray `dealloc` is a no-op; and `alloc` fails only when it must.
-/

namespace Slope.Memory.GlobalSlabHeap

open Sync SlabClass

/-- Class `ci` has page `k` of the arena. -/
def Owns (s : GlobalSlabHeap) (ci : Fin numClasses) (k : Nat) : Prop :=
  ∃ i, (s.cell.data.classes ci).baseAt i = some (s.arena.pageBase k)

/-- Some page of class `ci` has a slot with no live block in it. -/
def SlotFree (bs : List Block) (s : GlobalSlabHeap) (ci : Fin numClasses) : Prop :=
  ∃ k slot, s.Owns ci k ∧ slot < pageSize / sizeOf ci ∧
    ∀ b ∈ bs, b.ptr ≠ s.arena.pageBase k + slot * sizeOf ci

section

variable {base : Nat} {bs : List Block} {s : GlobalSlabHeap} {layout : Layout} {ptr : Nat}

/-! ## Reading the invariant -/

theorem HeapInv.pairwise_disjoint (hinv : HeapInv base bs s) : bs.Pairwise Block.Disjoint := by
  have hnodup : bs.Pairwise fun b b' => b.ptr ≠ b'.ptr := List.pairwise_map.mp hinv.nodup
  exact hnodup.imp_of_mem fun hb hb' hne => hinv.disjoint hb hb' hne

/-- Each page handed out has one owner, and no other page has any. -/
theorem HeapInv.owner (hinv : HeapInv base bs s) :
    (∀ k, k < s.arena.nextPage → ∃! ci, s.Owns ci k) ∧ ∀ ci k, s.Owns ci k → k < s.arena.nextPage := by
  refine ⟨?_, ?_⟩
  · intro k hk
    obtain ⟨ci, i, hb⟩ := hinv.shape.owned k hk
    refine ⟨ci, ⟨i, hb⟩, ?_⟩
    rintro cj ⟨j, hb'⟩
    exact hinv.shape.owner_unique cj ci j i _ hb' hb
  · rintro ci k ⟨i, hb⟩
    obtain ⟨k', hk', heq⟩ := hinv.shape.bases ci i _ hb
    rw [pageBase_inj heq]
    exact hk'

/-- The arena bounds the number of live blocks. -/
theorem HeapInv.length_le (hinv : HeapInv base bs s) : bs.length ≤ userHeapPages * pageSize := by
  have hsub : (bs.map Block.ptr).toFinset ⊆
      Finset.Ico s.arena.base (s.arena.base + userHeapPages * pageSize) := by
    intro q hq
    obtain ⟨b, hb, rfl⟩ := List.mem_map.mp (List.mem_toFinset.mp hq)
    obtain ⟨ci, i, k, slot, -, hk, -, hptr, hend⟩ := hinv.slot hb
    have hpage : (k + 1) * pageSize ≤ userHeapPages * pageSize :=
      Nat.mul_le_mul_right _ (Nat.lt_of_lt_of_le hk hinv.shape.next_le)
    have hsize := sizeOf_ge ci
    rw [Nat.succ_mul] at hpage
    unfold FixedHeapArena.pageBase at hptr
    rw [Finset.mem_Ico]
    omega
  have hcard := Finset.card_le_card hsub
  rwa [List.toFinset_card_of_nodup hinv.nodup, List.length_map, Nat.card_Ico, Nat.add_sub_cancel_left] at hcard

theorem HeapInv.counters (hinv : HeapInv base bs s) :
    (s.cell.data.allocCount - s.cell.data.deallocCount).toNat = bs.length := by
  have hle := hinv.length_le
  rw [hinv.count, BitVec.toNat_ofNat]
  apply Nat.mod_eq_of_lt
  exact Nat.lt_of_le_of_lt hle (by decide)

/-- The masks know the free slots. -/
theorem HeapInv.hasFree_iff (hinv : HeapInv base bs s) (ci : Fin numClasses) :
    (s.cell.data.classes ci).HasFree ↔ SlotFree bs s ci := by
  have hclass := hinv.shape.classes ci
  constructor
  · rintro ⟨i, p, hat, slot, hlt, hfree⟩
    have hshape := hat.shape hclass
    obtain ⟨k, -, hbase⟩ := hinv.shape.bases ci i _ hat.base
    refine ⟨k, slot, ⟨i, hbase ▸ hat.base⟩, hshape.slots_eq ▸ hlt, ?_⟩
    intro b hb hptr
    -- the block would lie in this page, hence in this class and in this slot
    obtain ⟨cj, hcj⟩ := hinv.classes b hb
    obtain ⟨j, p', hat', hheld⟩ := (hinv.holds_iff cj b.ptr).mpr ⟨b, hb, hcj, rfl⟩
    have hsame : p'.base = p.base := by
      rw [hheld.base_eq (hat'.shape (hinv.shape.classes cj)) (sizeOf_ge cj), hptr, ← hbase]
      exact (SlabPage.base_of_slot hshape (sizeOf_ge ci) hlt).symm
    obtain rfl := hinv.shape.owner_unique cj ci j i _ hat'.base (hsame ▸ hat.base)
    obtain rfl := hclass.bases_inj j i _ hat'.base (hsame ▸ hat.base)
    obtain rfl := hat'.unique hat
    obtain ⟨slot', -, htaken, hptr'⟩ := hheld
    rw [hptr, ← hbase, hshape.size_eq] at hptr'
    obtain rfl := SlabPage.slot_address_inj (sizeOf_ge cj) hptr'
    rw [hfree] at htaken
    cases htaken
  · rintro ⟨k, slot, ⟨i, hbase⟩, hlt, hnone⟩
    have hi := (baseAt_eq_some hclass).mp ⟨_, hbase⟩
    obtain ⟨p, hp, hshape⟩ := hclass.pages i hi
    have hat : (s.cell.data.classes ci).At i p := ⟨hi, hp⟩
    have hpb : p.base = s.arena.pageBase k := Option.some.inj (hat.base.symm.trans hbase)
    refine ⟨i, p, hat, slot, hshape.slots_eq ▸ hlt, ?_⟩
    cases hmask : p.freeMask.get slot with
    | true => rfl
    | false =>
        have hheld : (s.cell.data.classes ci).Holds (s.arena.pageBase k + slot * sizeOf ci) :=
          ⟨i, p, hat, slot, hshape.slots_eq ▸ hlt, hmask, by rw [hpb, hshape.size_eq]⟩
        obtain ⟨b, hb, -, hptr⟩ := (hinv.holds_iff ci _).mp hheld
        exact absurd hptr (hnone b hb)

/-- `alloc` returns null exactly when the layout is larger than a page, or no slot of its class is free and
    all the pages are handed out. -/
theorem HeapInv.alloc_null_iff (hinv : HeapInv base bs s) (layout : Layout) :
    (s.alloc layout).1 = 0 ↔ pageSize < layout.extent ∨
      ∃ ci, classFor layout.extent = some ci ∧ ¬ SlotFree bs s ci ∧ s.arena.nextPage = userHeapPages := by
  rcases hinv.alloc_cases layout with ⟨hnone, heq⟩ | ⟨ci, hci, hfull, hpages, hnull, -⟩ |
    ⟨ci, hci, hroom, hne, -⟩
  · rw [heq]
    exact iff_of_true rfl (Or.inl (classFor_none.mp hnone))
  · exact iff_of_true hnull (Or.inr ⟨ci, hci, fun hf => hfull ((hinv.hasFree_iff ci).mpr hf), hpages⟩)
  · apply iff_of_false hne
    rintro (hlarge | ⟨cj, hcj, hfull, hpages⟩)
    · cases hci.symm.trans (classFor_none.mpr hlarge)
    · obtain rfl := Option.some.inj (hci.symm.trans hcj)
      rcases hroom with hfree | hnext
      · exact hfull ((hinv.hasFree_iff ci).mp hfree)
      · omega

/-! ## Runs -/

theorem heapInv_new (base : Nat) (hpos : 0 < base) (haligned : pageSize ∣ base) :
    HeapInv base [] (new base hpos haligned).init := by
  have hbase : ∀ ci i, ((new base hpos haligned).init.cell.data.classes ci).baseAt i = none :=
    fun ci i => baseAt_uninit (sizeOf ci) i
  refine ⟨rfl, rfl, rfl, ⟨fun ci => classShape_uninit _, Nat.zero_le _, ?_, ?_, ?_⟩, ?_, ?_, List.nodup_nil,
    BitVec.sub_zero 0⟩
  · intro ci i b hb
    rw [hbase] at hb
    cases hb
  · intro k hk
    exact absurd hk (Nat.not_lt_zero _)
  · intro ci cj i j b hb
    rw [hbase] at hb
    cases hb
  · intro ci ptr
    exact iff_of_false (not_holds_uninit _ _) (by simp)
  · intro b hb
    cases hb

/-- One call keeps the invariant. -/
theorem heapInv_step (hinv : HeapInv base bs s) (call : Call) :
    HeapInv base (liveAfter bs (Event.of step s call)) (step s call).2 := by
  cases call with
  | alloc layout =>
      show HeapInv base (if (s.alloc layout).1 = 0 then bs else bs ++ [⟨(s.alloc layout).1, layout⟩])
        (s.alloc layout).2
      rcases hinv.alloc_cases layout with ⟨-, heq⟩ | ⟨ci, -, -, -, hnull, hinv'⟩ | ⟨ci, -, -, hne, hinv'⟩
      · rw [heq]
        exact hinv
      · rw [if_pos hnull]
        exact hinv'
      · rw [if_neg hne]
        exact hinv'
  | dealloc ptr layout =>
      show HeapInv base (bs.eraseP (Block.isNamed ptr layout)) (s.dealloc ptr layout)
      rcases hinv.dealloc_cases ptr layout with ⟨hnot, heq⟩ | ⟨-, hinv'⟩
      · rw [heq, eraseP_of_not_liveIn hnot]
        exact hinv
      · exact hinv'

/-- The invariant holds after any calls. -/
theorem heapInv_run {hpos : 0 < base} {haligned : pageSize ∣ base} {h : List HeapEvent}
    (hr : Run step (fun _ _ => True) (new base hpos haligned).init h s) : HeapInv base (live h) s := by
  refine hr.invariant (fun h s => HeapInv base (live h) s) (heapInv_new base hpos haligned) ?_
  intro h s call _ _ ih
  rw [live_snoc]
  exact heapInv_step ih call

/-- **Safety of the allocator.** After any calls, well formed or not: live blocks are disjoint; each lies in
    one page of the arena, aligned to its layout and large enough for it; each page handed out has exactly one
    class; the counters differ by the number of live blocks; a `dealloc` that names no live block leaves the
    whole heap as it is; and `alloc` fails exactly when the layout is larger than a page or the class is full
    and the arena spent. -/
theorem slab_heap_safe {hpos : 0 < base} {haligned : pageSize ∣ base} {h : List HeapEvent}
    (hr : Run step (fun _ _ => True) (new base hpos haligned).init h s) :
    (live h).Pairwise Block.Disjoint ∧
    s.arena.base = base ∧
    (∀ b ∈ live h, b.InOnePage s.arena ∧ b.layout.align ∣ b.ptr ∧ b.layout.size ≤ b.extent) ∧
    (∀ k, k < s.arena.nextPage → ∃! ci, s.Owns ci k) ∧
    (∀ ci k, s.Owns ci k → k < s.arena.nextPage) ∧
    (s.cell.data.allocCount - s.cell.data.deallocCount).toNat = (live h).length ∧
    (∀ ptr layout, ¬ LiveIn (live h) ptr layout → s.dealloc ptr layout = s) ∧
    (∀ layout, (s.alloc layout).1 = 0 ↔ pageSize < layout.extent ∨
      ∃ ci, classFor layout.extent = some ci ∧ ¬ SlotFree (live h) s ci ∧
        s.arena.nextPage = userHeapPages) := by
  have hinv := heapInv_run hr
  refine ⟨hinv.pairwise_disjoint, hinv.base_eq, ?_, hinv.owner.1, hinv.owner.2, hinv.counters, ?_,
    hinv.alloc_null_iff⟩
  · intro b hb
    exact ⟨hinv.inOnePage hb, hinv.fits hb⟩
  · intro ptr layout hnot
    rcases hinv.dealloc_cases ptr layout with ⟨-, heq⟩ | ⟨hlive, -⟩
    · exact heq
    · exact absurd hlive hnot

/-- Two blocks are allocated, one is freed, and freed again. -/
def sampleCalls : List Call :=
  let layout : Layout := ⟨40, 8, ⟨3, rfl⟩⟩
  [.alloc layout, .alloc layout, .dealloc 4096 layout, .dealloc 4096 layout]

theorem slab_heap_safe_sample :
    ∃ h s, Run step (fun _ _ => True) (new 4096 (by decide) (by decide)).init h s ∧
      (live h).map Block.ptr = [4160] ∧ s.cell.data.allocCount = 2 ∧ s.cell.data.deallocCount = 1 ∧
      (s.cell.data.allocCount - s.cell.data.deallocCount).toNat = (live h).length := by
  have hstart : Run step (fun _ _ => True) (new 4096 (by decide) (by decide)).init [] _ := .start
  have hr := hstart.calls sampleCalls
  exact ⟨_, _, hr, by decide +kernel, by decide +kernel, by decide +kernel, (slab_heap_safe hr).2.2.2.2.2.1⟩

end

end Slope.Memory.GlobalSlabHeap
