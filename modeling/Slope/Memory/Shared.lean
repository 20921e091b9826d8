import Slope.Memory.Contention

/-!
# `Memory.Shared` — the blocks of many threads never overlap

`Memory.Contention` counts what a `dealloc` that gives up costs. This module is about what it cannot cost. The
blocks that threads have are read off the calls that have returned, in whatever order they did; the allocator's
own list of live blocks contains them, and is longer at most by one block for each `dealloc` that gave up. So the
masks may keep a block too long, and never give one out twice.

`Guarding` is the rule for it: what holds of the committed value behind the lock, call by call.
-/

namespace Slope.Memory

open Sync

/-! ## Statistics -/

structure HeapStats where
  allocCount : U64
  deallocCount : U64
  oomCount : U64

/-- `try_observe`, with zeros if the lock is held. -/
def GlobalSlabHeap.stats (s : GlobalSlabHeap) : HeapStats :=
  if s.cell.locked then ⟨0, 0, 0⟩
  else ⟨s.cell.data.allocCount, s.cell.data.deallocCount, s.cell.data.oomCount⟩

/-! ## The blocks that threads have -/

/-- The blocks after one more call has returned. -/
def blocksAfter (bs : List Block) : Call × Reply → List Block
  | (.alloc layout, .allocated ptr) => if ptr = 0 then bs else bs ++ [⟨ptr, layout⟩]
  | (.dealloc ptr layout, _) => bs.eraseP (Block.isNamed ptr layout)
  | _ => bs

/-- The blocks that some `alloc` returned and no later `dealloc` named. -/
def blocks (rs : List (Call × Reply)) : List Block := rs.foldl blocksAfter []

theorem blocks_snoc (rs : List (Call × Reply)) (r : Call × Reply) :
    blocks (rs ++ [r]) = blocksAfter (blocks rs) r := by
  unfold blocks
  rw [List.foldl_append]
  rfl

theorem blocksAfter_null (bs : List Block) (layout : Layout) :
    blocksAfter bs (.alloc layout, .allocated 0) = bs := by
  rw [blocksAfter, if_pos rfl]

/-- One block less at most. -/
theorem length_le_eraseP {α : Type} (p : α → Bool) (l : List α) : l.length ≤ (l.eraseP p).length + 1 := by
  rw [List.length_eraseP]
  split <;> omega

/-! ## The allocator's own list -/

/-- **The allocator has not forgotten a block**: its live blocks are `held` and at most `lost` more. -/
def Sound (base : Nat) (held : List Block) (lost : Nat) (v : Guarded) : Prop :=
  ∃ bs, GlobalSlabHeap.HeapInv base bs (alone v) ∧ held.Sublist bs ∧ bs.length ≤ held.length + lost

section

variable {base lost : Nat} {held : List Block} {v : Guarded} {layout : Layout} {ci : Fin numClasses} {ptr : Nat}

theorem Sound.mono {lost' : Nat} (h : Sound base held lost v) (hle : lost ≤ lost') : Sound base held lost' v := by
  obtain ⟨bs, hinv, hsub, hlen⟩ := h
  exact ⟨bs, hinv, hsub, by omega⟩

theorem Sound.alloc (h : Sound base held lost v) (hci : classFor layout.extent = some ci) :
    Sound base (blocksAfter held (.alloc layout, .allocated ((Call.alloc layout).critical ci v).1)) lost
      ((Call.alloc layout).critical ci v).2 := by
  obtain ⟨bs, hinv, hsub, hlen⟩ := h
  have hcases := hinv.alloc_cases layout
  rw [alloc_alone hci] at hcases
  generalize (Call.alloc layout).critical ci v = out at hcases
  obtain ⟨ptr, v'⟩ := out
  rcases hcases with ⟨hnone, -⟩ | ⟨-, -, -, -, hnull, hinv'⟩ | ⟨-, -, -, hne, hinv'⟩
  · cases hci.symm.trans hnone
  · change ptr = 0 at hnull
    subst hnull
    rw [blocksAfter_null]
    exact ⟨bs, hinv', hsub, hlen⟩
  · have hafter : blocksAfter held (.alloc layout, .allocated ptr) = held ++ [⟨ptr, layout⟩] := if_neg hne
    rw [hafter]
    refine ⟨_, hinv', hsub.append (List.Sublist.refl _), ?_⟩
    rw [List.length_append, List.length_append]
    simp only [List.length_singleton]
    omega

/-- A `dealloc` of no live block names no block of a thread either. -/
theorem Sound.erase_none {bs : List Block} (hsub : held.Sublist bs) (hnot : ¬ LiveIn bs ptr layout) :
    held.eraseP (Block.isNamed ptr layout) = held := by
  refine GlobalSlabHeap.eraseP_of_not_liveIn ?_
  rintro ⟨b, hb, hname⟩
  exact hnot ⟨b, hsub.subset hb, hname⟩

theorem Sound.dealloc (h : Sound base held lost v) (hne : ptr ≠ 0) (hci : classFor layout.extent = some ci) :
    Sound base (held.eraseP (Block.isNamed ptr layout)) lost ((Call.dealloc ptr layout).critical ci v).2 := by
  obtain ⟨bs, hinv, hsub, hlen⟩ := h
  have hcases := hinv.dealloc_cases ptr layout
  rw [dealloc_alone hne hci] at hcases
  rcases hcases with ⟨hnot, heq⟩ | ⟨⟨b, hb, hname⟩, hinv'⟩
  · rw [Sound.erase_none hsub hnot]
    exact ⟨bs, heq.symm ▸ hinv, hsub, hlen⟩
  · have hany : (bs.any (Block.isNamed ptr layout)) = true :=
      List.any_eq_true.mpr ⟨b, hb, Block.isNamed_iff.mpr hname⟩
    have hpos := List.length_pos_of_mem hb
    have hheld := length_le_eraseP (Block.isNamed ptr layout) held
    refine ⟨_, hinv', hsub.eraseP, ?_⟩
    rw [List.length_eraseP, if_pos hany]
    omega

theorem inOnePage_of_inv {bs : List Block} (hinv : GlobalSlabHeap.HeapInv base bs (alone v)) (hpos : 0 < base)
    (haligned : pageSize ∣ base) {b : Block} (hb : b ∈ bs) : b.InOnePage (.new base hpos haligned) := by
  have hbase : v.2.base = base := hinv.base_eq
  obtain ⟨k, hk, hlow, hhigh⟩ := hinv.inOnePage hb
  refine ⟨k, hk, ?_, ?_⟩
  · show base + k * pageSize ≤ b.ptr
    rw [← hbase]
    exact hlow
  · show b.ptr + b.extent ≤ base + k * pageSize + pageSize
    rw [← hbase]
    exact hhigh

/-- **Critical sections keep it.** -/
theorem Sound.critical (h : Sound base held lost v) {c : Call} {ready : Bool} (hc : c.target ready = some ci) :
    Sound base (blocksAfter held (c, c.reply (.ok (c.critical ci v).1))) lost (c.critical ci v).2 := by
  cases c with
  | alloc layout =>
      cases ready with
      | true => exact h.alloc hc
      | false => cases hc
  | dealloc ptr layout =>
      by_cases hne : ptr = 0
      · simp only [Call.target, if_pos hne] at hc
        cases hc
      · simp only [Call.target, if_neg hne] at hc
        exact h.dealloc hne hc

/-- So do calls that return before they get to the lock. -/
theorem Sound.turned_back (h : Sound base held lost v) {c : Call} {ready : Bool} (hc : c.target ready = none) :
    Sound base (blocksAfter held (c, c.reply (.ok 0))) lost v := by
  cases c with
  | alloc layout =>
      show Sound base (blocksAfter held (.alloc layout, .allocated 0)) lost v
      rwa [blocksAfter_null]
  | dealloc ptr layout =>
      obtain ⟨bs, hinv, hsub, hlen⟩ := h
      have hnot : ¬ LiveIn bs ptr layout := by
        rintro ⟨b, hb, rfl, hclass⟩
        obtain ⟨cj, hcj⟩ := hinv.classes b hb
        simp only [Call.target, if_neg (hinv.ptr_pos hb)] at hc
        cases hcj.symm.trans (hclass.trans hc)
      show Sound base (held.eraseP (Block.isNamed ptr layout)) lost v
      rw [Sound.erase_none hsub hnot]
      exact ⟨bs, hinv, hsub, hlen⟩

/-- A refused `alloc` returns null. -/
theorem Sound.refused_alloc (h : Sound base held lost v) {err : EntanglementError} :
    Sound base (blocksAfter held (.alloc layout, (Call.alloc layout).reply (.error err))) lost v := by
  show Sound base (blocksAfter held (.alloc layout, .allocated 0)) lost v
  rwa [blocksAfter_null]

/-- A refused `dealloc` may cost the block that it names. -/
theorem Sound.refused_dealloc (h : Sound base held lost v) {reply : Reply} :
    Sound base (blocksAfter held (.dealloc ptr layout, reply)) (lost + 1) v := by
  obtain ⟨bs, hinv, hsub, hlen⟩ := h
  have hheld := length_le_eraseP (Block.isNamed ptr layout) held
  refine ⟨bs, hinv, List.eraseP_sublist.trans hsub, ?_⟩
  show bs.length ≤ (held.eraseP (Block.isNamed ptr layout)).length + (lost + 1)
  omega

end

/-! ## What the lock guards -/

namespace HeapThreads

variable {τ : Type}

/-- **The committed value has `P`**, and each thread is where its call says. -/
structure Guarding (cut : Cut) (P : Guarded → Prop) (s : HeapThreads τ) : Prop where
  value : ∃ v holder, Participants.Serial v s.pair holder ∧ P v
  tied : ∀ t, Tied cut (s.pending t) (s.pair.pc t)

/-- With all calls returned, the committed value is in the cell, and the lock is free. -/
theorem Guarding.settled {cut : Cut} {P : Guarded → Prop} {s : HeapThreads τ} (h : Guarding cut P s)
    (hidle : ∀ t, s.pending t = none) : P s.pair.cell.data ∧ s.pair.cell.locked = false := by
  have hout : ∀ t, (s.pair.pc t).holds = none := by
    intro t
    have htied := h.tied t
    rw [hidle t] at htied
    exact htied.outside
  obtain ⟨v, holder, hserial, hP⟩ := h.value
  cases hserial with
  | free hlock _ hdata => exact ⟨hdata.symm ▸ hP, hlock⟩
  | @held t call _ _ hrun => cases (hout t).symm.trans hrun.holds

variable [DecidableEq τ]

/-- In this step a `dealloc` returns whose attempts have all met a lock that was held. -/
def gaveUp (s : HeapThreads τ) : HeapAction τ → Bool
  | .advance t =>
    match s.pending t, s.pair.pc t with
    | some (.dealloc _ _), .locking _ 0 => true
    | _, _ => false
  | _ => false

variable {cut : Cut} {P : Guarded → Prop} {s : HeapThreads τ}

/-- A thread moves outside the lock, or within it, and does not return. -/
theorem Guarding.go {t : τ} {c : Call} {notice : Option (PairNotice τ Guarded Nat)}
    {pair : Participants τ Guarded Nat} (h : Guarding cut P s) (hpend : s.pending t = some c)
    (hm : Participants.Moved s.pair t notice pair)
    (hnot : ∀ call result, notice ≠ some (.returned t call result)) : Guarding cut P { s with pair } := by
  obtain ⟨v, holder, hserial, hP⟩ := h.value
  obtain ⟨holder', hserial'⟩ := hserial.moved hm fun call result => hnot call _
  refine ⟨⟨v, holder', hserial', hP⟩, ?_⟩
  have htied := h.tied t
  rw [hpend] at htied
  cases htied with
  | inside hc hpc =>
      have hall := tied_update h.tied (fun t' => hm.others) (.inside hc (hm.current hpc hnot))
      rwa [← hpend, Function.update_eq_self] at hall

/-- A thread returns. -/
theorem Guarding.back {t : τ} {pair : Participants τ Guarded Nat} {P' : Guarded → Prop} (h : Guarding cut P s)
    (hothers : ∀ t', t' ≠ t → pair.pc t' = s.pair.pc t') (hidle : pair.pc t = .idle)
    (hvalue : ∃ v holder, Participants.Serial v pair holder ∧ P' v) :
    Guarding cut P' { s with pair, pending := Function.update s.pending t none } := by
  refine ⟨hvalue, tied_update h.tied hothers ?_⟩
  rw [hidle]
  exact .idle

/-- **The rule for one step**: what the committed value has before it and after it, for each way a call can
    return. -/
theorem Guarding.step {P' : Option (Call × Reply) → Guarded → Prop} (h : Guarding cut P s) (a : HeapAction τ)
    (hquiet : ∀ v, P v → P' none v)
    (hturned : ∀ c v, c.target s.ready = none → P v → P' (some (c, c.reply (.ok 0))) v)
    (hrefused : ∀ t c call v, a = .advance t → s.pending t = some c → s.pair.pc t = .locking call 0 → P v →
      P' (some (c, c.reply (.error .busy))) v)
    (hserved : ∀ c ready ci v, c.target ready = some ci → P v →
      P' (some (c, c.reply (.ok (c.critical ci v).1))) (c.critical ci v).2) :
    Guarding cut (P' (s.step cut a).1) (s.step cut a).2 := by
  obtain ⟨v, holder, hserial, hP⟩ := h.value
  have hstill : Guarding cut (P' none) s := ⟨⟨v, holder, hserial, hquiet v hP⟩, h.tied⟩
  cases a with
  | init => exact ⟨⟨v, holder, hserial, hquiet v hP⟩, h.tied⟩
  | call t c =>
      cases hpend : s.pending t with
      | some c' =>
          simp only [HeapThreads.step, hpend]
          exact hstill
      | none =>
          cases hc : c.target s.ready with
          | none =>
              simp only [HeapThreads.step, hpend, hc]
              exact ⟨⟨v, holder, hserial, hturned c v hc hP⟩, h.tied⟩
          | some ci =>
              have hpc : s.pair.pc t = .idle := by
                have htied := h.tied t
                rw [hpend] at htied
                generalize s.pair.pc t = pc at htied
                cases htied with
                | idle => rfl
              simp only [HeapThreads.step, hpend, hc, Participants.step, hpc]
              refine ⟨⟨v, holder, hserial.outside (by rw [hpc]; rfl) rfl, hquiet v hP⟩, ?_⟩
              refine tied_update h.tied (fun t' => Participants.goto_pc_ne) (.inside hc ?_)
              rw [Participants.goto_pc_self]
              rfl
  | advance t =>
      cases hpend : s.pending t with
      | none =>
          simp only [HeapThreads.step, hpend]
          exact hstill
      | some c =>
          have hm : Participants.Moved s.pair t _ _ := Participants.step_moved s.pair (.advance t)
          simp only [HeapThreads.step, hpend]
          generalize s.pair.step (.advance t) = out at hm ⊢
          obtain ⟨notice, pair⟩ := out
          have htied := h.tied t
          rw [hpend] at htied
          rcases notice with _ | (⟨t', call⟩ | ⟨t', call, result⟩)
          · exact hstill.go hpend hm (by simp)
          · exact hstill.go hpend hm (by simp)
          · cases hm with
            | busy hpc =>
                refine h.back (fun t' => Participants.goto_pc_ne) Participants.goto_pc_self ⟨v, holder, ?_, ?_⟩
                · exact hserial.outside (by rw [hpc]; rfl) rfl
                · exact hrefused t c call v rfl hpend hpc hP
            | @leave call result hin hrun =>
                obtain ⟨hdata, rfl⟩ := hrun v (hserial.of_holds hin).2.2
                refine h.back (fun t' => Participants.goto_pc_ne) Participants.goto_pc_self
                  ⟨_, _, hserial.leave hin hdata, ?_⟩
                cases htied with
                | inside hc hcur =>
                    obtain rfl := Option.some.inj ((PairPc.current_of_holds hin).symm.trans hcur)
                    simp only [PairCall.apply, PairCall.answer, cut.whole]
                    exact hserved c _ _ v hc hP

/-! ## Whole runs -/

variable {base : Nat}

/-- What the calls that have returned amount to. -/
def SoundAfter (base : Nat) (held : List Block) (lost : Nat) : Option (Call × Reply) → Guarded → Prop
  | none => Sound base held lost
  | some r => Sound base (blocksAfter held r) lost

/-- **Invariant step.** -/
theorem Guarding.sound {held : List Block} {lost : Nat} (h : Guarding cut (Sound base held lost) s)
    (a : HeapAction τ) :
    Guarding cut (SoundAfter base held (lost + (gaveUp s a).toNat) (s.step cut a).1) (s.step cut a).2 := by
  refine h.step a (fun v hv => ?_) (fun c v hc hv => ?_) (fun t c call v ha hpend hpc hv => ?_)
    (fun c ready ci v hc hv => ?_)
  · exact hv.mono (Nat.le_add_right ..)
  · exact (hv.turned_back hc).mono (Nat.le_add_right ..)
  · cases c with
    | alloc layout => exact hv.refused_alloc.mono (Nat.le_add_right ..)
    | dealloc ptr layout =>
        have hgave : gaveUp s a = true := by
          rw [ha, gaveUp]
          simp only [hpend, hpc]
        rw [hgave]
        exact hv.refused_dealloc
  · exact (hv.critical hc).mono (Nat.le_add_right ..)

/-- How many calls of `dealloc` gave up. -/
def giveUps (h : List (HeapEvent τ)) : Nat := h.countP fun e => gaveUp e.pre e.call

theorem sound_run {hpos : 0 < base} {haligned : pageSize ∣ base} {h : List (HeapEvent τ)}
    {allowed : List (HeapEvent τ) → HeapAction τ → Prop}
    (hr : Run (HeapThreads.step cut) allowed (new base hpos haligned) h s) :
    Guarding cut (Sound base (blocks (returns h)) (giveUps h)) s := by
  refine hr.invariant (fun h s => Guarding cut (Sound base (blocks (returns h)) (giveUps h)) s) ?_ ?_
  · obtain ⟨⟨v, holder, hserial, hfaith⟩, htied⟩ := contended_new cut base hpos haligned (τ := τ)
    refine ⟨⟨_, none, .free rfl (fun _ => rfl) rfl, ?_⟩, htied⟩
    exact ⟨[], GlobalSlabHeap.heapInv_new base hpos haligned, List.Sublist.refl _, Nat.zero_le _⟩
  · intro h s a _ _ ih
    have hnext := ih.sound a
    have hcount : giveUps (h ++ [Event.of (HeapThreads.step cut) s a]) = giveUps h + (gaveUp s a).toNat := by
      unfold giveUps
      rw [List.countP_append, List.countP_singleton]
      cases hgave : gaveUp s a <;> simp [Event.of, hgave]
    rw [hcount]
    unfold returns at hnext ⊢
    rw [filterMap_snoc]
    cases hres : (s.step cut a).1 with
    | none =>
        rw [hres] at hnext
        have htail : (Event.of (HeapThreads.step cut) s a).result.toList = [] := by simp [Event.of, hres]
        rw [htail, List.append_nil]
        exact hnext
    | some r =>
        rw [hres] at hnext
        have htail : (Event.of (HeapThreads.step cut) s a).result.toList = [r] := by simp [Event.of, hres]
        rw [htail, blocks_snoc]
        exact hnext

/-- The heap as the threads share it. -/
def shared (s : HeapThreads τ) : GlobalSlabHeap :=
  ⟨⟨s.pair.cell.locked, s.pair.cell.data.1⟩, s.pair.cell.data.2, s.ready⟩

/-- **Threads never share a byte.** For any threads and every interleaving of their calls, however the critical
    sections are cut, whatever pointers `dealloc` is called with and however often a call gives up: the blocks
    that `alloc` returned and no later `dealloc` named are disjoint, each in one page of the arena, aligned and
    large enough; a block that `alloc` returns overlaps none of those at that moment; and with all calls returned
    the counters that `stats` reports differ by the number of these blocks, or by more, up to one for each
    `dealloc` that gave up. -/
theorem blocks_apart (cut : Cut) {hpos : 0 < base} {haligned : pageSize ∣ base} {h : List (HeapEvent τ)}
    (hr : Run (HeapThreads.step cut) (fun _ _ => True) (new base hpos haligned) h s) :
    (blocks (returns h)).Pairwise Block.Disjoint ∧
    (∀ b ∈ blocks (returns h), b.InOnePage (.new base hpos haligned) ∧ b.layout.align ∣ b.ptr ∧
      b.layout.size ≤ b.extent) ∧
    (∀ h₁ e h₂ layout ptr, h = h₁ ++ e :: h₂ → e.result = some (.alloc layout, .allocated ptr) → ptr ≠ 0 →
      ∀ b ∈ blocks (returns h₁), Block.Disjoint b ⟨ptr, layout⟩) ∧
    ((∀ t, s.pending t = none) →
      (blocks (returns h)).length ≤ (s.shared.stats.allocCount - s.shared.stats.deallocCount).toNat ∧
      (s.shared.stats.allocCount - s.shared.stats.deallocCount).toNat
        ≤ (blocks (returns h)).length + giveUps h) := by
  have hdisjoint : ∀ {h : List (HeapEvent τ)} {s : HeapThreads τ},
      Run (HeapThreads.step cut) (fun _ _ => True) (new base hpos haligned) h s →
        (blocks (returns h)).Pairwise Block.Disjoint := by
    intro h s hr
    obtain ⟨v, -, -, bs, hinv, hsub, -⟩ := (sound_run hr).value
    exact hinv.pairwise_disjoint.sublist hsub
  refine ⟨hdisjoint hr, fun b hb => ?_, ?_, fun hidle => ?_⟩
  · obtain ⟨v, -, -, bs, hinv, hsub, -⟩ := (sound_run hr).value
    exact ⟨inOnePage_of_inv hinv hpos haligned (hsub.subset hb), hinv.fits (hsub.subset hb)⟩
  · intro h₁ e h₂ layout ptr hsplit hret hne b hb
    have hnext := (hr.cut hsplit).1.call e.call trivial
    rw [← hr.event_of (e := e) (by rw [hsplit]; simp)] at hnext
    have hapart := hdisjoint hnext
    unfold returns at hapart hb
    rw [filterMap_snoc, hret, Option.toList_some, blocks_snoc, blocksAfter, if_neg hne,
      List.pairwise_append] at hapart
    exact hapart.2.2 b hb _ (List.mem_singleton_self _)
  · obtain ⟨⟨bs, hinv, hsub, hlen⟩, hlock⟩ := (sound_run hr).settled hidle
    have hcount := hinv.counters
    have hstats : s.shared.stats = ⟨s.heap.allocCount, s.heap.deallocCount, s.heap.oomCount⟩ := by
      unfold GlobalSlabHeap.stats shared
      rw [hlock]
      rfl
    rw [hstats]
    change (s.heap.allocCount - s.heap.deallocCount).toNat = bs.length at hcount
    show _ ≤ (s.heap.allocCount - s.heap.deallocCount).toNat ∧ (s.heap.allocCount - s.heap.deallocCount).toNat ≤ _
    rw [hcount]
    exact ⟨hsub.length_le, hlen⟩

/-- In the run in which a `dealloc` is lost, two blocks are live for the allocator and one for the threads. -/
theorem blocks_apart_lost :
    (blocks (returns (trace (step .atomic) sampleHeap (meetActions 65)))).map Block.ptr = [4160] ∧
      (blocks (returns (trace (step .atomic) sampleHeap (meetActions 65)))).Pairwise Block.Disjoint := by
  have hr := Run.replay (step .atomic) sampleHeap (meetActions 65)
  have hreturns : returns (trace (step .atomic) sampleHeap (meetActions 65))
      = [(.alloc sampleLayout, .allocated 4096), (.dealloc 4096 sampleLayout, .freed),
        (.alloc sampleLayout, .allocated 4160)] := by
    set_option maxRecDepth 4000 in rfl
  refine ⟨?_, (blocks_apart .atomic hr).1⟩
  rw [hreturns]
  decide +kernel

end HeapThreads

end Slope.Memory
