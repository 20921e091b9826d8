import Slope.Memory.Safety
import Slope.Sync.Serialization

/-!
# `Memory.Contention` — many threads on one heap

`alloc` and `dealloc` take the lock of the heap with `mutate_bounded` and 64 attempts. `alloc` turns a lock it
did not get into a null pointer; `dealloc` has nothing to return and drops the refusal. Here any number of
threads call both, and their attempts and critical sections interleave as in `Sync.Participants`.

A block is outstanding when some `alloc` returned it and no `dealloc` that returned later named it. `Faithful`
says that the free masks know exactly the outstanding blocks. Each critical section keeps this, and so does
every other step but one: a `dealloc` of an outstanding block that gives up.
-/

namespace Slope.Memory

open Sync

/-! ## The calls between their checks and the lock -/

/-- What the lock guards. The arena lies beside the cell, but only the critical section of `alloc` uses it. -/
abbrev Guarded := HeapState × FixedHeapArena

namespace Call

/-- The class whose critical section the call runs; without one it returns before it gets to the lock. -/
def target (ready : Bool) : Call → Option (Fin numClasses)
  | alloc layout => if !ready then none else classFor layout.extent
  | dealloc ptr layout => if ptr = 0 then none else classFor layout.extent

/-- The critical section. -/
def critical (ci : Fin numClasses) : Call → Guarded → Nat × Guarded
  | alloc _, (h, arena) => HeapState.allocIn ci h arena
  | dealloc ptr _, (h, arena) => (0, (HeapState.deallocIn ci ptr h ()).2.1, arena)

/-- What the call makes of the outcome of `mutate_bounded`. -/
def reply : Call → Except EntanglementError Nat → Reply
  | alloc _, .ok ptr => .allocated ptr
  | alloc _, .error _ => .allocated 0
  | dealloc _ _, _ => .freed

end Call

/-- How the critical sections are cut into parts. -/
structure Cut where
  parts : Call → Fin numClasses → Operation Guarded Nat
  whole : ∀ c ci v, (parts c ci).apply v = c.critical ci v

/-- Every critical section in one part. -/
def Cut.atomic : Cut where
  parts c ci := .atomic (c.critical ci)
  whole _ _ _ := rfl

/-- The heap and its threads; `pending` has the arguments of the call that a thread is in. -/
structure HeapThreads (τ : Type) where
  pair : Participants τ Guarded Nat
  pending : τ → Option Call
  ready : Bool

inductive HeapAction (τ : Type) where
  | init
  | call (t : τ) (c : Call)
  | advance (t : τ)

namespace HeapThreads

variable {τ : Type}

def new (base : Nat) (base_pos : 0 < base) (base_aligned : pageSize ∣ base) : HeapThreads τ where
  pair := .new (.new, .new base base_pos base_aligned)
  pending := fun _ => none
  ready := false

/-- The heap behind the lock. -/
def heap (s : HeapThreads τ) : HeapState := s.pair.cell.data.1

variable [DecidableEq τ]

/-- **One atomic step**, with the call that returned in it, if one did. -/
def step (cut : Cut) (s : HeapThreads τ) : HeapAction τ → Option (Call × Reply) × HeapThreads τ
  | .init => (none, { s with ready := true })
  | .call t c =>
    match s.pending t with
    | some _ => (none, s)
    | none =>
      match c.target s.ready with
      | none => (some (c, c.reply (.ok 0)), s)
      | some ci =>
        (none, { s with
          pair := (s.pair.step (.call t (.mutateBounded 64 (cut.parts c ci)))).2
          pending := Function.update s.pending t (some c) })
  | .advance t =>
    match s.pending t with
    | none => (none, s)
    | some c =>
      match s.pair.step (.advance t) with
      | (some (.returned _ _ result), pair) =>
        (some (c, c.reply result), { s with pair, pending := Function.update s.pending t none })
      | (_, pair) => (none, { s with pair })

end HeapThreads

/-! ## Outstanding blocks -/

/-- The call returned the block at `ptr`, in class `ci`. -/
def Grants (r : Call × Reply) (ci : Fin numClasses) (ptr : Nat) : Prop :=
  ∃ layout, r = (.alloc layout, .allocated ptr) ∧ ptr ≠ 0 ∧ classFor layout.extent = some ci

/-- The call was a `dealloc` of the block at `ptr`, with a layout of class `ci`. -/
def Names (r : Call × Reply) (ci : Fin numClasses) (ptr : Nat) : Prop :=
  ∃ layout reply, r = (.dealloc ptr layout, reply) ∧ classFor layout.extent = some ci

/-- Some `alloc` returned the block at `ptr`, and no later `dealloc` named it. -/
def Outstanding (rs : List (Call × Reply)) (ci : Fin numClasses) (ptr : Nat) : Prop :=
  ∃ before r later, rs = before ++ r :: later ∧ Grants r ci ptr ∧ ∀ r' ∈ later, ¬ Names r' ci ptr

theorem outstanding_snoc {rs : List (Call × Reply)} {r : Call × Reply} {ci : Fin numClasses} {ptr : Nat} :
    Outstanding (rs ++ [r]) ci ptr ↔ (Outstanding rs ci ptr ∧ ¬ Names r ci ptr) ∨ Grants r ci ptr := by
  constructor
  · rintro ⟨before, r', later, hsplit, hgrant, hlater⟩
    rcases List.eq_nil_or_concat later with rfl | ⟨later', last, rfl⟩
    · obtain ⟨-, hlast⟩ := List.append_inj' hsplit rfl
      obtain rfl : r = r' := by simpa using hlast
      exact .inr hgrant
    · rw [List.concat_eq_append, ← List.cons_append, ← List.append_assoc] at hsplit
      obtain ⟨rfl, hlast⟩ := List.append_inj' hsplit rfl
      obtain rfl : r = last := by simpa using hlast
      refine .inl ⟨⟨before, r', later', rfl, hgrant, fun x hx => hlater x (by simp [hx])⟩, ?_⟩
      exact hlater r (by simp)
  · rintro (⟨⟨before, r', later, rfl, hgrant, hlater⟩, hnot⟩ | hgrant)
    · refine ⟨before, r', later ++ [r], by simp, hgrant, fun x hx => ?_⟩
      rcases List.mem_append.mp hx with hx | hx
      · exact hlater x hx
      · rw [List.mem_singleton.mp hx]
        exact hnot
    · exact ⟨rs, r, [], rfl, hgrant, by simp⟩

theorem Outstanding.ptr_ne {rs : List (Call × Reply)} {ci : Fin numClasses} {ptr : Nat}
    (h : Outstanding rs ci ptr) : ptr ≠ 0 := by
  obtain ⟨before, r, later, -, ⟨layout, -, hne, -⟩, -⟩ := h
  exact hne

/-- A call that neither grants nor names an outstanding block. -/
theorem outstanding_idle {rs : List (Call × Reply)} {r : Call × Reply} (hgrant : ∀ ci ptr, ¬ Grants r ci ptr)
    (hname : ∀ ci ptr, Outstanding rs ci ptr → ¬ Names r ci ptr) (ci : Fin numClasses) (ptr : Nat) :
    Outstanding (rs ++ [r]) ci ptr ↔ Outstanding rs ci ptr := by
  rw [outstanding_snoc]
  constructor
  · rintro (⟨hout, -⟩ | hg)
    · exact hout
    · exact absurd hg (hgrant ci ptr)
  · intro hout
    exact .inl ⟨hout, hname ci ptr hout⟩

/-! ## Critical sections -/

/-- The heap as one thread finds it with the lock free. -/
def alone (v : Guarded) : GlobalSlabHeap := ⟨.new v.1, v.2, true⟩

theorem alloc_alone {layout : Layout} {ci : Fin numClasses} (hci : classFor layout.extent = some ci)
    (v : Guarded) :
    (alone v).alloc layout
      = (((Call.alloc layout).critical ci v).1, alone ((Call.alloc layout).critical ci v).2) := by
  simp only [alone, GlobalSlabHeap.alloc, hci, SpookyCell.mutateBounded_free _ _ _ (by decide : 0 < 64)]
  rfl

theorem dealloc_alone {ptr : Nat} {layout : Layout} {ci : Fin numClasses} (hne : ptr ≠ 0)
    (hci : classFor layout.extent = some ci) (v : Guarded) :
    (alone v).dealloc ptr layout = alone ((Call.dealloc ptr layout).critical ci v).2 := by
  simp only [alone, GlobalSlabHeap.dealloc, if_neg hne, hci,
    SpookyCell.mutateBounded_free _ _ _ (by decide : 0 < 64)]
  rfl

/-- **The masks are right**: the slots marked allocated are those of the outstanding blocks. -/
structure Faithful (base : Nat) (rs : List (Call × Reply)) (v : Guarded) : Prop where
  inv : ∃ bs, GlobalSlabHeap.HeapInv base bs (alone v)
  holds_iff : ∀ ci ptr, (v.1.classes ci).Holds ptr ↔ Outstanding rs ci ptr

section

variable {base : Nat} {rs : List (Call × Reply)} {v : Guarded}

/-- The calls that returned have changed nothing. -/
theorem Faithful.of_outstanding {rs' : List (Call × Reply)} (h : Faithful base rs v)
    (hsame : ∀ ci ptr, Outstanding rs' ci ptr ↔ Outstanding rs ci ptr) : Faithful base rs' v :=
  ⟨h.inv, fun ci ptr => (h.holds_iff ci ptr).trans (hsame ci ptr).symm⟩

/-- A call that has not been served: an `alloc` that returned null, or a `dealloc` of no outstanding block. -/
theorem Faithful.unserved (h : Faithful base rs v) {c : Call} {out : Except EntanglementError Nat}
    (hout : out = .ok 0 ∨ ∃ err, out = .error err)
    (hc : ∀ ptr layout ci, c = .dealloc ptr layout → classFor layout.extent = some ci → ¬ Outstanding rs ci ptr) :
    Faithful base (rs ++ [(c, c.reply out)]) v := by
  refine h.of_outstanding (outstanding_idle ?_ ?_)
  · rintro ci ptr ⟨layout, hr, hne, -⟩
    obtain ⟨rfl, hreply⟩ := Prod.mk.inj hr
    rcases hout with rfl | ⟨err, rfl⟩
    · exact hne (Reply.allocated.inj hreply).symm
    · exact hne (Reply.allocated.inj hreply).symm
  · rintro ci ptr hout ⟨layout, reply, hr, hci⟩
    obtain ⟨rfl, -⟩ := Prod.mk.inj hr
    exact hc ptr layout ci rfl hci hout

/-- A call that returns before it gets to the lock. -/
theorem Faithful.turned_back (h : Faithful base rs v) {c : Call} {ready : Bool} (hc : c.target ready = none) :
    Faithful base (rs ++ [(c, c.reply (.ok 0))]) v := by
  refine h.unserved (Or.inl rfl) ?_
  rintro ptr layout ci rfl hci hout
  simp only [Call.target, if_neg hout.ptr_ne, hci] at hc
  cases hc

/-- A call that does not get the lock: an `alloc`, or a `dealloc` of no outstanding block. -/
theorem Faithful.refused (h : Faithful base rs v) {c : Call} {err : EntanglementError}
    (hc : ∀ ptr layout ci, c = .dealloc ptr layout → classFor layout.extent = some ci → ¬ Outstanding rs ci ptr) :
    Faithful base (rs ++ [(c, c.reply (.error err))]) v :=
  h.unserved (Or.inr ⟨err, rfl⟩) hc

theorem Faithful.alloc (h : Faithful base rs v) {layout : Layout} {ci : Fin numClasses}
    (hci : classFor layout.extent = some ci) :
    Faithful base (rs ++ [(.alloc layout, .allocated ((Call.alloc layout).critical ci v).1)])
      ((Call.alloc layout).critical ci v).2 := by
  obtain ⟨bs, hinv⟩ := h.inv
  have hcases := hinv.alloc_cases layout
  rw [alloc_alone hci] at hcases
  generalize (Call.alloc layout).critical ci v = out at hcases
  obtain ⟨ptr, v'⟩ := out
  have hnot : ∀ cj q, ¬ Names (.alloc layout, .allocated ptr) cj q := by
    rintro cj q ⟨layout', reply, hr, -⟩
    cases hr
  rcases hcases with ⟨hnone, -⟩ | ⟨-, -, -, -, hnull, hinv'⟩ | ⟨-, -, -, hne, hinv'⟩
  · cases hci.symm.trans hnone
  · refine ⟨⟨bs, hinv'⟩, fun cj q => ?_⟩
    rw [outstanding_idle ?_ fun cj q _ => hnot cj q]
    · exact (hinv'.holds_iff cj q).trans ((hinv.holds_iff cj q).symm.trans (h.holds_iff cj q))
    · rintro cj q ⟨layout', hr, hq, -⟩
      cases hr
      exact hq hnull
  · refine ⟨⟨_, hinv'⟩, fun cj q => ?_⟩
    rw [outstanding_snoc, ← h.holds_iff]
    refine (hinv'.holds_iff cj q).trans ?_
    constructor
    · rintro ⟨b, hb, hbc, rfl⟩
      rcases List.mem_append.mp hb with hb | hb
      · exact .inl ⟨(hinv.holds_iff cj b.ptr).mpr ⟨b, hb, hbc, rfl⟩, hnot _ _⟩
      · obtain rfl := List.mem_singleton.mp hb
        exact .inr ⟨layout, rfl, hne, hbc⟩
    · rintro (⟨hold, -⟩ | ⟨layout', hr, -, hcj⟩)
      · obtain ⟨b, hb, hbc, hbq⟩ := (hinv.holds_iff cj q).mp hold
        exact ⟨b, List.mem_append_left _ hb, hbc, hbq⟩
      · cases hr
        exact ⟨⟨ptr, layout⟩, List.mem_append_right _ (List.mem_singleton_self _), hcj, rfl⟩

theorem Faithful.dealloc (h : Faithful base rs v) {ptr : Nat} {layout : Layout} {ci : Fin numClasses}
    (hne : ptr ≠ 0) (hci : classFor layout.extent = some ci) (reply : Reply) :
    Faithful base (rs ++ [(.dealloc ptr layout, reply)]) ((Call.dealloc ptr layout).critical ci v).2 := by
  obtain ⟨bs, hinv⟩ := h.inv
  have hcases := hinv.dealloc_cases ptr layout
  rw [dealloc_alone hne hci] at hcases
  have hgrant : ∀ cj q, ¬ Grants (.dealloc ptr layout, reply) cj q := by
    rintro cj q ⟨layout', hr, -⟩
    cases hr
  have hname : ∀ cj q, Names (.dealloc ptr layout, reply) cj q ↔ q = ptr ∧ cj = ci := by
    intro cj q
    constructor
    · rintro ⟨layout', reply', hr, hcj⟩
      cases hr
      exact ⟨rfl, Option.some.inj (hcj.symm.trans hci)⟩
    · rintro ⟨rfl, rfl⟩
      exact ⟨layout, reply, rfl, hci⟩
  rcases hcases with ⟨hnot, heq⟩ | ⟨hlive, hinv'⟩
  · -- the block is not live: nothing happens, and nothing should
    have hsame : ((Call.dealloc ptr layout).critical ci v).2 = v := by
      have hpair := GlobalSlabHeap.mk.inj heq
      exact Prod.ext (congrArg SpookyCell.data hpair.1) hpair.2.1
    rw [hsame]
    refine h.of_outstanding (outstanding_idle hgrant fun cj q hout hn => ?_)
    obtain ⟨rfl, rfl⟩ := (hname cj q).mp hn
    obtain ⟨b, hb, hbc, hbq⟩ := (hinv.holds_iff cj q).mp ((h.holds_iff cj q).mpr hout)
    exact hnot ⟨b, hb, hbq, hbc.trans hci.symm⟩
  · refine ⟨⟨_, hinv'⟩, fun cj q => ?_⟩
    rw [outstanding_snoc, ← h.holds_iff, hname]
    refine (hinv'.holds_iff cj q).trans ?_
    have hmem := GlobalSlabHeap.mem_eraseP_isNamed hinv.nodup hlive
    constructor
    · rintro ⟨b, hb, hbc, rfl⟩
      obtain ⟨hb, hbne⟩ := (hmem b).mp hb
      exact .inl ⟨(hinv.holds_iff cj b.ptr).mpr ⟨b, hb, hbc, rfl⟩, fun hc => hbne hc.1⟩
    · rintro (⟨hold, hother⟩ | hg)
      · obtain ⟨b, hb, hbc, rfl⟩ := (hinv.holds_iff cj q).mp hold
        refine ⟨b, (hmem b).mpr ⟨hb, ?_⟩, hbc, rfl⟩
        -- the same pointer in another class would have two owners
        rintro rfl
        obtain ⟨a, ha, hptr, hac⟩ := hlive
        refine hother ⟨rfl, hinv.shape.holds_class hold ?_⟩
        exact (hinv.holds_iff ci b.ptr).mpr ⟨a, ha, hac.trans hci, hptr⟩
      · exact absurd hg (hgrant cj q)

/-- **Critical sections keep the masks right.** -/
theorem Faithful.critical (h : Faithful base rs v) {c : Call} {ready : Bool} {ci : Fin numClasses}
    (hc : c.target ready = some ci) :
    Faithful base (rs ++ [(c, c.reply (.ok (c.critical ci v).1))]) (c.critical ci v).2 := by
  cases c with
  | alloc layout =>
      have hci : classFor layout.extent = some ci := by
        cases ready with
        | true => exact hc
        | false => cases hc
      exact h.alloc hci
  | dealloc ptr layout =>
      by_cases hne : ptr = 0
      · simp only [Call.target, if_pos hne] at hc
        cases hc
      · simp only [Call.target, if_neg hne] at hc
        exact h.dealloc hne hc _

end

/-! ## Steps -/

namespace HeapThreads

/-- What a thread's place in `mutate_bounded` says about its call. -/
inductive Tied (cut : Cut) : Option Call → PairPc Guarded Nat → Prop where
  | idle : Tied cut none .idle
  | inside {c : Call} {ready : Bool} {ci : Fin numClasses} {pc : PairPc Guarded Nat}
      (hc : c.target ready = some ci) (hpc : pc.current = some (.mutateBounded 64 (cut.parts c ci))) :
      Tied cut (some c) pc

variable {τ : Type}

/-- **The invariant**: the calls that have returned are `rs`, and the masks are right but for what the thread
    inside has done so far. -/
structure Contended (cut : Cut) (base : Nat) (rs : List (Call × Reply)) (s : HeapThreads τ) : Prop where
  value : ∃ v holder, Participants.Serial v s.pair holder ∧ Faithful base rs v
  tied : ∀ t, Tied cut (s.pending t) (s.pair.pc t)

theorem contended_new (cut : Cut) (base : Nat) (hpos : 0 < base) (haligned : pageSize ∣ base) :
    Contended cut base [] (new base hpos haligned : HeapThreads τ) := by
  refine ⟨⟨_, none, .free rfl (fun _ => rfl) rfl, ?_, ?_⟩, fun _ => .idle⟩
  · exact ⟨[], GlobalSlabHeap.heapInv_new base hpos haligned⟩
  · intro ci ptr
    refine iff_of_false (SlabClass.not_holds_uninit _ _) ?_
    rintro ⟨before, r, later, hsplit, -⟩
    simp at hsplit

theorem Tied.outside {cut : Cut} {pc : PairPc Guarded Nat} (h : Tied cut none pc) : pc.holds = none := by
  cases h with
  | idle => rfl

/-- With nobody inside, the committed value is in the cell. -/
theorem Contended.settled {cut : Cut} {base : Nat} {rs : List (Call × Reply)} {s : HeapThreads τ}
    (h : Contended cut base rs s) (hout : ∀ t, (s.pair.pc t).holds = none) :
    Faithful base rs s.pair.cell.data := by
  obtain ⟨v, holder, hserial, hfaith⟩ := h.value
  cases hserial with
  | free hlock hout hdata =>
      rw [hdata]
      exact hfaith
  | @held t call hlock hout' hrun => cases (hout t).symm.trans hrun.holds

/-- In this step a `dealloc` returns whose attempts have all met a lock that was held. -/
def GivesUp (s : HeapThreads τ) (a : HeapAction τ) (ptr : Nat) (layout : Layout) : Prop :=
  ∃ t call, a = .advance t ∧ s.pending t = some (.dealloc ptr layout) ∧ s.pair.pc t = .locking call 0

variable [DecidableEq τ] {cut : Cut} {base : Nat} {rs : List (Call × Reply)} {s : HeapThreads τ}

/-- One thread moved. -/
theorem tied_update {t : τ} {pair : Participants τ Guarded Nat} {p : Option Call}
    (h : ∀ t, Tied cut (s.pending t) (s.pair.pc t)) (hothers : ∀ t', t' ≠ t → pair.pc t' = s.pair.pc t')
    (ht : Tied cut p (pair.pc t)) (t' : τ) : Tied cut (Function.update s.pending t p t') (pair.pc t') := by
  by_cases hne : t' = t
  · subst hne
    rw [Function.update_self]
    exact ht
  · rw [Function.update_of_ne hne, hothers t' hne]
    exact h t'

/-- A thread goes on without returning. -/
theorem Contended.go {t : τ} {c : Call} {notice : Option (PairNotice τ Guarded Nat)}
    {pair : Participants τ Guarded Nat} (h : Contended cut base rs s) (hpend : s.pending t = some c)
    (hm : Participants.Moved s.pair t notice pair)
    (hnot : ∀ call result, notice ≠ some (.returned t call result)) :
    Contended cut base rs { s with pair } := by
  obtain ⟨v, holder, hserial, hfaith⟩ := h.value
  obtain ⟨holder', hserial'⟩ := hserial.moved hm fun call result => hnot call _
  refine ⟨⟨v, holder', hserial', hfaith⟩, ?_⟩
  have htied := h.tied t
  rw [hpend] at htied
  cases htied with
  | inside hc hpc =>
      have hall := tied_update h.tied (fun t' => hm.others) (.inside hc (hm.current hpc hnot))
      rwa [← hpend, Function.update_eq_self] at hall

/-- A thread returns. -/
theorem Contended.back {t : τ} {pair : Participants τ Guarded Nat} {r : Call × Reply}
    (h : Contended cut base rs s) (hothers : ∀ t', t' ≠ t → pair.pc t' = s.pair.pc t')
    (hidle : pair.pc t = .idle)
    (hvalue : ∃ v holder, Participants.Serial v pair holder ∧ Faithful base (rs ++ [r]) v) :
    Contended cut base (rs ++ [r]) { s with pair, pending := Function.update s.pending t none } := by
  refine ⟨hvalue, tied_update h.tied hothers ?_⟩
  rw [hidle]
  exact .idle

/-- **Invariant step.** -/
theorem Contended.step (h : Contended cut base rs s) (a : HeapAction τ)
    (hkept : ∀ ptr layout ci, GivesUp s a ptr layout → classFor layout.extent = some ci →
      ¬ Outstanding rs ci ptr) :
    Contended cut base (rs ++ (s.step cut a).1.toList) (s.step cut a).2 := by
  obtain ⟨v, holder, hserial, hfaith⟩ := h.value
  cases a with
  | init =>
      simp only [HeapThreads.step, Option.toList_none, List.append_nil]
      exact ⟨⟨v, holder, hserial, hfaith⟩, h.tied⟩
  | call t c =>
      cases hpend : s.pending t with
      | some c' =>
          simp only [HeapThreads.step, hpend, Option.toList_none, List.append_nil]
          exact h
      | none =>
          cases hc : c.target s.ready with
          | none =>
              simp only [HeapThreads.step, hpend, hc]
              exact ⟨⟨v, holder, hserial, hfaith.turned_back hc⟩, h.tied⟩
          | some ci =>
              simp only [HeapThreads.step, hpend, hc, Option.toList_none, List.append_nil]
              have hpc : s.pair.pc t = .idle := by
                have htied := h.tied t
                rw [hpend] at htied
                generalize s.pair.pc t = pc at htied
                cases htied with
                | idle => rfl
              simp only [Participants.step, hpc]
              refine ⟨⟨v, holder, hserial.outside (by rw [hpc]; rfl) rfl, hfaith⟩, ?_⟩
              refine tied_update h.tied (fun t' => Participants.goto_pc_ne) (.inside hc ?_)
              rw [Participants.goto_pc_self]
              rfl
  | advance t =>
      cases hpend : s.pending t with
      | none =>
          simp only [HeapThreads.step, hpend, Option.toList_none, List.append_nil]
          exact h
      | some c =>
          have hm : Participants.Moved s.pair t _ _ := Participants.step_moved s.pair (.advance t)
          simp only [HeapThreads.step, hpend]
          generalize s.pair.step (.advance t) = out at hm ⊢
          obtain ⟨notice, pair⟩ := out
          have hothers : ∀ t', t' ≠ t → pair.pc t' = s.pair.pc t' := fun t' => hm.others
          have htied := h.tied t
          rw [hpend] at htied
          rcases notice with _ | (⟨t', call⟩ | ⟨t', call, result⟩)
          · simp only [Option.toList_none, List.append_nil]
            exact h.go hpend hm (by simp)
          · simp only [Option.toList_none, List.append_nil]
            exact h.go hpend hm (by simp)
          · simp only [Option.toList_some]
            cases hm with
            | busy hpc =>
                refine h.back hothers Participants.goto_pc_self ⟨v, holder, ?_, hfaith.refused ?_⟩
                · exact hserial.outside (by rw [hpc]; rfl) rfl
                · rintro ptr layout ci rfl hci
                  exact hkept ptr layout ci ⟨t, call, rfl, hpend, hpc⟩ hci
            | @leave call result hin hrun =>
                obtain ⟨hdata, rfl⟩ := hrun v (hserial.of_holds hin).2.2
                refine h.back hothers Participants.goto_pc_self ⟨_, _, hserial.leave hin hdata, ?_⟩
                cases htied with
                | inside hc hcur =>
                    obtain rfl := Option.some.inj ((PairPc.current_of_holds hin).symm.trans hcur)
                    simp only [PairCall.apply, PairCall.answer, cut.whole]
                    exact hfaith.critical hc

/-- A `dealloc` of an outstanding block that gives up is lost: the block stays marked. -/
theorem Contended.lost (h : Contended cut base rs s) {a : HeapAction τ} {ptr : Nat} {layout : Layout}
    {ci : Fin numClasses} (hgive : GivesUp s a ptr layout) (hci : classFor layout.extent = some ci)
    (hblock : Outstanding rs ci ptr) (hidle : ∀ t, (s.step cut a).2.pending t = none) :
    ((s.step cut a).2.heap.classes ci).Holds ptr ∧ ¬ Outstanding (rs ++ (s.step cut a).1.toList) ci ptr := by
  obtain ⟨t, call, rfl, hpend, hpc⟩ := hgive
  have hstep : s.step cut (.advance t) = (some (.dealloc ptr layout, .freed),
      { s with pair := s.pair.goto t .idle, pending := Function.update s.pending t none }) := by
    simp only [HeapThreads.step, hpend, Participants.step, Participants.advance, hpc, Call.reply]
  rw [hstep] at hidle ⊢
  have hout : ∀ t', (s.pair.pc t').holds = none := by
    intro t'
    by_cases ht : t' = t
    · rw [ht, hpc]
      rfl
    · have hpend' : Function.update s.pending t none t' = none := hidle t'
      rw [Function.update_of_ne ht] at hpend'
      have htied := h.tied t'
      rw [hpend'] at htied
      exact htied.outside
  refine ⟨((h.settled hout).holds_iff ci ptr).mpr hblock, ?_⟩
  rw [Option.toList_some, outstanding_snoc]
  rintro (⟨-, hnot⟩ | ⟨layout', hr, -⟩)
  · exact hnot ⟨layout, .freed, rfl, hci⟩
  · cases hr

/-! ## Whole runs -/

abbrev HeapEvent (τ : Type) := Event (HeapThreads τ) (HeapAction τ) (Option (Call × Reply))

/-- The calls that have returned, in the order of their returns. Calls that do not overlap are in the order in
    which they were made. -/
def returns (h : List (HeapEvent τ)) : List (Call × Reply) := h.filterMap Event.result

/-- No `dealloc` of an outstanding block gave up. -/
def NoneGaveUp (h : List (HeapEvent τ)) : Prop :=
  ∀ h₁ e h₂, h = h₁ ++ e :: h₂ → ∀ ptr layout ci, GivesUp e.pre e.call ptr layout →
    classFor layout.extent = some ci → ¬ Outstanding (returns h₁) ci ptr

theorem contended_run {hpos : 0 < base} {haligned : pageSize ∣ base} {h : List (HeapEvent τ)}
    (hr : Run (HeapThreads.step cut) (fun _ _ => True) (new base hpos haligned) h s) (hkept : NoneGaveUp h) :
    Contended cut base (returns h) s := by
  induction hr with
  | start => exact contended_new cut base hpos haligned
  | @call h s a hr ha ih =>
      have hbefore : NoneGaveUp h := by
        rintro h₁ e h₂ rfl
        exact hkept h₁ e (h₂ ++ [Event.of (HeapThreads.step cut) s a]) (by simp)
      have hnow := hkept h (Event.of (HeapThreads.step cut) s a) [] rfl
      have hnext := (ih hbefore).step a hnow
      unfold returns at hnext ⊢
      rwa [filterMap_snoc]

/-- **No deallocation is lost unless it gives up.** For any threads and every interleaving of their attempts and
    critical sections, however these are cut: when no `dealloc` of an outstanding block met a held lock in all
    its 64 attempts and all calls have returned, the slots marked allocated are exactly those of the blocks
    that some `alloc` returned and no later `dealloc` named. -/
theorem heap_contended (cut : Cut) {hpos : 0 < base} {haligned : pageSize ∣ base} {h : List (HeapEvent τ)}
    (hr : Run (HeapThreads.step cut) (fun _ _ => True) (new base hpos haligned) h s) (hkept : NoneGaveUp h)
    (hidle : ∀ t, s.pending t = none) (ci : Fin numClasses) (ptr : Nat) :
    (s.heap.classes ci).Holds ptr ↔ Outstanding (returns h) ci ptr := by
  have hcont := contended_run hr hkept
  have hout : ∀ t, (s.pair.pc t).holds = none := by
    intro t
    have htied := hcont.tied t
    rw [hidle t] at htied
    exact htied.outside
  exact (hcont.settled hout).holds_iff ci ptr

theorem eight_pow : ∃ n, 8 = 2 ^ n := ⟨3, rfl⟩

/-- A block of 64 bytes. -/
def sampleLayout : Layout := ⟨40, 8, eight_pow⟩

def sampleClass : Fin numClasses := ⟨3, by decide⟩

def sampleHeap : HeapThreads Bool := new 4096 (by decide) (by decide)

/-- One thread has a block; the other takes the lock; then the first calls `dealloc`. -/
def meetStart : List (HeapAction Bool) :=
  [.init, .call false (.alloc sampleLayout), .advance false, .advance false, .advance false,
    .call true (.alloc sampleLayout), .advance true, .call false (.dealloc 4096 sampleLayout)]

/-- `dealloc` takes some steps before the other thread goes on. -/
def meetActions (steps : Nat) : List (HeapAction Bool) :=
  meetStart ++ List.replicate steps (HeapAction.advance false)
    ++ [HeapAction.advance true, HeapAction.advance true]

/-- One attempt in vain, and then the whole call. -/
def meetOnce : List (HeapAction Bool) := meetActions 1 ++ List.replicate 3 (HeapAction.advance false)

/-- The thread has used up its attempts. -/
def exhausted (s : HeapThreads Bool) : HeapAction Bool → Bool
  | .advance t =>
    match s.pair.pc t with
    | .locking _ 0 => true
    | _ => false
  | _ => false

theorem noneGaveUp_of_all {h : List (HeapEvent Bool)} (hall : (h.all fun e => !exhausted e.pre e.call) = true) :
    NoneGaveUp h := by
  rintro h₁ e h₂ rfl ptr layout ci ⟨t, call, hcall, -, hpc⟩ -
  have he := List.all_eq_true.mp hall e (by simp)
  simp [exhausted, hcall, hpc] at he

/-- After one attempt in vain the block is freed. -/
theorem heap_contended_meet :
    ((finalState (step .atomic) sampleHeap meetOnce).heap.classes sampleClass).Holds 4096 ↔
      Outstanding [(.alloc sampleLayout, .allocated 4096), (.alloc sampleLayout, .allocated 4160),
        (.dealloc 4096 sampleLayout, .freed)] sampleClass 4096 := by
  have hr := Run.replay (step .atomic) sampleHeap meetOnce
  have hkept : NoneGaveUp (trace (step .atomic) sampleHeap meetOnce) := noneGaveUp_of_all (by decide +kernel)
  have hreturns : returns (trace (step .atomic) sampleHeap meetOnce)
      = [(.alloc sampleLayout, .allocated 4096), (.alloc sampleLayout, .allocated 4160),
        (.dealloc 4096 sampleLayout, .freed)] := by
    set_option maxRecDepth 4000 in rfl
  rw [← hreturns]
  refine heap_contended .atomic hr hkept (fun t => ?_) sampleClass 4096
  cases t <;> rfl

/-- **A `dealloc` that gives up is lost.** Its 64 attempts all meet the other thread inside. When both have
    returned, the block that was freed is still marked allocated. -/
theorem dealloc_lost :
    ∃ (h : List (HeapEvent Bool)) (s : HeapThreads Bool),
      Run (step .atomic) (fun _ _ => True) sampleHeap h s ∧ (∀ t, s.pending t = none) ∧
        (s.heap.classes sampleClass).Holds 4096 ∧ ¬ Outstanding (returns h) sampleClass 4096 := by
  refine ⟨_, _, Run.replay (step .atomic) sampleHeap (meetActions 65), ?_, ?_, ?_⟩
  · have hidle : ∀ t, ((finalState (step .atomic) sampleHeap (meetActions 65)).pending t).isNone = true := by
      decide +kernel
    exact fun t => Option.isNone_iff_eq_none.mp (hidle t)
  · have hcount :
        0 < ((finalState (step .atomic) sampleHeap (meetActions 65)).heap.classes sampleClass).pageCount := by
      decide +kernel
    have hpage : (((finalState (step .atomic) sampleHeap (meetActions 65)).heap.classes sampleClass).pages
        ⟨0, by decide⟩).map (fun p => (p.base, p.slotCount, p.freeMask.get 0)) = some (4096, 64, false) := by
      decide +kernel
    obtain ⟨p, hp, hfields⟩ := Option.map_eq_some_iff.mp hpage
    obtain ⟨hbase, hslots, hmask⟩ : p.base = 4096 ∧ p.slotCount = 64 ∧ p.freeMask.get 0 = false := by
      simpa using hfields
    exact ⟨⟨0, by decide⟩, p, ⟨hcount, hp⟩, 0, by rw [hslots]; decide, hmask, by rw [hbase, Nat.zero_mul]⟩
  · have hreturns : returns (trace (step .atomic) sampleHeap (meetActions 65))
        = [(.alloc sampleLayout, .allocated 4096), (.dealloc 4096 sampleLayout, .freed),
          (.alloc sampleLayout, .allocated 4160)] := by
      set_option maxRecDepth 4000 in rfl
    rw [hreturns]
    rintro ⟨before, r, later, hsplit, ⟨layout, rfl, -⟩, hlater⟩
    obtain rfl : before = [] := by
      cases before with
      | nil => rfl
      | cons _ before => cases before with
        | nil => simp at hsplit
        | cons _ before => cases before <;> simp at hsplit
    obtain ⟨-, rfl⟩ := List.cons.inj hsplit
    exact hlater (.dealloc 4096 sampleLayout, .freed) (by simp) ⟨sampleLayout, .freed, rfl, rfl⟩

end HeapThreads

end Slope.Memory
