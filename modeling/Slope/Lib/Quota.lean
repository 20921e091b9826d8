import Mathlib.Algebra.Order.Floor.Div
import Mathlib.Order.Bounds.Basic
import Slope.Lib.Custody

/-!
# `Lib.Quota` — kinds of things that share a budget of pages

Things of several kinds are kept on pages. A page is for one kind and holds `slots i` things of it, all kinds share a
budget of pages, and a page is never given back. A thing is put where its kind has room, on a fresh page otherwise, and
nowhere when the budget is spent.

All of it follows from counting. A kind has as many pages as its things have ever needed (`Peaks`), so whether there is
room for one more depends on nothing but how many there have been.
-/

namespace Slope.Quota

variable {ι : Type*}

structure Terms (ι : Type*) where
  slots : ι → Nat
  slots_pos : ∀ i, 0 < slots i
  budget : Nat

/-- How many things of each kind there are, and how many pages the kind has. -/
@[ext] structure Pool (ι : Type*) where
  live : ι → Nat
  pages : ι → Nat

variable [DecidableEq ι]

/-- One thing less of kind `i`. -/
def give (i : ι) (p : Pool ι) : Pool ι := { p with live := Function.update p.live i (p.live i - 1) }

/-- Every kind has room for its things, and the pages are in the budget. -/
structure Fits [Fintype ι] (T : Terms ι) (p : Pool ι) : Prop where
  live_le : ∀ i, p.live i ≤ p.pages i * T.slots i
  pages_le : Custody.total p.pages ≤ T.budget

/-- One more of kind `i`, if there is room for it or for another page. -/
def take [Fintype ι] (T : Terms ι) (i : ι) (p : Pool ι) : Bool × Pool ι :=
  let live := Function.update p.live i (p.live i + 1)
  if p.live i < p.pages i * T.slots i then (true, { p with live })
  else if Custody.total p.pages < T.budget then (true, ⟨live, Function.update p.pages i (p.pages i + 1)⟩)
  else (false, p)

/-- **Pages follow the peak**: each kind has the pages that the largest number of its things seen so far needs. -/
structure Peaks (T : Terms ι) (seen : ι → Nat → Prop) (p : Pool ι) : Prop where
  latest : ∀ i, seen i (p.live i)
  greatest : ∀ i, IsGreatest {k | ∃ n, seen i n ∧ k = n ⌈/⌉ T.slots i} (p.pages i)

section

variable [Fintype ι] {T : Terms ι} {seen seen' : ι → Nat → Prop} {p p' : Pool ι} {i : ι}

omit [DecidableEq ι] [Fintype ι] in
theorem ceilDiv_le_iff {n k : Nat} : n ⌈/⌉ T.slots i ≤ k ↔ n ≤ k * T.slots i := by
  rw [ceilDiv_le_iff_le_mul (T.slots_pos i), Nat.mul_comm]

omit [DecidableEq ι] [Fintype ι] in
/-- Another number is seen of each kind; it is within the pages, and where there is a page more it needs that page. -/
theorem Peaks.change (hp : Peaks T seen p) (hseen : ∀ i n, seen' i n ↔ seen i n ∨ n = p'.live i)
    (hle : ∀ i, p'.live i ≤ p'.pages i * T.slots i)
    (hpages : ∀ i, p'.pages i = p.pages i ∨ p'.pages i = p.pages i + 1 ∧ p.pages i * T.slots i < p'.live i) :
    Peaks T seen' p' := by
  refine ⟨fun i => (hseen i _).mpr (.inr rfl), ?_⟩
  intro i
  obtain ⟨⟨n, hn, heq⟩, hmax⟩ := hp.greatest i
  have hneed : p'.live i ⌈/⌉ T.slots i ≤ p'.pages i := ceilDiv_le_iff.mpr (hle i)
  constructor
  · rcases hpages i with hsame | ⟨hgrown, hfull⟩
    · exact ⟨n, (hseen i n).mpr (.inl hn), hsame.trans heq⟩
    · refine ⟨p'.live i, (hseen i _).mpr (.inr rfl), ?_⟩
      have hmore : ¬ p'.live i ⌈/⌉ T.slots i ≤ p.pages i := by
        rw [ceilDiv_le_iff]
        exact Nat.not_le.mpr hfull
      omega
  · rintro k ⟨m, hm, rfl⟩
    rcases (hseen i m).mp hm with hold | rfl
    · have hbound := hmax ⟨m, hold, rfl⟩
      rcases hpages i with hsame | ⟨hgrown, -⟩ <;> omega
    · exact hneed

theorem Fits.give (hf : Fits T p) (i : ι) : Fits T (give i p) := by
  refine ⟨?_, hf.pages_le⟩
  intro j
  have hle := hf.live_le j
  show Function.update p.live i (p.live i - 1) j ≤ _
  by_cases hji : j = i
  · subst hji
    rw [Function.update_self]
    exact Nat.le_trans (Nat.sub_le _ _) hle
  · rw [Function.update_of_ne hji]
    exact hle

omit [DecidableEq ι] in
/-- Nothing is taken or given. -/
theorem Peaks.stay (hp : Peaks T seen p) (hf : Fits T p) (hseen : ∀ j n, seen' j n ↔ seen j n ∨ n = p.live j) :
    Peaks T seen' p := hp.change hseen hf.live_le fun _ => .inl rfl

theorem Peaks.give (hp : Peaks T seen p) (hf : Fits T p) (i : ι)
    (hseen : ∀ j n, seen' j n ↔ seen j n ∨ n = (give i p).live j) : Peaks T seen' (give i p) :=
  hp.change hseen (hf.give i).live_le fun _ => .inl rfl

theorem take_room (h : p.live i < p.pages i * T.slots i) :
    take T i p = (true, { p with live := Function.update p.live i (p.live i + 1) }) := if_pos h

theorem take_page (hfull : p.pages i * T.slots i ≤ p.live i) (hbudget : Custody.total p.pages < T.budget) :
    take T i p = (true, ⟨Function.update p.live i (p.live i + 1), Function.update p.pages i (p.pages i + 1)⟩) := by
  unfold take
  dsimp only
  rw [if_neg (Nat.not_lt.mpr hfull), if_pos hbudget]

theorem take_spent (hfull : p.pages i * T.slots i ≤ p.live i) (hspent : T.budget ≤ Custody.total p.pages) :
    take T i p = (false, p) := by
  unfold take
  dsimp only
  rw [if_neg (Nat.not_lt.mpr hfull), if_neg (Nat.not_lt.mpr hspent)]

theorem total_update (f : ι → Nat) (i : ι) : Custody.total (Function.update f i (f i + 1)) = Custody.total f + 1 := by
  have hsame : ∀ j, j ≠ i → Function.update f i (f i + 1) j = f j := fun j hj => Function.update_of_ne hj ..
  have hexchange := Custody.total_exchange (a := 0) (b := 1) hsame (by rw [Function.update_self])
  rwa [Nat.add_zero] at hexchange

theorem Fits.take (hf : Fits T p) (i : ι) : Fits T (take T i p).2 := by
  rcases Nat.lt_or_ge (p.live i) (p.pages i * T.slots i) with hroom | hfull
  · rw [take_room hroom]
    refine ⟨?_, hf.pages_le⟩
    intro j
    have hle := hf.live_le j
    show Function.update p.live i (p.live i + 1) j ≤ _
    by_cases hji : j = i
    · subst hji
      rw [Function.update_self]
      exact hroom
    · rw [Function.update_of_ne hji]
      exact hle
  · rcases Nat.lt_or_ge (Custody.total p.pages) T.budget with hbudget | hspent
    · rw [take_page hfull hbudget]
      refine ⟨?_, ?_⟩
      · intro j
        have hle := hf.live_le j
        show Function.update p.live i (p.live i + 1) j ≤ Function.update p.pages i (p.pages i + 1) j * T.slots j
        by_cases hji : j = i
        · subst hji
          have hpos := T.slots_pos j
          rw [Function.update_self, Function.update_self, Nat.succ_mul]
          omega
        · rw [Function.update_of_ne hji, Function.update_of_ne hji]
          exact hle
      · show Custody.total (Function.update p.pages i (p.pages i + 1)) ≤ _
        rw [total_update]
        exact hbudget
    · rw [take_spent hfull hspent]
      exact hf

theorem Peaks.take (hp : Peaks T seen p) (hf : Fits T p) (i : ι)
    (hseen : ∀ j n, seen' j n ↔ seen j n ∨ n = (take T i p).2.live j) : Peaks T seen' (take T i p).2 := by
  refine hp.change hseen (hf.take i).live_le ?_
  intro j
  rcases Nat.lt_or_ge (p.live i) (p.pages i * T.slots i) with hroom | hfull
  · rw [take_room hroom]
    exact .inl rfl
  · rcases Nat.lt_or_ge (Custody.total p.pages) T.budget with hbudget | hspent
    · rw [take_page hfull hbudget]
      show Function.update p.pages i (p.pages i + 1) j = _ ∨
        Function.update p.pages i (p.pages i + 1) j = _ ∧ _ < Function.update p.live i (p.live i + 1) j
      by_cases hji : j = i
      · subst hji
        right
        rw [Function.update_self, Function.update_self]
        exact ⟨rfl, Nat.lt_succ_of_le hfull⟩
      · left
        exact Function.update_of_ne hji ..
    · rw [take_spent hfull hspent]
      exact .inl rfl

end

end Slope.Quota
