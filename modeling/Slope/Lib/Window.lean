import Mathlib.Data.List.Rotate
import Mathlib.Data.List.Sort

/-!
# `Lib.Window` — sliding windows and their order statistics

A ring of `n` slots that is written round and round keeps the last `n` entries of the sequence written to it.
`lastN` is that window; `set_rotate` is the step of the ring, read from its cursor on: the oldest entry goes and
the new one comes last.

`IsKthSmallest` is the `k`-th smallest entry of a list by counting, with `k` from one; there is at most one
(`IsKthSmallest.unique`), sorting finds it (`isKthSmallest_insertionSort`), and it is below a bound exactly when
`k` entries are (`IsKthSmallest.lt_iff`).
-/

namespace Slope

section

variable {α : Type*}

/-! ## The window -/

/-- The last `n` entries of a list, or all of them. -/
def lastN (n : Nat) (l : List α) : List α := l.drop (l.length - n)

theorem lastN_of_length_le {n : Nat} {l : List α} (h : l.length ≤ n) : lastN n l = l := by
  rw [lastN, Nat.sub_eq_zero_of_le h, List.drop_zero]

/-- A full window loses its oldest entry to a new one. -/
theorem lastN_snoc {n : Nat} (hn : 0 < n) {l : List α} (h : n ≤ l.length) (x : α) :
    lastN n (l ++ [x]) = (lastN n l).tail ++ [x] := by
  have hlen : (l ++ [x]).length - n = l.length - n + 1 := by
    rw [List.length_append, List.length_singleton]
    omega
  rw [lastN, lastN, hlen, List.drop_append_of_le_length (by omega), List.tail_drop]

theorem map_lastN {β : Type*} (g : α → β) (n : Nat) (l : List α) : (lastN n l).map g = lastN n (l.map g) := by
  rw [lastN, lastN, List.map_drop, List.length_map]

/-- Overwriting a slot of a ring, read from the slot after it. -/
theorem set_rotate {l : List α} {c : Nat} (hc : c < l.length) (x : α) :
    (l.set c x).rotate (c + 1) = (l.rotate c).tail ++ [x] := by
  obtain ⟨before, y, after, rfl, rfl⟩ : ∃ before y after, l = before ++ y :: after ∧ before.length = c := by
    refine ⟨l.take c, l[c], l.drop (c + 1), ?_, by rw [List.length_take, Nat.min_eq_left hc.le]⟩
    rw [List.cons_getElem_drop_succ, List.take_append_drop]
  have hset : (before ++ y :: after).set before.length x = before ++ [x] ++ after := by
    rw [List.set_append_right _ _ (Nat.le_refl _), Nat.sub_self, List.set_cons_zero, List.append_assoc,
      List.singleton_append]
  have hnew : (before ++ [x] ++ after).rotate (before.length + 1) = after ++ (before ++ [x]) := by
    have h := List.rotate_append_length_eq (before ++ [x]) after
    rwa [List.length_append, List.length_singleton] at h
  rw [hset, hnew, List.rotate_append_length_eq, List.cons_append, List.tail_cons, List.append_assoc]

end

/-! ## Order statistics -/

section

variable {α : Type*} [LinearOrder α]

/-- `v` is the `k`-th smallest entry of `l`: fewer than `k` entries are below it, and at least `k` are not
    above it. -/
structure IsKthSmallest (k : Nat) (l : List α) (v : α) : Prop where
  mem : v ∈ l
  below : l.countP (· < v) < k
  upto : k ≤ l.countP (· ≤ v)

theorem IsKthSmallest.unique {k : Nat} {l : List α} {v v' : α} (h : IsKthSmallest k l v)
    (h' : IsKthSmallest k l v') : v = v' := by
  -- of two candidates the larger one has the smaller one's `k` entries below it
  have hle : ∀ {a b : α}, IsKthSmallest k l a → IsKthSmallest k l b → ¬ a < b := by
    intro a b ha hb hab
    have hcount : l.countP (· ≤ a) ≤ l.countP (· < b) := by
      apply List.countP_mono_left
      intro x _ hx
      simpa using lt_of_le_of_lt (by simpa using hx) hab
    have hupto := ha.upto
    have hbelow := hb.below
    omega
  exact le_antisymm (not_lt.mp (hle h' h)) (not_lt.mp (hle h h'))

/-- The `k`-th smallest entry is below a bound exactly when `k` entries are. -/
theorem IsKthSmallest.lt_iff {k : Nat} {l : List α} {v : α} (h : IsKthSmallest k l v) (bound : α) :
    v < bound ↔ k ≤ l.countP (· < bound) := by
  constructor
  · intro hlt
    refine h.upto.trans (List.countP_mono_left ?_)
    intro x _ hx
    simpa using lt_of_le_of_lt (by simpa using hx) hlt
  · intro hcount
    by_contra hge
    have hmono : l.countP (· < bound) ≤ l.countP (· < v) := by
      apply List.countP_mono_left
      intro x _ hx
      simpa using lt_of_lt_of_le (by simpa using hx) (not_lt.mp hge)
    have hbelow := h.below
    omega

theorem IsKthSmallest.perm {k : Nat} {l l' : List α} {v : α} (h : IsKthSmallest k l v) (hp : l.Perm l') :
    IsKthSmallest k l' v :=
  ⟨hp.mem_iff.mp h.mem, hp.countP_eq _ ▸ h.below, hp.countP_eq _ ▸ h.upto⟩

/-- In a sorted list the `k`-th smallest entry is the `k`-th one. -/
theorem isKthSmallest_sorted {l : List α} (hs : l.Pairwise (· ≤ ·)) {i : Nat} (hi : i < l.length) :
    IsKthSmallest (i + 1) l l[i] := by
  have hmono : ∀ j k (hj : j < l.length) (hk : k < l.length), j ≤ k → l[j] ≤ l[k] := by
    intro j k hj hk hjk
    rcases Nat.eq_or_lt_of_le hjk with rfl | hlt
    · exact le_rfl
    · exact List.pairwise_iff_getElem.mp hs j k hj hk hlt
  have hsplit : l.countP (· < l[i]) = (l.take i).countP (· < l[i]) + (l.drop i).countP (· < l[i]) := by
    rw [← List.countP_append, List.take_append_drop]
  have hlater : (l.drop i).countP (· < l[i]) = 0 := by
    rw [List.countP_eq_zero]
    intro x hx
    obtain ⟨j, hj, rfl⟩ := List.mem_iff_getElem.mp hx
    rw [List.length_drop] at hj
    rw [List.getElem_drop]
    simpa using hmono i (i + j) hi (by omega) (Nat.le_add_right i j)
  have hearlier : (l.take i).countP (· < l[i]) ≤ i := by
    refine List.countP_le_length.trans ?_
    rw [List.length_take]
    omega
  have hupto : (l.take (i + 1)).countP (· ≤ l[i]) = i + 1 := by
    have hall : ∀ x ∈ l.take (i + 1), x ≤ l[i] := by
      intro x hx
      obtain ⟨j, hj, rfl⟩ := List.mem_iff_getElem.mp hx
      rw [List.length_take] at hj
      rw [List.getElem_take]
      exact hmono j i (by omega) hi (by omega)
    have hlen : (l.take (i + 1)).length = i + 1 := by
      rw [List.length_take]
      omega
    rw [List.countP_eq_length.mpr (by simpa using hall), hlen]
  refine ⟨List.getElem_mem hi, by omega, ?_⟩
  rw [← hupto]
  exact (List.take_sublist _ _).countP_le

/-- Sorting finds the `k`-th smallest entry. -/
theorem isKthSmallest_insertionSort (l : List α) {i : Nat} (hi : i < (l.insertionSort (· ≤ ·)).length) :
    IsKthSmallest (i + 1) l (l.insertionSort (· ≤ ·))[i] :=
  (isKthSmallest_sorted (List.pairwise_insertionSort _ l) hi).perm (List.perm_insertionSort _ l)

end

end Slope
