import Mathlib.Data.List.Basic

/-!
# `Lib.Split` — pieces between separators

`xs.splitOn sep` cuts a list at a separator into a first piece and the pieces after it. This file says how an
element at an edge of a piece shows in the whole list: a piece other than the first begins with `a` exactly
when `sep, a` occur next to each other, and some piece ends with `a` exactly when the list does or `a, sep`
occur next to each other. A scanner that looks at neighbours can so be compared with a rule about pieces.
-/

namespace Slope.Split

variable {α : Type*} [BEq α] [LawfulBEq α] {sep a x : α} {xs : List α}

omit [LawfulBEq α] in
theorem splitOn_eq_cons (sep : α) (xs : List α) : ∃ first rest, xs.splitOn sep = first :: rest := by
  cases h : xs.splitOn sep with
  | nil => exact absurd h (List.splitOnP_ne_nil _ _)
  | cons first rest => exact ⟨first, rest, rfl⟩

theorem splitOn_cons_sep (sep : α) (xs : List α) : (sep :: xs).splitOn sep = [] :: xs.splitOn sep := by
  rw [List.splitOn, List.splitOnP_cons_eq_if_modifyHead, if_pos (by simp)]
  rfl

/-- An element that is no separator joins the first piece. -/
theorem splitOn_cons_ne (h : x ≠ sep) {first : List α} {rest : List (List α)}
    (hxs : xs.splitOn sep = first :: rest) : (x :: xs).splitOn sep = (x :: first) :: rest := by
  rw [List.splitOn] at hxs
  rw [List.splitOn, List.splitOnP_cons_eq_if_modifyHead, if_neg (by simpa using h), hxs]
  rfl

/-- The pieces hold elements of the list, and no separator. -/
theorem mem_of_mem_piece {piece : List α} (hpiece : piece ∈ xs.splitOn sep) (hx : x ∈ piece) : x ∈ xs ∧ x ≠ sep := by
  induction xs generalizing piece with
  | nil =>
      obtain rfl : piece = [] := by simpa [List.splitOn] using hpiece
      cases hx
  | cons y ys ih =>
      by_cases hy : y = sep
      · subst hy
        rw [splitOn_cons_sep, List.mem_cons] at hpiece
        rcases hpiece with rfl | hpiece
        · cases hx
        · exact (ih hpiece hx).imp (List.mem_cons_of_mem _) id
      · obtain ⟨first, rest, hsplit⟩ := splitOn_eq_cons sep ys
        rw [splitOn_cons_ne hy hsplit, List.mem_cons] at hpiece
        rw [hsplit] at ih
        rcases hpiece with rfl | hpiece
        · rcases List.mem_cons.mp hx with rfl | hx
          · exact ⟨List.mem_cons_self, hy⟩
          · exact (ih List.mem_cons_self hx).imp (List.mem_cons_of_mem _) id
        · exact (ih (List.mem_cons_of_mem _ hpiece) hx).imp (List.mem_cons_of_mem _) id

/-- The first piece is empty when the list is, or starts with a separator. -/
theorem first_eq_nil {first : List α} {rest : List (List α)} (hxs : xs.splitOn sep = first :: rest) :
    first = [] ↔ xs = [] ∨ xs.head? = some sep := by
  cases xs with
  | nil =>
      obtain ⟨rfl, -⟩ : first = [] ∧ rest = [] := by simpa [List.splitOn, eq_comm] using hxs
      simp
  | cons x xs =>
      by_cases hx : x = sep
      · subst hx
        rw [splitOn_cons_sep] at hxs
        simp [(List.cons.inj hxs).1.symm]
      · obtain ⟨first', rest', hsplit⟩ := splitOn_eq_cons sep xs
        rw [splitOn_cons_ne hx hsplit] at hxs
        simp [(List.cons.inj hxs).1.symm, hx]

/-- The first piece begins as the list does. -/
theorem head?_first (ha : a ≠ sep) {first : List α} {rest : List (List α)} (hxs : xs.splitOn sep = first :: rest) :
    first.head? = some a ↔ xs.head? = some a := by
  cases xs with
  | nil =>
      obtain ⟨rfl, -⟩ : first = [] ∧ rest = [] := by simpa [List.splitOn, eq_comm] using hxs
      simp
  | cons x xs =>
      by_cases hx : x = sep
      · subst hx
        rw [splitOn_cons_sep] at hxs
        simp [(List.cons.inj hxs).1.symm, ha.symm]
      · obtain ⟨first', rest', hsplit⟩ := splitOn_eq_cons sep xs
        rw [splitOn_cons_ne hx hsplit] at hxs
        simp [(List.cons.inj hxs).1.symm]

/-- **Beginnings.** Some piece after the first begins with `a` exactly when `sep, a` are neighbours. -/
theorem tail_head?_ne_iff (ha : a ≠ sep) (xs : List α) :
    (∀ piece ∈ (xs.splitOn sep).tail, piece.head? ≠ some a) ↔ ¬ [sep, a] <:+: xs := by
  induction xs with
  | nil => simp
  | cons x xs ih =>
      obtain ⟨first, rest, hsplit⟩ := splitOn_eq_cons sep xs
      rw [hsplit, List.tail_cons] at ih
      rw [List.infix_cons_iff, not_or, ← ih]
      by_cases hx : x = sep
      · subst hx
        have hprefix : [x, a] <+: x :: xs ↔ xs.head? = some a := by
          cases xs <;> simp [eq_comm]
        rw [splitOn_cons_sep, List.tail_cons, hsplit, List.forall_mem_cons, hprefix, ← head?_first ha hsplit]
      · rw [splitOn_cons_ne hx hsplit, List.tail_cons]
        simp [Ne.symm hx]

/-- **Ends.** Some piece ends with `a` exactly when the list does, or `a, sep` are neighbours. -/
theorem getLast?_ne_iff (ha : a ≠ sep) (xs : List α) :
    (∀ piece ∈ xs.splitOn sep, piece.getLast? ≠ some a) ↔ xs.getLast? ≠ some a ∧ ¬ [a, sep] <:+: xs := by
  induction xs with
  | nil => simp [List.splitOn]
  | cons x xs ih =>
      obtain ⟨first, rest, hsplit⟩ := splitOn_eq_cons sep xs
      rw [List.infix_cons_iff, not_or]
      by_cases hx : x = sep
      · subst hx
        have hlast : (x :: xs).getLast? ≠ some a ↔ xs.getLast? ≠ some a := by
          cases xs with
          | nil => simp [ha.symm]
          | cons y ys => simp [List.getLast?_cons_cons]
        rw [splitOn_cons_sep, List.forall_mem_cons, ih, hlast]
        simp [ha]
      · rw [hsplit, List.forall_mem_cons] at ih
        rw [splitOn_cons_ne hx hsplit, List.forall_mem_cons]
        have hfirst := first_eq_nil hsplit
        cases xs with
        | nil =>
            obtain ⟨rfl, rfl⟩ : first = [] ∧ rest = [] := by simpa [List.splitOn, eq_comm] using hsplit
            simp
        | cons y ys =>
            have hprefix : [a, sep] <+: x :: y :: ys ↔ x = a ∧ y = sep := by
              simp [eq_comm]
            rw [List.getLast?_cons_cons, hprefix]
            by_cases hy : y = sep
            · -- the piece is `x` alone
              have hnil : first = [] := hfirst.mpr (Or.inr (by simp [hy]))
              subst hnil
              simp only [List.getLast?_nil, ne_eq, reduceCtorEq, not_false_eq_true, true_and] at ih
              rw [List.getLast?_singleton, ih, ne_eq, Option.some.injEq, and_iff_left hy]
              exact and_left_comm
            · -- the piece goes on
              have hne : first ≠ [] := fun hnil => by simpa [hy] using hfirst.mp hnil
              obtain ⟨z, zs, rfl⟩ := List.exists_cons_of_ne_nil hne
              rw [List.getLast?_cons_cons, ih]
              simp [hy]

end Slope.Split
