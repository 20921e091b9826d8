import Mathlib.Data.List.Basic

/-!
# `Lib.Sink` — pushing a buffer through a sink that takes it in pieces

A sink is offered a list and answers how many of its elements, from the front, it took, or fails. `drain`
offers what is left until nothing is: the loop behind every "write all". Four things can end it: nothing is
left; the sink fails; it takes nothing; it claims more than it was offered, so that what is left has no
meaning.

`drain_rule` is the rule of the loop, over an invariant of what was taken so far and the state of the sink.
-/

namespace Slope.Sink

/-- How a drain ends. -/
inductive Ending (ε : Type*) where
  | done
  | failed (error : ε)
  | stalled
  | overrun
  deriving DecidableEq, Repr

variable {α ε κ : Type*}

/-- `while !rest.is_empty() { let n = sink(rest)?; if n == 0 { stalled }; rest = &rest[n..]; }` -/
def drain (sink : List α → κ → Except ε Nat × κ) (rest : List α) (s : κ) : Ending ε × κ :=
  if rest = [] then (.done, s)
  else
    match sink rest s with
    | (.error e, s') => (.failed e, s')
    | (.ok n, s') =>
      if n = 0 then (.stalled, s')
      else if rest.length < n then (.overrun, s')
      else drain sink (rest.drop n) s'
termination_by rest.length
decreasing_by
  simp only [List.length_drop]
  omega

variable {sink : List α → κ → Except ε Nat × κ}

/-! ## One round -/

@[simp] theorem drain_nil (s : κ) : drain sink [] s = (.done, s) := by
  rw [drain, if_pos rfl]

theorem drain_failed {rest : List α} {s s' : κ} {e : ε} (hrest : rest ≠ [])
    (h : sink rest s = (.error e, s')) : drain sink rest s = (.failed e, s') := by
  rw [drain, if_neg hrest, h]

theorem drain_stalled {rest : List α} {s s' : κ} (hrest : rest ≠ []) (h : sink rest s = (.ok 0, s')) :
    drain sink rest s = (.stalled, s') := by
  rw [drain, if_neg hrest, h]
  simp

theorem drain_overrun {rest : List α} {s s' : κ} {n : Nat} (hrest : rest ≠ [])
    (h : sink rest s = (.ok n, s')) (hn : rest.length < n) : drain sink rest s = (.overrun, s') := by
  have h0 : n ≠ 0 := by omega
  rw [drain, if_neg hrest, h]
  simp [h0, hn]

theorem drain_taken {rest : List α} {s s' : κ} {n : Nat} (h : sink rest s = (.ok n, s')) (hpos : 0 < n)
    (hn : n ≤ rest.length) : drain sink rest s = drain sink (rest.drop n) s' := by
  have hrest : rest ≠ [] := by
    rintro rfl
    simp at hn
    omega
  have h0 : n ≠ 0 := by omega
  have hlt : ¬ rest.length < n := by omega
  rw [drain, if_neg hrest, h]
  simp [h0, hlt]

/-! ## The rule of the loop -/

/-- What the sink did last, when a drain ends before its time. -/
inductive Broke (sink : List α → κ → Except ε Nat × κ) (rest : List α) (s s' : κ) : Ending ε → Prop where
  | failed {e : ε} (h : sink rest s = (.error e, s')) : Broke sink rest s s' (.failed e)
  | stalled (h : sink rest s = (.ok 0, s')) : Broke sink rest s s' .stalled
  | overrun {n : Nat} (h : sink rest s = (.ok n, s')) (hn : rest.length < n) : Broke sink rest s s' .overrun

/-- **The rule of the loop.** `I taken s` is kept by every round that takes a piece of `all`. Then a drain that
    is done has `I all`; one that broke off stood, before its last round, in a state with `I` of what was
    taken, and something was left. -/
theorem drain_rule (I : List α → κ → Prop) {all : List α}
    (hround : ∀ {taken rest : List α} {s s' : κ} {n : Nat}, taken ++ rest = all → rest ≠ [] → I taken s →
      sink rest s = (.ok n, s') → 0 < n → n ≤ rest.length → I (taken ++ rest.take n) s') :
    ∀ {taken rest : List α} {s : κ}, taken ++ rest = all → I taken s →
      ((drain sink rest s).1 = .done ∧ I all (drain sink rest s).2) ∨
      ∃ taken' rest' s', taken' ++ rest' = all ∧ rest' ≠ [] ∧ I taken' s' ∧
        Broke sink rest' s' (drain sink rest s).2 (drain sink rest s).1 := by
  intro taken rest s hall hI
  -- the rest gets shorter with each round, while what was taken grows
  induction hlen : rest.length using Nat.strongRecOn generalizing taken rest s with
  | ind len ih =>
      by_cases hrest : rest = []
      · subst hrest
        rw [List.append_nil] at hall
        rw [drain_nil]
        exact .inl ⟨rfl, hall ▸ hI⟩
      rcases hsink : sink rest s with ⟨answer, s'⟩
      cases answer with
      | error e =>
          rw [drain_failed hrest hsink]
          exact .inr ⟨taken, rest, s, hall, hrest, hI, .failed hsink⟩
      | ok n =>
          rcases Nat.eq_zero_or_pos n with rfl | hpos
          · rw [drain_stalled hrest hsink]
            exact .inr ⟨taken, rest, s, hall, hrest, hI, .stalled hsink⟩
          rcases Nat.lt_or_ge rest.length n with hn | hn
          · rw [drain_overrun hrest hsink hn]
            exact .inr ⟨taken, rest, s, hall, hrest, hI, .overrun hsink hn⟩
          rw [drain_taken hsink hpos hn]
          have hshort : (rest.drop n).length < len := by
            rw [List.length_drop]
            omega
          have hsplit : (taken ++ rest.take n) ++ rest.drop n = all := by
            rw [List.append_assoc, List.take_append_drop, hall]
          exact ih _ hshort hsplit (hround hall hrest hI hsink hpos hn) rfl

end Slope.Sink
