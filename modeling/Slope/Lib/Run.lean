import Mathlib.Data.List.Basic

/-!
# `Lib.Run` — runs of a stateful component and their histories

A component is a function `step : σ → ι → ο × σ`: in state `s` the call `i` returns `(step s i).1` and leaves
`(step s i).2`. A failing call is still a call, so its result is recorded like any other and the state it
leaves is whatever `step` says it leaves.

`Run step allowed s₀ h s` says that some sequence of calls leads from `s₀` to `s` with history `h`, oldest
event first. `allowed` restricts the calls the environment may issue *given the history so far* (a caller that
only presents tickets it was given, say); `fun _ _ => True` is the adversarial environment.

The rules at the end are what safety proofs use: an invariant of history and state (`Run.invariant`), an
invariant of the state alone (`Run.state_invariant`), widening the environment (`Run.mono`), cutting a run
at one of its events (`Run.cut`), and extending one by a list of calls (`Run.calls`).
-/

namespace Slope

/-- One call: the state it was issued in, the call, what it returned, and the state it left behind. -/
structure Event (σ ι ο : Type*) where
  pre : σ
  call : ι
  result : ο
  post : σ

/-- The event that issuing `i` in state `s` produces. -/
def Event.of {σ ι ο : Type*} (step : σ → ι → ο × σ) (s : σ) (i : ι) : Event σ ι ο :=
  ⟨s, i, (step s i).1, (step s i).2⟩

section

variable {σ ι ο : Type*}

/-- **Runs.** `h` is the history of a run from `s₀` to the indexed state, all of whose calls were allowed. -/
inductive Run (step : σ → ι → ο × σ) (allowed : List (Event σ ι ο) → ι → Prop) (s₀ : σ) :
    List (Event σ ι ο) → σ → Prop where
  | start : Run step allowed s₀ [] s₀
  | call {h : List (Event σ ι ο)} {s : σ} (i : ι) (hr : Run step allowed s₀ h s) (ha : allowed h i) :
      Run step allowed s₀ (h ++ [Event.of step s i]) (step s i).2

variable {step : σ → ι → ο × σ} {allowed : List (Event σ ι ο) → ι → Prop} {s₀ s : σ}
  {h : List (Event σ ι ο)}

/-- **Invariant rule** for properties of the history and the state it leads to. -/
theorem Run.invariant (I : List (Event σ ι ο) → σ → Prop) (h0 : I [] s₀)
    (hstep : ∀ h s i, Run step allowed s₀ h s → allowed h i → I h s →
      I (h ++ [Event.of step s i]) (step s i).2)
    (hr : Run step allowed s₀ h s) : I h s := by
  induction hr with
  | start => exact h0
  | call i hr ha ih => exact hstep _ _ i hr ha ih

/-- **Invariant rule** for properties of the state alone. -/
theorem Run.state_invariant (I : σ → Prop) (h0 : I s₀) (hstep : ∀ s i, I s → I (step s i).2)
    (hr : Run step allowed s₀ h s) : I s :=
  hr.invariant (fun _ s => I s) h0 (fun _ s i _ _ ih => hstep s i ih)

/-- A run of one environment is a run of every more permissive one. -/
theorem Run.mono {allowed' : List (Event σ ι ο) → ι → Prop} (himp : ∀ h i, allowed h i → allowed' h i)
    (hr : Run step allowed s₀ h s) : Run step allowed' s₀ h s := by
  induction hr with
  | start => exact .start
  | call i hr ha ih => exact ih.call i (himp _ i ha)

/-- Every recorded event is one the component really produces. -/
theorem Run.event_of (hr : Run step allowed s₀ h s) {e : Event σ ι ο} (he : e ∈ h) :
    e = Event.of step e.pre e.call := by
  refine hr.invariant (fun h _ => ∀ e ∈ h, e = Event.of step e.pre e.call) (by simp) ?_ e he
  intro h s i _ _ ih e he
  rcases List.mem_append.mp he with he | he
  · exact ih e he
  · rw [List.mem_singleton.mp he]; rfl

/-- **Cutting a run.** At each event `e` the run splits: the calls before it lead to `e.pre`, `e.call` was
    allowed there, and the calls after it form a run from `e.post`. -/
theorem Run.cut (hr : Run step allowed s₀ h s) :
    ∀ {h₁ h₂ : List (Event σ ι ο)} {e : Event σ ι ο}, h = h₁ ++ e :: h₂ →
      Run step allowed s₀ h₁ e.pre ∧ allowed h₁ e.call ∧
        Run step (fun _ _ => True) e.post h₂ s := by
  induction hr with
  | start => intro h₁ h₂ e he; simp at he
  | @call h s i hr ha ih =>
      intro h₁ h₂ e he
      rcases List.eq_nil_or_concat h₂ with rfl | ⟨h₂', e', rfl⟩
      · obtain ⟨rfl, he⟩ := List.append_inj' he rfl
        obtain rfl : Event.of step s i = e := by simpa using he
        exact ⟨hr, ha, .start⟩
      · rw [List.concat_eq_append, ← List.cons_append, ← List.append_assoc] at he
        obtain ⟨rfl, he⟩ := List.append_inj' he rfl
        obtain rfl : Event.of step s i = e' := by simpa using he
        obtain ⟨hpre, hal, hpost⟩ := ih rfl
        exact ⟨hpre, hal, List.concat_eq_append ▸ hpost.call i trivial⟩

/-- A reading of the history, event by event, grows at its end. -/
theorem filterMap_snoc {α β : Type*} (g : α → Option β) (l : List α) (a : α) :
    (l ++ [a]).filterMap g = l.filterMap g ++ (g a).toList := by
  rw [List.filterMap_append]
  cases hg : g a <;> simp [hg]

/-- Where a list with one more element at its end can be cut: at that element, or before it. -/
theorem snoc_cut {α : Type*} {l before after : List α} {a x : α} (h : l ++ [x] = before ++ a :: after) :
    (before = l ∧ a = x ∧ after = []) ∨ ∃ after', after = after' ++ [x] ∧ l = before ++ a :: after' := by
  rcases List.eq_nil_or_concat after with rfl | ⟨after', x', rfl⟩
  · obtain ⟨rfl, he⟩ := List.append_inj' h rfl
    exact .inl ⟨rfl, (List.cons.inj he).1.symm, rfl⟩
  · rw [List.concat_eq_append, ← List.cons_append, ← List.append_assoc] at h
    obtain ⟨rfl, he⟩ := List.append_inj' h rfl
    obtain rfl : x = x' := (List.cons.inj he).1
    exact .inr ⟨after', List.concat_eq_append, rfl⟩

/-! ## Replaying a list of calls -/

/-- The history that a list of calls produces from state `s`. -/
def trace (step : σ → ι → ο × σ) (s : σ) : List ι → List (Event σ ι ο)
  | [] => []
  | i :: is => Event.of step s i :: trace step (step s i).2 is

/-- The state that a list of calls leads to. -/
def finalState (step : σ → ι → ο × σ) (s : σ) : List ι → σ
  | [] => s
  | i :: is => finalState step (step s i).2 is

theorem trace_append (s : σ) (is js : List ι) :
    trace step s (is ++ js) = trace step s is ++ trace step (finalState step s is) js := by
  induction is generalizing s with
  | nil => rfl
  | cons i is ih => simp only [List.cons_append, trace, finalState, ih]

theorem finalState_append (s : σ) (is js : List ι) :
    finalState step s (is ++ js) = finalState step (finalState step s is) js := by
  induction is generalizing s with
  | nil => rfl
  | cons i is ih => exact ih _

/-- **Extension.** Any list of calls extends a run of the unrestricted environment. -/
theorem Run.calls (hr : Run step (fun _ _ => True) s₀ h s) (is : List ι) :
    Run step (fun _ _ => True) s₀ (h ++ trace step s is) (finalState step s is) := by
  induction is generalizing h s with
  | nil => simpa [trace, finalState] using hr
  | cons i is ih =>
      have hnext := ih (hr.call i trivial)
      rwa [List.append_assoc, List.singleton_append] at hnext

/-- Extension by calls that the environment allows at any time. -/
theorem Run.calls_of {P : ι → Prop} (hr : Run step (fun _ i => P i) s₀ h s) {is : List ι} (hall : ∀ i ∈ is, P i) :
    Run step (fun _ i => P i) s₀ (h ++ trace step s is) (finalState step s is) := by
  induction is generalizing h s with
  | nil => simpa [trace, finalState] using hr
  | cons i is ih =>
      have hnext := ih (hr.call i (hall i List.mem_cons_self)) fun j hj => hall j (List.mem_cons_of_mem _ hj)
      rwa [List.append_assoc, List.singleton_append] at hnext

/-- A list of such calls from the start. -/
theorem Run.replay_of {P : ι → Prop} (step : σ → ι → ο × σ) (s : σ) {is : List ι} (hall : ∀ i ∈ is, P i) :
    Run step (fun _ i => P i) s (trace step s is) (finalState step s is) := by
  have hr : Run step (fun _ i => P i) s ([] ++ trace step s is) (finalState step s is) := .calls_of .start hall
  rwa [List.nil_append] at hr

/-- A list of calls from the start. -/
theorem Run.replay (step : σ → ι → ο × σ) (s : σ) (is : List ι) :
    Run step (fun _ _ => True) s (trace step s is) (finalState step s is) := by
  have hr : Run step (fun _ _ => True) s ([] ++ trace step s is) (finalState step s is) := .calls .start is
  rwa [List.nil_append] at hr

end

end Slope
