import Mathlib.Logic.Function.Iterate
import Slope.Executor.Liveness

/-!
# `Executor.Served` — tasks that wait for one item each

`Executor.Liveness` has `run_forever` return when each task bounds its own polls. A task that waits for something from
outside has no such bound: it takes one item of a queue and is done, or finds the queue empty, wakes itself and returns
`Pending`, and when the next item comes is up to whoever fills the queue.

So the loop returns exactly if enough items come, and not before: with `n` items taken or still awaited, a pass that
starts when `n` have been supplied serves every live task, and a pass that leaves no task has seen `n`.
-/

namespace Slope.Executor.OuroborosExecutor

variable {T σ R : Type} {poll : T → Fin maxTasks → σ → PollOutcome σ} {yieldRetrocausally : Nat → σ → σ}

instance (e : OuroborosExecutor T) (i : Fin maxTasks) : Decidable (e.Pollable i) :=
  inferInstanceAs (Decidable (_ ∨ _))

/-! ## Tasks that wake themselves -/

def SelfWaking (poll : T → Fin maxTasks → σ → PollOutcome σ) : Prop :=
  ∀ task i w, (poll task i w).done = false → i ∈ (poll task i w).wakes

/-- In a pass with `mask` still to visit: every live slot holds a task, and is due in this pass or the next. -/
structure Attended (mask : U64) (e : OuroborosExecutor T) : Prop where
  manned : ∀ i, e.Pollable i → ∃ task, (e.slots i).task = some task
  due : ∀ i : Fin maxTasks, e.Pollable i → mask.getLsbD i = true ∨ e.readyMask.getLsbD i = true

variable {e : OuroborosExecutor T} {w : σ} {mask : U64}

theorem getLsbD_clear_other {i b : Fin maxTasks} (hib : i ≠ b) :
    (mask &&& ~~~bitMask b).getLsbD i = mask.getLsbD i := by
  have hval : i.val ≠ b.val := fun hv => hib (Fin.ext hv)
  rw [getLsbD_clear _ i.isLt, decide_eq_true hval, Bool.and_true]

/-- A slot that was polled is live after it if its task is not done; the others are as before. -/
theorem Polled.pollable_iff {b : Fin maxTasks} {out : PollOutcome σ} (h : Polled poll e w b out) (i : Fin maxTasks) :
    (pollSlot poll e w b).1.Pollable i ↔ if i = b then out.done = false else e.Pollable i := by
  unfold Pollable
  rw [h.state i]
  by_cases hib : i = b
  · rw [if_pos hib, if_pos hib]
    cases out.done <;> simp
  · rw [if_neg hib, if_neg hib]

theorem Attended.pollSlot (h : Attended mask e) (hself : SelfWaking poll) (b : Fin maxTasks) (w : σ) :
    Attended (mask &&& ~~~bitMask b) (pollSlot poll e w b).1 := by
  by_cases hb : e.Pollable b
  · obtain ⟨task, htask⟩ := h.manned b hb
    have hout : outcome poll (e.slots b) b w = poll task b w := by
      unfold outcome
      rw [htask]
    have hpolled := polled_of_pollable hb hout
    have hbefore : ∀ i, (OuroborosExecutor.pollSlot poll e w b).1.Pollable i → e.Pollable i := by
      intro i hi
      rw [hpolled.pollable_iff] at hi
      by_cases hib : i = b
      · exact hib ▸ hb
      · rwa [if_neg hib] at hi
    refine ⟨fun i hi => ?_, fun i hi => ?_⟩
    · rw [hpolled.task i]
      exact h.manned i (hbefore i hi)
    · rw [hpolled.ready i]
      by_cases hib : i = b
      · subst hib
        rw [hpolled.pollable_iff, if_pos rfl] at hi
        right
        rw [decide_eq_true (hself task i w hi), Bool.or_true]
      · rw [getLsbD_clear_other hib]
        rcases h.due i (hbefore i hi) with hbit | hbit
        · exact .inl hbit
        · right
          rw [hbit, Bool.true_or]
  · rw [pollSlot_of_not_pollable hb]
    refine ⟨h.manned, fun i hi => ?_⟩
    have hib : i ≠ b := by
      rintro rfl
      exact hb hi
    rw [getLsbD_clear_other hib]
    exact h.due i hi

/-- Between two passes the live slots are ready. -/
theorem Attended.ready (h : Attended 0 e) {i : Fin maxTasks} (hi : e.Pollable i) : e.readyMask.getLsbD i = true := by
  rcases h.due i hi with hbit | hbit
  · cases BitVec.getLsbD_zero.symm.trans hbit
  · exact hbit

theorem Attended.swapped (h : Attended 0 e) : Attended e.readyMask { e with readyMask := 0 } :=
  ⟨h.manned, fun _ hi => .inl (h.ready hi)⟩

theorem Attended.pollLoop (fuel : Nat) (h : Attended mask e) (hself : SelfWaking poll) (w : σ)
    (hf : Fuelled fuel mask) : Attended 0 (pollLoop poll fuel mask e w).1 := by
  induction fuel generalizing mask e w with
  | zero =>
      obtain rfl := hf.eq_zero
      exact h
  | succ fuel ih =>
      by_cases hmask : mask = 0
      · subst hmask
        exact h
      · rw [pollLoop_succ poll hmask]
        exact ih (h.pollSlot hself (lowest mask) w) _ (hf.next hmask)

theorem Attended.wake (h : Attended 0 e) (j : Fin maxTasks) : Attended 0 (e.wake j) := by
  refine ⟨h.manned, fun i hi => ?_⟩
  right
  rw [getLsbD_wake, h.ready hi, Bool.true_or]

theorem Attended.spawn (h : Attended 0 e) (task : T) : Attended 0 (e.spawnRaw task).2.1 := by
  unfold spawnRaw
  cases e.findFreeSlot with
  | none => exact h
  | some b =>
      have hslot : ∀ i, i ≠ b → Function.update e.slots b ⟨some task, .ready⟩ i = e.slots i :=
        fun i hib => Function.update_of_ne hib ..
      refine ⟨fun i hi => ?_, fun i hi => ?_⟩
      · show ∃ t, (Function.update e.slots b ⟨some task, .ready⟩ i).task = some t
        by_cases hib : i = b
        · subst hib
          rw [Function.update_self]
          exact ⟨task, rfl⟩
        · rw [hslot i hib]
          refine h.manned i ?_
          unfold Pollable at hi ⊢
          rw [← hslot i hib]
          exact hi
      · show _ ∨ (e.wake b).readyMask.getLsbD i = true
        rw [getLsbD_wake]
        right
        by_cases hib : i = b
        · rw [decide_eq_true hib, Bool.or_true]
        · have hold : e.Pollable i := by
            unfold Pollable at hi ⊢
            rw [← hslot i hib]
            exact hi
          rw [h.ready hold, Bool.true_or]

/-- Self-waking tasks are due whenever they are live. -/
theorem attended_run (hself : SelfWaking poll) {h : List (ExecutorEvent T σ)}
    (hr : Run (OuroborosExecutor.step poll) (fun _ _ => True) .new h e) : Attended 0 e := by
  refine hr.invariant (fun _ e => Attended 0 e) ?_ ?_
  · refine ⟨fun i hi => ?_, fun i hi => ?_⟩ <;> rcases hi with hi | hi <;> cases hi
  · intro h e c _ _ ih
    cases c with
    | spawn task => exact ih.spawn task
    | runUntilStall w =>
        rw [(step_pass poll e w).2, (Prod.mk.inj (runUntilStall_eq poll e w)).1]
        exact ih.swapped.pollLoop maxTasks hself w (fuelled_max _)
    | wake j => exact ih.wake j

/-! ## A queue behind the tasks -/

/-- What tasks can see of a world with a queue: the items put into it and taken from it so far, and who took which. -/
structure Queue (σ R : Type) where
  Good : σ → Prop
  supply : σ → Nat
  taken : σ → Nat
  results : σ → List (Fin maxTasks × R)

/-- **Each task takes one item.** In a good world a poll is done exactly with an item, which is added to the results
    under the task's slot; one that is not done wakes its task and has found nothing left. -/
structure Serves (poll : T → Fin maxTasks → σ → PollOutcome σ) (yieldRetrocausally : Nat → σ → σ)
    (q : Queue σ R) : Prop where
  wakes : SelfWaking poll
  taken_le : ∀ w, q.Good w → q.taken w ≤ q.supply w
  polled : ∀ task i w, q.Good w → q.Good (poll task i w).world ∧ q.supply w ≤ q.supply (poll task i w).world
  served : ∀ task i w, q.Good w → (poll task i w).done = true →
    q.taken (poll task i w).world = q.taken w + 1 ∧ ∃ r, q.results (poll task i w).world = q.results w ++ [(i, r)]
  pending : ∀ task i w, q.Good w → (poll task i w).done = false →
    q.supply w ≤ q.taken w ∧ q.taken (poll task i w).world = q.taken w ∧
      q.results (poll task i w).world = q.results w
  idle : ∀ alive w, q.Good w → q.Good (yieldRetrocausally alive w) ∧
    q.supply w ≤ q.supply (yieldRetrocausally alive w) ∧ q.taken (yieldRetrocausally alive w) = q.taken w ∧
      q.results (yieldRetrocausally alive w) = q.results w

/-- **`n` items are taken or awaited.** Of the slots live at the start, `e₀`, each has a result since, or is still
    live. -/
structure Awaiting (q : Queue σ R) (n : Nat) (r₀ : List (Fin maxTasks × R)) (e₀ : OuroborosExecutor T) (mask : U64)
    (e : OuroborosExecutor T) (w : σ) : Prop where
  good : q.Good w
  attended : Attended mask e
  tracks : ∃ v, Tracks v mask e
  total : q.taken w + e.count = n
  results : ∃ new, q.results w = r₀ ++ new ∧
    ∀ i, (new.map Prod.fst).count i + (if e.Pollable i then 1 else 0) = if e₀.Pollable i then 1 else 0

/-- In the middle of a pass that started with `s` items supplied: a slot that was polled and is still live found less
    than `n`. -/
structure Serving (q : Queue σ R) (n s : Nat) (r₀ : List (Fin maxTasks × R)) (e₀ : OuroborosExecutor T) (mask : U64)
    (e : OuroborosExecutor T) (w : σ) : Prop extends Awaiting q n r₀ e₀ mask e w where
  supplied : s ≤ q.supply w
  hungry : ∀ i : Fin maxTasks, e.Pollable i → mask.getLsbD i = true ∨ s < n

section

variable {q : Queue σ R} {n s : Nat} {r₀ : List (Fin maxTasks × R)} {e₀ : OuroborosExecutor T}

/-- What a poll leaves of the counter. -/
theorem count_pollSlot {b : Fin maxTasks} (hb : e.Pollable b) {out : PollOutcome σ}
    (hout : outcome poll (e.slots b) b w = out) :
    (pollSlot poll e w b).1.count = if out.done then e.count - 1 else e.count := by
  have hnot : ¬ ((e.slots b).state ≠ .ready ∧ (e.slots b).state ≠ .parked) := fun hn => hb.elim hn.1 hn.2
  obtain ⟨wakes, done, world⟩ := out
  have hcount := (foldl_wake (e.setState b .running) wakes).2.1
  unfold pollSlot
  rw [if_neg hnot, hout]
  cases done with
  | true => exact congrArg (· - 1) hcount
  | false => exact hcount

theorem Tracks.count_pos {v : Fin maxTasks → TaskView} (h : Tracks v mask e) {b : Fin maxTasks} (hb : e.Pollable b) :
    0 < e.count := by
  rw [h.count]
  refine Nat.pos_of_ne_zero fun hzero => ?_
  have hdead := liveCount_eq_zero hzero b
  rw [(h.live b).mpr hb] at hdead
  cases hdead

theorem Serving.pollSlot (hq : Serves poll yieldRetrocausally q) (h : Serving q n s r₀ e₀ mask e w)
    (b : Fin maxTasks) :
    Serving q n s r₀ e₀ (mask &&& ~~~bitMask b) (pollSlot poll e w b).1 (pollSlot poll e w b).2.1 := by
  obtain ⟨v, htracks⟩ := h.tracks
  have hattended := h.attended.pollSlot hq.wakes b w
  have htracks' : Tracks _ (mask &&& ~~~bitMask b) (OuroborosExecutor.pollSlot poll e w b).1 := htracks.pollSlot b w
  by_cases hb : e.Pollable b
  · obtain ⟨task, htask⟩ := h.attended.manned b hb
    have hout : outcome poll (e.slots b) b w = poll task b w := by
      unfold outcome
      rw [htask]
    have hpolled := polled_of_pollable hb hout
    have hcount := count_pollSlot hb hout
    have hpos := htracks.count_pos hb
    obtain ⟨hgood, hsupply⟩ := hq.polled task b w h.good
    obtain ⟨new, hnew, hcounts⟩ := h.results
    have htotal := h.total
    have hsupplied := h.supplied
    rw [← hpolled.world] at hgood hsupply
    cases hdone : (poll task b w).done with
    | true =>
        obtain ⟨htaken, r, hresults⟩ := hq.served task b w h.good hdone
        rw [← hpolled.world] at htaken hresults
        rw [hdone, if_pos rfl] at hcount
        refine ⟨⟨hgood, hattended, ⟨_, htracks'⟩, ?_, new ++ [(b, r)], ?_, ?_⟩, ?_, ?_⟩
        · omega
        · rw [hresults, hnew, List.append_assoc]
        · intro i
          have hi := hcounts i
          simp only [hpolled.pollable_iff, hdone]
          rw [List.map_append, List.count_append, List.map_singleton, List.count_singleton]
          by_cases hib : i = b
          · subst hib
            rw [if_pos hb] at hi
            rw [← hi]
            simp
          · have hbeq : (b == i) = false := beq_false_of_ne (Ne.symm hib)
            simp only [hbeq, if_neg hib]
            simpa using hi
        · omega
        · intro i hi
          rw [hpolled.pollable_iff, hdone] at hi
          by_cases hib : i = b
          · rw [if_pos hib] at hi
            cases hi
          · rw [if_neg hib] at hi
            rw [getLsbD_clear_other hib]
            exact h.hungry i hi
    | false =>
        obtain ⟨hempty, htaken, hresults⟩ := hq.pending task b w h.good hdone
        rw [← hpolled.world] at htaken hresults
        rw [hdone] at hcount
        have hcount : (OuroborosExecutor.pollSlot poll e w b).1.count = e.count := hcount
        refine ⟨⟨hgood, hattended, ⟨_, htracks'⟩, ?_, new, ?_, ?_⟩, ?_, ?_⟩
        · omega
        · rw [hresults, hnew]
        · intro i
          have hi := hcounts i
          simp only [hpolled.pollable_iff, hdone]
          by_cases hib : i = b
          · subst hib
            rw [if_pos hb] at hi
            simpa using hi
          · simpa only [if_neg hib] using hi
        · omega
        · intro i _
          -- the slot polled here found nothing, and awaits one item itself
          right
          omega
  · rw [pollSlot_of_not_pollable hb] at hattended htracks' ⊢
    refine ⟨⟨h.good, hattended, ⟨_, htracks'⟩, h.total, h.results⟩, h.supplied, ?_⟩
    intro i hi
    have hib : i ≠ b := by
      rintro rfl
      exact hb hi
    rw [getLsbD_clear_other hib]
    exact h.hungry i hi

theorem Serving.pollLoop (hq : Serves poll yieldRetrocausally q) (fuel : Nat) (h : Serving q n s r₀ e₀ mask e w)
    (hf : Fuelled fuel mask) :
    Serving q n s r₀ e₀ 0 (pollLoop poll fuel mask e w).1 (pollLoop poll fuel mask e w).2.1 := by
  induction fuel generalizing mask e w with
  | zero =>
      obtain rfl := hf.eq_zero
      exact h
  | succ fuel ih =>
      by_cases hmask : mask = 0
      · subst hmask
        exact h
      · rw [pollLoop_succ poll hmask]
        exact ih (h.pollSlot hq (lowest mask)) (hf.next hmask)

/-- **A pass** serves every live task if `n` items are there when it starts. -/
theorem Awaiting.pass (hq : Serves poll yieldRetrocausally q) (h : Awaiting q n r₀ e₀ 0 e w) :
    Awaiting q n r₀ e₀ 0 (e.runUntilStall poll w).2.1 (e.runUntilStall poll w).2.2.1 ∧
      (n ≤ q.supply w → (e.runUntilStall poll w).1 = 0) := by
  obtain ⟨v, htracks⟩ := h.tracks
  have hstart : Serving q n (q.supply w) r₀ e₀ e.readyMask { e with readyMask := 0 } w :=
    ⟨⟨h.good, h.attended.swapped, ⟨v, htracks.swapped⟩, h.total, h.results⟩, Nat.le_refl _,
      fun i hi => .inl (h.attended.ready hi)⟩
  have hend := hstart.pollLoop hq maxTasks (fuelled_max _)
  unfold runUntilStall
  generalize OuroborosExecutor.pollLoop poll maxTasks e.readyMask { e with readyMask := 0 } w = pass at hend
  refine ⟨hend.toAwaiting, fun henough => ?_⟩
  obtain ⟨v', htracks'⟩ := hend.tracks
  by_contra hsome
  obtain ⟨i, hi⟩ := htracks'.exists_pollable hsome
  rcases hend.hungry i hi with hbit | hless
  · cases BitVec.getLsbD_zero.symm.trans hbit
  · omega

theorem Awaiting.yield (hq : Serves poll yieldRetrocausally q) (h : Awaiting q n r₀ e₀ mask e w) (alive : Nat) :
    Awaiting q n r₀ e₀ mask e (yieldRetrocausally alive w) := by
  obtain ⟨hgood, -, htaken, hresults⟩ := hq.idle alive w h.good
  refine ⟨hgood, h.attended, h.tracks, ?_, ?_⟩
  · rw [htaken]
    exact h.total
  · rw [hresults]
    exact h.results

/-! ## `run_forever` -/

/-- One round of `run_forever`, a pass and the yield after it. -/
def round (poll : T → Fin maxTasks → σ → PollOutcome σ) (yieldRetrocausally : Nat → σ → σ)
    (x : OuroborosExecutor T × σ) : OuroborosExecutor T × σ :=
  let pass := x.1.runUntilStall poll x.2
  (pass.2.1, yieldRetrocausally pass.1 pass.2.2.1)

theorem round_eq (poll : T → Fin maxTasks → σ → PollOutcome σ) (yieldRetrocausally : Nat → σ → σ)
    (e : OuroborosExecutor T) (w : σ) :
    round poll yieldRetrocausally (e, w) = ((e.runUntilStall poll w).2.1,
      yieldRetrocausally (e.runUntilStall poll w).1 (e.runUntilStall poll w).2.2.1) := by
  simp only [round]

/-- If the loop returns, then with nobody left. -/
theorem Awaiting.returned (hq : Serves poll yieldRetrocausally q) (fuel : Nat) (h : Awaiting q n r₀ e₀ 0 e w)
    {e' : OuroborosExecutor T} {w' : σ} {log : List TaskEvent}
    (hret : runForever poll yieldRetrocausally fuel e w = some (e', w', log)) :
    Awaiting q n r₀ e₀ 0 e' w' ∧ e'.count = 0 ∧
      ∃ k, n ≤ q.supply ((round poll yieldRetrocausally)^[k] (e, w)).2 := by
  induction fuel generalizing e w log with
  | zero => cases hret
  | succ fuel ih =>
      have hround := round_eq poll yieldRetrocausally e w
      have hpass := (h.pass hq).1
      have halive := runUntilStall_alive poll e w
      rw [runForever] at hret
      generalize e.runUntilStall poll w = pass at hpass halive hret hround
      obtain ⟨alive, e₁, w₁, log₁⟩ := pass
      by_cases hzero : alive = 0
      · simp only [hzero, if_true, Option.some.injEq, Prod.mk.injEq] at hret
        obtain ⟨rfl, rfl, rfl⟩ := hret
        have hcount : e₁.count = 0 := halive.symm.trans hzero
        refine ⟨hpass, hcount, 1, ?_⟩
        rw [Function.iterate_one, hround]
        have htotal : q.taken w₁ + e₁.count = n := hpass.total
        have hle := hq.taken_le w₁ hpass.good
        have hmore : q.supply w₁ ≤ q.supply (yieldRetrocausally alive w₁) := (hq.idle alive w₁ hpass.good).2.1
        show n ≤ q.supply (yieldRetrocausally alive w₁)
        omega
      · simp only [hzero, if_false] at hret
        cases hrest : runForever poll yieldRetrocausally fuel e₁ (yieldRetrocausally alive w₁) with
        | none => simp [hrest] at hret
        | some r =>
            obtain ⟨e₂, w₂, log₂⟩ := r
            simp only [hrest, Option.some.injEq, Prod.mk.injEq] at hret
            obtain ⟨rfl, rfl, rfl⟩ := hret
            obtain ⟨hend, hcount, k, hk⟩ := ih (Awaiting.yield hq hpass alive) hrest
            refine ⟨hend, hcount, k + 1, ?_⟩
            rw [Function.iterate_succ_apply, hround]
            exact hk

/-- If `n` items have been supplied after some rounds, the loop has returned or returns in the next. -/
theorem Awaiting.returns (hq : Serves poll yieldRetrocausally q) (k : Nat) (h : Awaiting q n r₀ e₀ 0 e w)
    (hk : n ≤ q.supply ((round poll yieldRetrocausally)^[k] (e, w)).2) :
    ∃ r, runForever poll yieldRetrocausally (k + 1) e w = some r := by
  induction k generalizing e w with
  | zero =>
      have hzero := (h.pass hq).2 hk
      rw [runForever]
      generalize e.runUntilStall poll w = pass at hzero
      obtain ⟨alive, e₁, w₁, log₁⟩ := pass
      have hzero : alive = 0 := hzero
      simp only [hzero, if_true]
      exact ⟨_, rfl⟩
  | succ k ih =>
      have hround := round_eq poll yieldRetrocausally e w
      have hpass := (h.pass hq).1
      rw [Function.iterate_succ_apply, hround] at hk
      rw [runForever]
      generalize e.runUntilStall poll w = pass at hpass hk
      obtain ⟨alive, e₁, w₁, log₁⟩ := pass
      by_cases hzero : alive = 0
      · simp only [hzero, if_true]
        exact ⟨_, rfl⟩
      · obtain ⟨⟨e₂, w₂, log₂⟩, hrest⟩ := ih (Awaiting.yield hq hpass alive) hk
        simp only [hzero, if_false, hrest]
        exact ⟨_, rfl⟩

end

end Slope.Executor.OuroborosExecutor
