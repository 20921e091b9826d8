import Slope.Executor.Account

/-!
# `Executor.Passes` — what every sequence of calls keeps

The account of `Executor.Account`, read off along whole runs of spawns, passes and wakes: the counter is the
number of live tasks, nothing is left running, no wake is lost, a finished task is never polled again, and
`run_forever` returns only to an empty arena.
-/

namespace Slope.Executor

/-! ## Polls meet live tasks -/

/-- Every poll in the record begins on a live task. -/
def PollsLive (v : Fin maxTasks → TaskView) : List TaskEvent → Prop
  | [] => True
  | ev :: rest => (∀ i, ev = .began i → (v i).live = true) ∧ PollsLive (observe v ev) rest

theorem pollsLive_append {v : Fin maxTasks → TaskView} {log rest : List TaskEvent} :
    PollsLive v (log ++ rest) ↔ PollsLive v log ∧ PollsLive (log.foldl observe v) rest := by
  induction log generalizing v with
  | nil => simp [PollsLive]
  | cons ev log ih =>
      rw [List.cons_append, PollsLive, PollsLive, ih, List.foldl_cons, and_assoc]

/-- A stretch of the record without polls. -/
theorem pollsLive_of_quiet {v : Fin maxTasks → TaskView} {log : List TaskEvent}
    (h : ∀ i, TaskEvent.began i ∉ log) : PollsLive v log := by
  induction log generalizing v with
  | nil => trivial
  | cons ev log ih =>
      refine ⟨?_, ?_⟩
      · rintro i rfl
        exact absurd (List.mem_cons_self ..) (h i)
      · exact ih fun i hi => h i (List.mem_cons_of_mem _ hi)

/-- A finished task is polled again only after its slot was spawned into again. -/
theorem PollsLive.respawned {v : Fin maxTasks → TaskView} {log between rest : List TaskEvent}
    {i : Fin maxTasks} (h : PollsLive v (log ++ .ended i true :: between ++ .began i :: rest)) :
    .spawned i ∈ between := by
  rw [pollsLive_append] at h
  have hlive := h.2.1 i rfl
  rw [List.foldl_append, List.foldl_cons] at hlive
  apply (live_or_spawned between hlive).resolve_left
  rw [observe_ended, if_pos rfl]
  simp

namespace OuroborosExecutor

variable {T σ : Type} {poll : T → Fin maxTasks → σ → PollOutcome σ} {v : Fin maxTasks → TaskView}
  {e : OuroborosExecutor T}

theorem Tracks.pollsLive_pollSlot {mask : U64} (h : Tracks v mask e) (b : Fin maxTasks) (w : σ) :
    PollsLive v (OuroborosExecutor.pollSlot poll e w b).2.2 := by
  by_cases hb : e.Pollable b
  · obtain ⟨wakes, ready, hlog, -⟩ := pollSlot_of_pollable poll hb w
    rw [hlog]
    refine ⟨?_, pollsLive_of_quiet (by simp)⟩
    rintro i hi
    obtain rfl := TaskEvent.began.inj hi
    exact (h.live b).mpr hb
  · rw [pollSlot_of_not_pollable hb w]
    trivial

theorem Tracks.pollsLive_pollLoop (fuel : Nat) {mask : U64} (h : Tracks v mask e) (w : σ) :
    PollsLive v (OuroborosExecutor.pollLoop poll fuel mask e w).2.2 := by
  induction fuel generalizing v mask e w with
  | zero => trivial
  | succ fuel ih =>
      by_cases hmask : mask = 0
      · subst hmask
        trivial
      · rw [pollLoop_succ poll hmask]
        exact pollsLive_append.mpr
          ⟨h.pollsLive_pollSlot (lowest mask) w, ih (h.pollSlot (lowest mask) w) _⟩

/-! ## Whole runs -/

abbrev ExecutorEvent (T σ : Type) := Event (OuroborosExecutor T) (Call T σ) (Answer × List TaskEvent)

/-- What happened to tasks, oldest first. -/
def record (h : List (ExecutorEvent T σ)) : List TaskEvent := h.flatMap fun e => e.result.2

theorem record_snoc (h : List (ExecutorEvent T σ)) (e : ExecutorEvent T σ) :
    record (h ++ [e]) = record h ++ e.result.2 := by
  unfold record
  rw [List.flatMap_append]
  simp

/-- A pass as a step. -/
theorem step_pass (poll : T → Fin maxTasks → σ → PollOutcome σ) (e : OuroborosExecutor T) (w : σ) :
    (step poll e (.runUntilStall w)).1.2 = (e.runUntilStall poll w).2.2.2 ∧
      (step poll e (.runUntilStall w)).2 = (e.runUntilStall poll w).2.1 := by
  simp only [step, and_self]

/-- **Invariant step.** -/
theorem Tracks.step (h : Tracks v 0 e) (poll : T → Fin maxTasks → σ → PollOutcome σ) (c : Call T σ) :
    Tracks ((OuroborosExecutor.step poll e c).1.2.foldl observe v) 0 (OuroborosExecutor.step poll e c).2 ∧
      PollsLive v (OuroborosExecutor.step poll e c).1.2 := by
  cases c with
  | spawn task =>
      refine ⟨h.spawn task, pollsLive_of_quiet fun i hi => ?_⟩
      change .began i ∈ (e.spawnRaw task).2.2 at hi
      unfold spawnRaw at hi
      cases hfind : e.findFreeSlot with
      | none => simp [hfind] at hi
      | some b => simp [hfind] at hi
  | runUntilStall w =>
      obtain ⟨hlog, hexec⟩ := step_pass poll e w
      rw [hlog, hexec]
      refine ⟨h.runUntilStall poll w, ?_⟩
      rw [(Prod.mk.inj (runUntilStall_eq poll e w)).2]
      exact h.swapped.pollsLive_pollLoop maxTasks w
  | wake j => exact ⟨h.wake j, pollsLive_of_quiet (by simp [OuroborosExecutor.step])⟩

theorem tracks_run {h : List (ExecutorEvent T σ)}
    (hr : Run (OuroborosExecutor.step poll) (fun _ _ => True) .new h e) :
    Tracks (view (record h)) 0 e ∧ PollsLive vacant (record h) := by
  refine hr.invariant (fun h e => Tracks (view (record h)) 0 e ∧ PollsLive vacant (record h))
    ⟨tracks_new, trivial⟩ ?_
  rintro h e c - - ⟨htrack, hlive⟩
  obtain ⟨htrack', hlive'⟩ := htrack.step poll c
  rw [record_snoc, view_append]
  exact ⟨htrack', pollsLive_append.mpr ⟨hlive, hlive'⟩⟩

/-! ## `run_forever` -/

/-- When `run_forever` returns, its last pass left no task alive. -/
theorem Tracks.runForever (h : Tracks v 0 e) (yieldRetrocausally : Nat → σ → σ) (fuel : Nat) (w : σ)
    {e' : OuroborosExecutor T} {w' : σ} {log : List TaskEvent}
    (hret : OuroborosExecutor.runForever poll yieldRetrocausally fuel e w = some (e', w', log)) :
    Tracks (log.foldl observe v) 0 e' ∧ e'.count = 0 := by
  induction fuel generalizing v e w log with
  | zero => cases hret
  | succ fuel ih =>
      have hpass := h.runUntilStall poll w
      have halive : (e.runUntilStall poll w).1 = (e.runUntilStall poll w).2.1.count := by
        unfold OuroborosExecutor.runUntilStall
        generalize OuroborosExecutor.pollLoop poll maxTasks e.readyMask { e with readyMask := 0 } w = pass
        rfl
      rw [OuroborosExecutor.runForever] at hret
      generalize e.runUntilStall poll w = pass at hpass halive hret
      obtain ⟨alive, e₁, w₁, log₁⟩ := pass
      by_cases hzero : alive = 0
      · simp only [hzero, if_true, Option.some.injEq, Prod.mk.injEq] at hret
        obtain ⟨rfl, -, rfl⟩ := hret
        exact ⟨hpass, halive.symm.trans hzero⟩
      · simp only [hzero, if_false] at hret
        cases hrest : OuroborosExecutor.runForever poll yieldRetrocausally fuel e₁
            (yieldRetrocausally alive w₁) with
        | none => simp [hrest] at hret
        | some r =>
            obtain ⟨e₂, w₂, log₂⟩ := r
            simp only [hrest, Option.some.injEq, Prod.mk.injEq] at hret
            obtain ⟨rfl, rfl, rfl⟩ := hret
            rw [List.foldl_append]
            exact ih hpass _ hrest

/-! ## The executor -/

/-- **No task is lost, miscounted or polled after it finished.** After any sequence of spawns, passes and
    wakes, whatever the tasks do when polled: the counter is the number of live tasks; a task not polled since
    its spawn has its ready bit set; nothing is left running; a spawn is refused exactly when all slots are
    live, and otherwise takes a slot without a live task and leaves the others alone; a slot whose task
    returned `Ready` is polled again only after it was spawned into; a live task woken since its latest poll
    began is polled in the next pass; and `run_forever` returns only when no task is live. -/
theorem executor_accounts {h : List (ExecutorEvent T σ)}
    (hr : Run (OuroborosExecutor.step poll) (fun _ _ => True) .new h e) :
    e.taskCount = liveCount (view (record h)) ∧
    (∀ i, (view (record h) i).live = true → (view (record h) i).polled = false →
      e.readyMask.getLsbD i = true) ∧
    (∀ i, (e.slots i).state ≠ .running) ∧
    (∀ task, (e.spawnRaw task).1 = .error .arenaFull ↔ liveCount (view (record h)) = maxTasks) ∧
    (∀ task i, (e.spawnRaw task).1 = .ok i → (view (record h) i).live = false ∧
      ∀ j, j ≠ i → (e.spawnRaw task).2.1.slots j = e.slots j) ∧
    (∀ i log between rest, record h = log ++ .ended i true :: between ++ .began i :: rest →
      .spawned i ∈ between) ∧
    (∀ w i, (view (record h) i).live = true → (view (record h) i).woken = true →
      .began i ∈ (e.runUntilStall poll w).2.2.2) ∧
    (∀ yieldRetrocausally fuel w e' w' log,
      runForever poll yieldRetrocausally fuel e w = some (e', w', log) →
        ∀ i, (view (record h ++ log) i).live = false) := by
  obtain ⟨ht, hpolls⟩ := tracks_run hr
  refine ⟨ht.count, ?_, ht.stopped, ?_, ?_, ?_, ?_, ?_⟩
  · intro i hli hpol
    rcases ht.due i hli (.inl hpol) with hbit | hbit
    · exact hbit
    · simp at hbit
  · intro task
    have hfull : e.findFreeSlot = none ↔ liveCount (view (record h)) = maxTasks := by
      rw [findFreeSlot_none ht.stopped, liveCount_eq_max]
      exact forall_congr' fun i => (ht.live i).symm
    rw [← hfull]
    unfold spawnRaw
    cases hfind : e.findFreeSlot with
    | none => simp
    | some b => simp
  · intro task i hok
    unfold spawnRaw at hok ⊢
    cases hfind : e.findFreeSlot with
    | none => simp [hfind] at hok
    | some b =>
        obtain rfl : b = i := by simpa [hfind] using hok
        have hdead := mt (ht.live b).mp (findFreeSlot_some hfind)
        exact ⟨by simpa using hdead, fun j hj => Function.update_of_ne hj ..⟩
  · intro i log between rest hsplit
    rw [hsplit] at hpolls
    exact hpolls.respawned
  · intro w i hli hwoken
    have hbit : e.readyMask.getLsbD i = true := by
      rcases ht.due i hli (.inr hwoken) with hbit | hbit
      · exact hbit
      · simp at hbit
    rw [(Prod.mk.inj (runUntilStall_eq poll e w)).2]
    exact began_mem_pollLoop maxTasks w (fuelled_max _) hbit ((ht.live i).mp hli)
  · intro yieldRetrocausally fuel w e' w' log hret i
    obtain ⟨ht', hzero⟩ := ht.runForever yieldRetrocausally fuel w hret
    rw [view_append]
    exact liveCount_eq_zero (ht'.count.symm.trans hzero) i

/-- The task of the executor's own test: it counts its polls, wakes itself, and finishes at the third. -/
def countFuture (_ : Unit) (slot : Fin maxTasks) (polls : Nat) : PollOutcome Nat :=
  if 2 ≤ polls then ⟨[], true, polls + 1⟩ else ⟨[slot], false, polls + 1⟩

def firstSlot : Fin maxTasks := ⟨0, by decide⟩

def countCalls : List (Call Unit Nat) := [.spawn (), .runUntilStall 0]

theorem executor_accounts_count :
    (view (record (trace (step countFuture) .new countCalls)) firstSlot).woken = true ∧
      .began firstSlot ∈ ((finalState (step countFuture) .new countCalls).runUntilStall countFuture 1).2.2.2 := by
  have hr := Run.replay (step countFuture) .new countCalls
  have hwoken : (view (record (trace (step countFuture) .new countCalls)) firstSlot).woken = true := by
    decide +kernel
  have hlive : (view (record (trace (step countFuture) .new countCalls)) firstSlot).live = true := by
    decide +kernel
  obtain ⟨-, -, -, -, -, -, hnext, -⟩ := executor_accounts hr
  exact ⟨hwoken, hnext 1 firstSlot hlive hwoken⟩

end OuroborosExecutor

end Slope.Executor
