import Slope.Executor.Passes

/-!
# `Executor.Liveness` — when `run_forever` returns

`Executor.Passes` says what holds if `run_forever` returns. Whether it does is up to the tasks. If each of them
wakes itself whenever it is not done, and has a bound on the polls it still needs that its own polls lower and
those of other tasks do not raise, then every pass polls every live task, and the loop returns after as many
passes as the largest bound. And if some live tasks are neither ready nor ever woken, by tasks or by anybody else, it
never does: a task cannot be lost quietly, but it can be waited for without end.
-/

namespace Slope.Executor.OuroborosExecutor

variable {T σ : Type} {poll : T → Fin maxTasks → σ → PollOutcome σ}

/-! ## One poll, in full -/

/-- What polling a slot does to everything that the loop reads again. -/
structure Polled (poll : T → Fin maxTasks → σ → PollOutcome σ) (e : OuroborosExecutor T) (w : σ) (b : Fin maxTasks)
    (out : PollOutcome σ) : Prop where
  world : (pollSlot poll e w b).2.1 = out.world
  log : (pollSlot poll e w b).2.2 = .began b :: out.wakes.map .woke ++ [.ended b out.done]
  task : ∀ i, ((pollSlot poll e w b).1.slots i).task = (e.slots i).task
  state : ∀ i, ((pollSlot poll e w b).1.slots i).state =
    if i = b then (if out.done then .done else .parked) else (e.slots i).state
  ready : ∀ i : Fin maxTasks, (pollSlot poll e w b).1.readyMask.getLsbD i
    = (e.readyMask.getLsbD i || decide (i ∈ out.wakes))

theorem polled_of_pollable {e : OuroborosExecutor T} {b : Fin maxTasks} (hb : e.Pollable b) {w : σ}
    {out : PollOutcome σ} (hout : outcome poll (e.slots b) b w = out) : Polled poll e w b out := by
  have hnot : ¬ ((e.slots b).state ≠ .ready ∧ (e.slots b).state ≠ .parked) := fun hn => hb.elim hn.1 hn.2
  obtain ⟨wakes, ready, world⟩ := out
  obtain ⟨hslots, -, hmask⟩ := foldl_wake (e.setState b .running) wakes
  have hslot : ∀ (state : SlotState) (i : Fin maxTasks),
      ((wakes.foldl wake (e.setState b .running)).setState b state).slots i
        = ⟨(e.slots i).task, if i = b then state else (e.slots i).state⟩ := by
    intro state i
    unfold setState at hslots ⊢
    simp only [hslots, Function.update_apply]
    by_cases hib : i = b
    · subst hib
      simp only [if_true]
    · simp only [if_neg hib]
  cases ready with
  | true =>
      constructor <;> unfold pollSlot <;> rw [if_neg hnot, hout]
      · exact fun i => (congrArg TaskSlot.task (hslot .done i) :)
      · exact fun i => (congrArg TaskSlot.state (hslot .done i) :)
      · exact hmask
  | false =>
      constructor <;> unfold pollSlot <;> rw [if_neg hnot, hout]
      · exact fun i => (congrArg TaskSlot.task (hslot .parked i) :)
      · exact fun i => (congrArg TaskSlot.state (hslot .parked i) :)
      · exact hmask

/-! ## Tasks that wake themselves -/

/-- **Diligent tasks**: one that is not done wakes itself and is nearer to its end, and no other task, and no
    yield, takes it further from there. -/
structure Diligent (poll : T → Fin maxTasks → σ → PollOutcome σ) (yieldRetrocausally : Nat → σ → σ)
    (work : T → Fin maxTasks → σ → Nat) : Prop where
  wakes : ∀ task i w, (poll task i w).done = false → i ∈ (poll task i w).wakes
  progress : ∀ task i w, (poll task i w).done = false → work task i (poll task i w).world < work task i w
  apart : ∀ task i w task' j, j ≠ i → work task' j (poll task i w).world ≤ work task' j w
  idle : ∀ alive w task i, work task i (yieldRetrocausally alive w) ≤ work task i w

variable {yieldRetrocausally : Nat → σ → σ} {work : T → Fin maxTasks → σ → Nat}

/-- The polls that the task of a slot still needs, but one. -/
def slotWork (work : T → Fin maxTasks → σ → Nat) (e : OuroborosExecutor T) (i : Fin maxTasks) (w : σ) : Nat :=
  match (e.slots i).task with
  | none => 0
  | some task => work task i w

theorem slotWork_congr {e e' : OuroborosExecutor T} {i : Fin maxTasks} (htask : (e'.slots i).task = (e.slots i).task)
    (w : σ) : slotWork work e' i w = slotWork work e i w := by
  unfold slotWork
  rw [htask]

theorem Diligent.yield_le (hd : Diligent poll yieldRetrocausally work) (e : OuroborosExecutor T) (i : Fin maxTasks)
    (alive : Nat) (w : σ) : slotWork work e i (yieldRetrocausally alive w) ≤ slotWork work e i w := by
  unfold slotWork
  cases (e.slots i).task with
  | none => exact Nat.le_refl _
  | some task => exact hd.idle alive w task i

/-- The task that was polled: it is done, or it has woken itself and needs fewer polls. -/
theorem Diligent.polled_self (hd : Diligent poll yieldRetrocausally work) {e : OuroborosExecutor T} {b : Fin maxTasks}
    {w : σ} (hnot : (outcome poll (e.slots b) b w).done = false) :
    b ∈ (outcome poll (e.slots b) b w).wakes ∧
      slotWork work e b (outcome poll (e.slots b) b w).world < slotWork work e b w := by
  unfold outcome slotWork at *
  cases htask : (e.slots b).task with
  | none => simp [htask] at hnot
  | some task =>
      simp only [htask] at hnot ⊢
      exact ⟨hd.wakes task b w hnot, hd.progress task b w hnot⟩

/-- The others do not need more than before. -/
theorem Diligent.polled_other (hd : Diligent poll yieldRetrocausally work) {e : OuroborosExecutor T}
    {b i : Fin maxTasks} (hib : i ≠ b) (w : σ) :
    slotWork work e i (outcome poll (e.slots b) b w).world ≤ slotWork work e i w := by
  unfold outcome slotWork
  cases (e.slots b).task with
  | none => exact Nat.le_refl _
  | some task =>
      cases (e.slots i).task with
      | none => exact Nat.le_refl _
      | some task' => exact hd.apart task b w task' i hib

/-! ### One pass -/

/-- **In the middle of a pass** that started with the bounds `bound`: a live task is still to be polled, or it is
    due in the next pass and needs fewer polls than its bound. -/
def Advanced (work : T → Fin maxTasks → σ → Nat) (bound : Fin maxTasks → Nat) (mask : U64) (e : OuroborosExecutor T)
    (w : σ) : Prop :=
  ∀ i : Fin maxTasks, e.Pollable i →
    (mask.getLsbD i = true ∧ slotWork work e i w ≤ bound i) ∨
      (e.readyMask.getLsbD i = true ∧ slotWork work e i w < bound i)

variable {bound : Fin maxTasks → Nat} {e : OuroborosExecutor T} {w : σ}

theorem Advanced.pollSlot (hd : Diligent poll yieldRetrocausally work) {mask : U64} (h : Advanced work bound mask e w)
    (b : Fin maxTasks) :
    Advanced work bound (mask &&& ~~~bitMask b) (pollSlot poll e w b).1 (pollSlot poll e w b).2.1 := by
  have hmask : ∀ i : Fin maxTasks, i ≠ b → (mask &&& ~~~bitMask b).getLsbD i = mask.getLsbD i := by
    intro i hib
    have hval : i.val ≠ b.val := fun hv => hib (Fin.ext hv)
    rw [getLsbD_clear _ i.isLt, decide_eq_true hval, Bool.and_true]
  intro i hi
  by_cases hb : e.Pollable b
  · have hpolled := polled_of_pollable hb (rfl : outcome poll (e.slots b) b w = _)
    rw [hpolled.world, hpolled.ready, slotWork_congr (hpolled.task i)]
    unfold Pollable at hi
    rw [hpolled.state i] at hi
    by_cases hib : i = b
    · -- the task of this slot was polled, and is live after it
      subst hib
      have hnot : (outcome poll (e.slots i) i w).done = false := by
        cases hdone : (outcome poll (e.slots i) i w).done with
        | false => rfl
        | true => simp [hdone] at hi
      obtain ⟨hwake, hless⟩ := hd.polled_self hnot
      refine .inr ⟨by simp [hwake], ?_⟩
      rcases h i hb with ⟨-, hle⟩ | ⟨-, hlt⟩
      · omega
      · omega
    · rw [if_neg hib] at hi
      have hle := hd.polled_other hib w (e := e)
      rw [hmask i hib]
      rcases h i hi with ⟨hbit, hbound⟩ | ⟨hbit, hbound⟩
      · exact .inl ⟨hbit, by omega⟩
      · exact .inr ⟨by rw [hbit, Bool.true_or], by omega⟩
  · rw [pollSlot_of_not_pollable hb] at hi ⊢
    have hib : i ≠ b := by
      rintro rfl
      exact hb hi
    rw [hmask i hib]
    exact h i hi

theorem Advanced.pollLoop (hd : Diligent poll yieldRetrocausally work) (fuel : Nat) {mask : U64}
    (h : Advanced work bound mask e w) (hf : Fuelled fuel mask) :
    Advanced work bound 0 (pollLoop poll fuel mask e w).1 (pollLoop poll fuel mask e w).2.1 := by
  induction fuel generalizing mask e w with
  | zero =>
      obtain rfl := hf.eq_zero
      exact h
  | succ fuel ih =>
      by_cases hmask : mask = 0
      · subst hmask
        exact h
      · rw [pollLoop_succ poll hmask]
        exact ih (h.pollSlot hd (lowest mask)) (hf.next hmask)

/-- One poll at most, of the slot that is visited. -/
theorem count_began_pollSlot (poll : T → Fin maxTasks → σ → PollOutcome σ) (e : OuroborosExecutor T) (w : σ)
    (b i : Fin maxTasks) :
    (OuroborosExecutor.pollSlot poll e w b).2.2.count (.began i) ≤ (if i = b then 1 else 0) ∧
      (¬ e.Pollable i → (OuroborosExecutor.pollSlot poll e w b).2.2.count (.began i) = 0 ∧
        ¬ (OuroborosExecutor.pollSlot poll e w b).1.Pollable i) := by
  by_cases hb : e.Pollable b
  · have hpolled := polled_of_pollable hb (rfl : outcome poll (e.slots b) b w = _)
    have hcount : (OuroborosExecutor.pollSlot poll e w b).2.2.count (.began i) = if i = b then 1 else 0 := by
      have hwoke : ((outcome poll (e.slots b) b w).wakes.map TaskEvent.woke).count (.began i) = 0 :=
        List.count_eq_zero.mpr (by simp)
      rw [hpolled.log, List.count_append, List.count_cons, hwoke]
      by_cases hib : i = b
      · simp [hib]
      · simp [hib, Ne.symm hib]
    refine ⟨Nat.le_of_eq hcount, fun hi => ?_⟩
    have hib : i ≠ b := by
      rintro rfl
      exact hi hb
    refine ⟨by rw [hcount, if_neg hib], ?_⟩
    unfold Pollable
    rw [hpolled.state i, if_neg hib]
    exact hi
  · rw [pollSlot_of_not_pollable hb]
    exact ⟨Nat.zero_le _, fun hi => ⟨rfl, hi⟩⟩

/-- **A pass polls a slot once at most**, and not if it holds no live task. -/
theorem count_began_pollLoop (poll : T → Fin maxTasks → σ → PollOutcome σ) (fuel : Nat) (mask : U64)
    (e : OuroborosExecutor T) (w : σ) (i : Fin maxTasks) :
    (OuroborosExecutor.pollLoop poll fuel mask e w).2.2.count (.began i) ≤ (if mask.getLsbD i = true then 1 else 0) ∧
      (¬ e.Pollable i → (OuroborosExecutor.pollLoop poll fuel mask e w).2.2.count (.began i) = 0 ∧
        ¬ (OuroborosExecutor.pollLoop poll fuel mask e w).1.Pollable i) := by
  induction fuel generalizing mask e w with
  | zero => exact ⟨Nat.zero_le _, fun hi => ⟨rfl, hi⟩⟩
  | succ fuel ih =>
      by_cases hmask : mask = 0
      · subst hmask
        exact ⟨Nat.zero_le _, fun hi => ⟨rfl, hi⟩⟩
      · rw [pollLoop_succ poll hmask]
        obtain ⟨hround, hdead⟩ := count_began_pollSlot poll e w (lowest mask) i
        generalize OuroborosExecutor.pollSlot poll e w (lowest mask) = round at hround hdead
        obtain ⟨hrest, hrestDead⟩ := ih (mask &&& ~~~bitMask (lowest mask)) round.1 round.2.1
        simp only [List.count_append]
        refine ⟨?_, fun hi => ?_⟩
        · by_cases hlow : i = lowest mask
          · have hbit : mask.getLsbD i = true := by
              rw [hlow, lowest_val hmask]
              exact BitVec.getLsbD_true_ctz_of_ne_zero hmask
            have hclear : (mask &&& ~~~bitMask (lowest mask)).getLsbD i = false := by
              rw [getLsbD_clear _ i.isLt, hlow]
              simp
            rw [hclear] at hrest
            rw [if_pos hlow] at hround
            rw [if_pos hbit]
            simp only [Bool.false_eq_true, if_false] at hrest
            omega
          · have hval : i.val ≠ (lowest mask).val := fun hv => hlow (Fin.ext hv)
            rw [getLsbD_clear _ i.isLt, decide_eq_true hval, Bool.and_true] at hrest
            rw [if_neg hlow] at hround
            omega
        · obtain ⟨hzero, hdead'⟩ := hdead hi
          obtain ⟨hzero', hdead''⟩ := hrestDead hdead'
          exact ⟨by omega, hdead''⟩

/-! ### `run_forever` -/

/-- Every live task is due in the next pass. -/
def AllDue (e : OuroborosExecutor T) : Prop := ∀ i : Fin maxTasks, e.Pollable i → e.readyMask.getLsbD i = true

/-- A pass over diligent tasks: who is live after it is due again, and needs fewer polls. -/
theorem Diligent.pass (hd : Diligent poll yieldRetrocausally work) (hdue : e.AllDue) (w : σ) :
    ∀ i : Fin maxTasks, (e.runUntilStall poll w).2.1.Pollable i →
      (e.runUntilStall poll w).2.1.readyMask.getLsbD i = true ∧
        slotWork work (e.runUntilStall poll w).2.1 i (e.runUntilStall poll w).2.2.1 < slotWork work e i w := by
  have hstart : Advanced work (fun i => slotWork work e i w) e.readyMask { e with readyMask := 0 } w :=
    fun i hi => .inl ⟨hdue i hi, Nat.le_refl _⟩
  have hend := hstart.pollLoop hd maxTasks (fuelled_max _)
  intro i
  unfold runUntilStall
  generalize OuroborosExecutor.pollLoop poll maxTasks e.readyMask { e with readyMask := 0 } w = pass at hend
  intro hi
  rcases hend i hi with ⟨hbit, -⟩ | hready
  · simp at hbit
  · exact hready

theorem count_began_pass (poll : T → Fin maxTasks → σ → PollOutcome σ) (e : OuroborosExecutor T) (w : σ)
    (i : Fin maxTasks) :
    (e.runUntilStall poll w).2.2.2.count (.began i) ≤ 1 ∧
      (¬ e.Pollable i → (e.runUntilStall poll w).2.2.2.count (.began i) = 0 ∧
        ¬ (e.runUntilStall poll w).2.1.Pollable i) := by
  have hcount := count_began_pollLoop poll maxTasks e.readyMask { e with readyMask := 0 } w i
  unfold runUntilStall
  generalize OuroborosExecutor.pollLoop poll maxTasks e.readyMask { e with readyMask := 0 } w = pass at hcount
  refine ⟨hcount.1.trans ?_, hcount.2⟩
  split <;> omega

theorem runUntilStall_alive (poll : T → Fin maxTasks → σ → PollOutcome σ) (e : OuroborosExecutor T) (w : σ) :
    (e.runUntilStall poll w).1 = (e.runUntilStall poll w).2.1.count := by
  unfold runUntilStall
  generalize OuroborosExecutor.pollLoop poll maxTasks e.readyMask { e with readyMask := 0 } w = pass
  rfl

/-- A counter above zero counts somebody. -/
theorem Tracks.exists_pollable {v : Fin maxTasks → TaskView} (h : Tracks v 0 e) (hcount : e.count ≠ 0) :
    ∃ i, e.Pollable i := by
  rw [h.count] at hcount
  obtain ⟨i, hi⟩ := Finset.card_ne_zero.mp hcount
  rw [Finset.mem_filter] at hi
  exact ⟨i, (h.live i).mp hi.2⟩

/-- The loop on diligent tasks, from any state in which the live ones are due. -/
theorem Diligent.returns (hd : Diligent poll yieldRetrocausally work) {v : Fin maxTasks → TaskView} (h : Tracks v 0 e)
    (hdue : e.AllDue) {n : Nat} (hbound : ∀ i, e.Pollable i → slotWork work e i w ≤ n) :
    ∃ e' w' log, runForever poll yieldRetrocausally (n + 1) e w = some (e', w', log) ∧
      ∀ i, log.count (.began i) ≤ slotWork work e i w + 1 ∧ (¬ e.Pollable i → log.count (.began i) = 0) := by
  induction n using Nat.strongRecOn generalizing v e w with
  | ind n ih =>
      have hpass := h.runUntilStall poll w
      have halive := runUntilStall_alive poll e w
      have hless := hd.pass hdue w
      have hcount := count_began_pass poll e w
      rw [runForever]
      generalize e.runUntilStall poll w = pass at hpass halive hless hcount
      obtain ⟨alive, e₁, w₁, log₁⟩ := pass
      have hold : ∀ i, e₁.Pollable i → e.Pollable i := fun i hi => by
        by_contra hnot
        exact ((hcount i).2 hnot).2 hi
      by_cases hzero : alive = 0
      · refine ⟨e₁, w₁, log₁, by simp only [hzero, if_true], fun i => ⟨?_, fun hi => ((hcount i).2 hi).1⟩⟩
        exact (hcount i).1.trans (Nat.le_add_left ..)
      · have hlower : ∀ i, e₁.Pollable i → slotWork work e₁ i (yieldRetrocausally alive w₁) < slotWork work e i w :=
          fun i hi => Nat.lt_of_le_of_lt (hd.yield_le e₁ i alive w₁) (hless i hi).2
        -- somebody is left, who needed another poll
        obtain ⟨j, hj⟩ := hpass.exists_pollable (fun hc => hzero (halive.trans hc))
        obtain ⟨m, rfl⟩ : ∃ m, n = m + 1 := by
          have hlt := hlower j hj
          have hle := hbound j (hold j hj)
          exact ⟨n - 1, by omega⟩
        have hbound₁ : ∀ i, e₁.Pollable i → slotWork work e₁ i (yieldRetrocausally alive w₁) ≤ m := by
          intro i hi
          have hlt := hlower i hi
          have hle := hbound i (hold i hi)
          omega
        obtain ⟨e₂, w₂, log₂, hrest, hcount₂⟩ := ih m (Nat.lt_succ_self m) hpass (fun i hi => (hless i hi).1) hbound₁
        refine ⟨e₂, w₂, log₁ ++ log₂, by simp only [hzero, if_false, hrest], fun i => ?_⟩
        obtain ⟨hrun, hidle⟩ := hcount₂ i
        have hfirst : log₁.count (.began i) ≤ 1 := (hcount i).1
        have hrun : log₂.count (.began i) ≤ slotWork work e₁ i (yieldRetrocausally alive w₁) + 1 := hrun
        rw [List.count_append]
        refine ⟨?_, fun hi => ?_⟩
        · by_cases hi : e₁.Pollable i
          · have hlt := hlower i hi
            omega
          · have hnone := hidle hi
            omega
        · obtain ⟨hnone, hdead⟩ := (hcount i).2 hi
          have hnone : log₁.count (.began i) = 0 := hnone
          have hsecond := hidle hdead
          omega

/-- **`run_forever` returns.** After any sequence of spawns, passes and wakes after which each live task is due
    (it was not polled since its spawn, or was woken since its latest poll began), if the tasks are diligent and
    each live one needs at most `n + 1` polls, then `run_forever` returns after `n + 1` passes at most. No task is
    live then, and each task that was live was polled no more often than it needed, the others not at all.

    As everywhere here a waker is assumed to name the slot it was made for; `hdue` rests on this where the wake came
    through a clone that a task had kept. -/
theorem run_forever_returns (hd : Diligent poll yieldRetrocausally work) {h : List (ExecutorEvent T σ)}
    (hr : Run (OuroborosExecutor.step poll) (fun _ _ => True) .new h e)
    (hdue : ∀ i, (view (record h) i).live = true →
      (view (record h) i).polled = false ∨ (view (record h) i).woken = true)
    {n : Nat} (hbound : ∀ i, (view (record h) i).live = true → slotWork work e i w ≤ n) :
    ∃ e' w' log, runForever poll yieldRetrocausally (n + 1) e w = some (e', w', log) ∧
      (∀ i, (view (record h ++ log) i).live = false) ∧
      (∀ i, log.count (.began i) ≤ slotWork work e i w + 1) ∧
      ∀ i, (view (record h) i).live = false → log.count (.began i) = 0 := by
  obtain ⟨htrack, -⟩ := tracks_run hr
  have hall : e.AllDue := by
    intro i hi
    have hlive := (htrack.live i).mpr hi
    rcases htrack.due i hlive (hdue i hlive) with hbit | hbit
    · exact hbit
    · simp at hbit
  obtain ⟨e', w', log, hret, hcount⟩ :=
    hd.returns htrack hall fun i hi => hbound i ((htrack.live i).mpr hi)
  obtain ⟨htrack', hzero⟩ := htrack.runForever yieldRetrocausally (n + 1) w hret
  refine ⟨e', w', log, hret, fun i => ?_, fun i => (hcount i).1, fun i hdead => (hcount i).2 fun hi => ?_⟩
  · rw [view_append]
    exact liveCount_eq_zero (htrack'.count.symm.trans hzero) i
  · rw [(htrack.live i).mpr hi] at hdead
    cases hdead

/-- Tasks as in `countFuture`, each with a counter of its own: `steps` polls, the last of which is `Ready`. -/
def countFutures (steps : Nat) (slot : Fin maxTasks) (polls : Fin maxTasks → Nat) :
    PollOutcome (Fin maxTasks → Nat) :=
  if steps ≤ polls slot + 1 then ⟨[], true, Function.update polls slot (polls slot + 1)⟩
  else ⟨[slot], false, Function.update polls slot (polls slot + 1)⟩

theorem countFutures_diligent :
    Diligent countFutures (fun _ polls => polls) (fun steps slot polls => steps - (polls slot + 1)) where
  wakes := by
    intro steps slot polls hdone
    unfold countFutures at hdone ⊢
    split at hdone
    · cases hdone
    next hlt =>
      rw [if_neg hlt]
      exact List.mem_singleton_self _
  progress := by
    intro steps slot polls hdone
    unfold countFutures at hdone ⊢
    split at hdone
    · cases hdone
    next hlt =>
      rw [if_neg hlt]
      simp only [Function.update_self]
      omega
  apart := by
    intro steps slot polls steps' other hne
    have hother : (countFutures steps slot polls).world other = polls other := by
      unfold countFutures
      split <;> exact Function.update_of_ne hne ..
    rw [hother]
  idle := fun _ _ _ _ => Nat.le_refl _

/-- Three tasks of five, three and one polls: five passes. -/
theorem run_forever_returns_counts :
    ∃ e' polls log, runForever countFutures (fun _ polls => polls) 5
        (finalState (step countFutures) .new [.spawn 5, .spawn 3, .spawn 1]) (fun _ => 0) = some (e', polls, log) ∧
      log.count (.began firstSlot) ≤ 5 := by
  have hr := Run.replay (step countFutures) (.new : OuroborosExecutor Nat) [.spawn 5, .spawn 3, .spawn 1]
  have hpolled : ∀ i,
      (view (record (trace (step countFutures) .new [.spawn 5, .spawn 3, .spawn 1])) i).polled = false := by
    decide +kernel
  have hwork : ∀ i, slotWork (fun steps slot polls => steps - (polls slot + 1))
      (finalState (step countFutures) .new [.spawn 5, .spawn 3, .spawn 1]) i (fun _ => 0) ≤ 4 := by
    decide +kernel
  obtain ⟨e', polls, log, hret, -, hcount, -⟩ :=
    run_forever_returns countFutures_diligent hr (fun i _ => .inl (hpolled i)) fun i _ => hwork i
  exact ⟨e', polls, log, hret, (hcount firstSlot).trans (Nat.succ_le_succ (hwork firstSlot))⟩

/-! ## Tasks that nobody wakes -/

/-- **The slots in `asleep` are out of reach**: none is ready or still to be visited, and no task outside wakes
    one. -/
structure Asleep (poll : T → Fin maxTasks → σ → PollOutcome σ) (asleep : Fin maxTasks → Prop) (mask : U64)
    (e : OuroborosExecutor T) : Prop where
  ready : ∀ j : Fin maxTasks, asleep j → e.readyMask.getLsbD j = false
  pending : ∀ j : Fin maxTasks, asleep j → mask.getLsbD j = false
  quiet : ∀ j task, ¬ asleep j → (e.slots j).task = some task → ∀ w k, k ∈ (poll task j w).wakes → ¬ asleep k

variable {asleep : Fin maxTasks → Prop}

theorem Asleep.pollSlot {mask : U64} (h : Asleep poll asleep mask e) {b : Fin maxTasks} (hbit : mask.getLsbD b = true)
    (w : σ) :
    Asleep poll asleep (mask &&& ~~~bitMask b) (pollSlot poll e w b).1 ∧
      ∀ i, asleep i → e.Pollable i → (OuroborosExecutor.pollSlot poll e w b).1.Pollable i := by
  have hawake : ¬ asleep b := fun hb => by
    rw [h.pending b hb] at hbit
    cases hbit
  have hpending : ∀ j : Fin maxTasks, asleep j → (mask &&& ~~~bitMask b).getLsbD j = false := by
    intro j hj
    rw [getLsbD_clear _ j.isLt, h.pending j hj, Bool.false_and]
  by_cases hb : e.Pollable b
  · have hpolled := polled_of_pollable hb (rfl : outcome poll (e.slots b) b w = _)
    have hwakes : ∀ k, k ∈ (outcome poll (e.slots b) b w).wakes → ¬ asleep k := by
      intro k hk
      unfold outcome at hk
      cases htask : (e.slots b).task with
      | none => simp [htask] at hk
      | some task =>
          rw [htask] at hk
          exact h.quiet b task hawake htask w k hk
    refine ⟨⟨fun j hj => ?_, hpending, fun j task hj htask => ?_⟩, fun i hi hpoll => ?_⟩
    · have hnot : j ∉ (outcome poll (e.slots b) b w).wakes := fun hk => hwakes j hk hj
      rw [hpolled.ready j, h.ready j hj, decide_eq_false hnot, Bool.or_false]
    · rw [hpolled.task j] at htask
      exact h.quiet j task hj htask
    · have hib : i ≠ b := by
        rintro rfl
        exact hawake hi
      unfold Pollable
      rw [hpolled.state i, if_neg hib]
      exact hpoll
  · rw [pollSlot_of_not_pollable hb]
    exact ⟨⟨h.ready, hpending, h.quiet⟩, fun i _ hpoll => hpoll⟩

theorem Asleep.pollLoop (fuel : Nat) {mask : U64} (h : Asleep poll asleep mask e) (hf : Fuelled fuel mask) (w : σ) :
    Asleep poll asleep 0 (pollLoop poll fuel mask e w).1 ∧
      ∀ i, asleep i → e.Pollable i → (OuroborosExecutor.pollLoop poll fuel mask e w).1.Pollable i := by
  induction fuel generalizing mask e w with
  | zero =>
      obtain rfl := hf.eq_zero
      exact ⟨h, fun i _ hpoll => hpoll⟩
  | succ fuel ih =>
      by_cases hmask : mask = 0
      · subst hmask
        exact ⟨h, fun i _ hpoll => hpoll⟩
      · have hbit : mask.getLsbD (lowest mask) = true := by
          rw [lowest_val hmask]
          exact BitVec.getLsbD_true_ctz_of_ne_zero hmask
        rw [pollLoop_succ poll hmask]
        obtain ⟨hround, hkept⟩ := h.pollSlot hbit w
        obtain ⟨hrest, hkept'⟩ := ih hround (hf.next hmask) _
        exact ⟨hrest, fun i hi hpoll => hkept' i hi (hkept i hi hpoll)⟩

/-- A pass does not reach them. -/
theorem Asleep.pass (h : Asleep poll asleep 0 e) (w : σ) :
    Asleep poll asleep 0 (e.runUntilStall poll w).2.1 ∧
      ∀ i, asleep i → e.Pollable i → (e.runUntilStall poll w).2.1.Pollable i := by
  have hstart : Asleep poll asleep e.readyMask { e with readyMask := 0 } :=
    ⟨fun j _ => BitVec.getLsbD_zero, h.ready, h.quiet⟩
  rw [(Prod.mk.inj (runUntilStall_eq poll e w)).1]
  exact hstart.pollLoop maxTasks (fuelled_max _) w

/-- **`run_forever` waits without end** for a task that nobody wakes. After any sequence of spawns, passes and
    wakes: if some slots, of which one holds a live task, have no ready bit, and no task outside of them ever wakes
    one of them, then `run_forever` does not return, whatever becomes of the world between the passes.

    Nobody else wakes one of them either: while `runForever` runs, wakers are fired by tasks in their polls only, and
    a waker is assumed to name the slot it was made for. -/
theorem run_forever_spins (asleep : Fin maxTasks → Prop) {h : List (ExecutorEvent T σ)}
    (hr : Run (OuroborosExecutor.step poll) (fun _ _ => True) .new h e) (yieldRetrocausally : Nat → σ → σ)
    (hparked : ∀ j : Fin maxTasks, asleep j → e.readyMask.getLsbD j = false)
    (hquiet : ∀ j task, ¬ asleep j → (e.slots j).task = some task → ∀ w k, k ∈ (poll task j w).wakes → ¬ asleep k)
    {i : Fin maxTasks} (hi : asleep i) (hlive : (view (record h) i).live = true) (fuel : Nat) (w : σ) :
    runForever poll yieldRetrocausally fuel e w = none := by
  obtain ⟨htrack, -⟩ := tracks_run hr
  have hpoll := (htrack.live i).mp hlive
  have hasleep : Asleep poll asleep 0 e := ⟨hparked, fun j _ => BitVec.getLsbD_zero, hquiet⟩
  generalize view (record h) = v at htrack
  clear hr hparked hquiet hlive
  induction fuel generalizing v e w with
  | zero => rfl
  | succ fuel ih =>
      have hpass := htrack.runUntilStall poll w
      have halive := runUntilStall_alive poll e w
      obtain ⟨hasleep₁, hkept⟩ := hasleep.pass w
      have hpoll₁ := hkept i hi hpoll
      rw [runForever]
      generalize e.runUntilStall poll w = pass at hpass halive hasleep₁ hpoll₁
      obtain ⟨alive, e₁, w₁, log₁⟩ := pass
      have hne : alive ≠ 0 := by
        intro hzero
        have hcount := liveCount_eq_zero (hpass.count.symm.trans (halive.symm.trans hzero)) i
        rw [(hpass.live i).mpr hpoll₁] at hcount
        cases hcount
      simp only [hne, if_false, ih _ hpoll₁ hasleep₁ _ hpass]

/-- A task that returns `Pending` and has nobody to wake it. -/
def lostFuture (_ : Unit) (_ : Fin maxTasks) (world : Unit) : PollOutcome Unit := ⟨[], false, world⟩

theorem run_forever_spins_lost :
    runForever lostFuture (fun _ world => world) 1000
      (finalState (step lostFuture) .new [.spawn (), .runUntilStall ()]) () = none := by
  have hr := Run.replay (step lostFuture) (.new : OuroborosExecutor Unit) [.spawn (), .runUntilStall ()]
  have hlive :
      (view (record (trace (step lostFuture) .new [.spawn (), .runUntilStall ()])) firstSlot).live = true := by
    decide +kernel
  have hparked : ∀ j : Fin maxTasks,
      (finalState (step lostFuture) .new [.spawn (), .runUntilStall ()]).readyMask.getLsbD j = false := by
    decide +kernel
  exact run_forever_spins (fun _ => True) hr _ (fun j _ => hparked j) (fun j task hj => absurd trivial hj)
    trivial hlive 1000 ()

end Slope.Executor.OuroborosExecutor
