import Mathlib.Data.Fintype.Card
import Slope.Executor.Ouroboros

/-!
# `Executor.Account` — the executor's bookkeeping against the record of its tasks

`view log` replays the record of task events: which slots hold a live task (spawned, and no poll of it has
returned `Ready`), which live tasks have been polled, and which were woken since their latest poll began.
`Tracks v pending e` says that slot states, ready mask and counter of `e` agree with the view `v`, where
`pending` are the bits a pass has taken out of the mask and not visited yet. It holds with no bits pending
between public calls; one round of the poll loop moves one bit.
-/

namespace Slope.Executor

/-! ## What the record says -/

/-- What the record says about the task of a slot. -/
structure TaskView where
  live : Bool
  polled : Bool
  woken : Bool

def observe (v : Fin maxTasks → TaskView) : TaskEvent → Fin maxTasks → TaskView
  | .spawned i => Function.update v i ⟨true, false, false⟩
  | .began i => Function.update v i { v i with polled := true, woken := false }
  | .woke i => Function.update v i { v i with woken := true }
  | .ended i ready => Function.update v i { v i with live := (v i).live && !ready }

section

variable (v : Fin maxTasks → TaskView) (i j : Fin maxTasks)

theorem observe_spawned : observe v (.spawned j) i = if i = j then ⟨true, false, false⟩ else v i :=
  Function.update_apply ..

theorem observe_began :
    observe v (.began j) i = if i = j then { v j with polled := true, woken := false } else v i :=
  Function.update_apply ..

theorem observe_woke : observe v (.woke j) i = if i = j then { v j with woken := true } else v i :=
  Function.update_apply ..

theorem observe_ended (ready : Bool) :
    observe v (.ended j ready) i = if i = j then { v j with live := (v j).live && !ready } else v i :=
  Function.update_apply ..

end

/-- No slot holds a task. -/
def vacant : Fin maxTasks → TaskView := fun _ => ⟨false, false, false⟩

def view (log : List TaskEvent) : Fin maxTasks → TaskView := log.foldl observe vacant

/-- The number of slots that hold a live task. -/
def liveCount (v : Fin maxTasks → TaskView) : Nat := (Finset.univ.filter fun i => (v i).live = true).card

theorem view_append (log rest : List TaskEvent) : view (log ++ rest) = rest.foldl observe (view log) :=
  List.foldl_append

theorem liveCount_congr {v v' : Fin maxTasks → TaskView} (h : ∀ i, (v' i).live = (v i).live) :
    liveCount v' = liveCount v := by
  unfold liveCount
  congr 1
  ext i
  simp [h i]

/-- One slot more. -/
theorem liveCount_succ {v v' : Fin maxTasks → TaskView} {b : Fin maxTasks}
    (hother : ∀ i, i ≠ b → (v' i).live = (v i).live) (hb : (v b).live = false) (hb' : (v' b).live = true) :
    liveCount v' = liveCount v + 1 := by
  unfold liveCount
  have hinsert : (Finset.univ.filter fun i => (v' i).live = true)
      = insert b (Finset.univ.filter fun i => (v i).live = true) := by
    ext i
    simp only [Finset.mem_filter, Finset.mem_univ, true_and, Finset.mem_insert]
    by_cases hi : i = b
    · subst hi
      simp [hb']
    · simp [hi, hother i hi]
  rw [hinsert, Finset.card_insert_of_notMem (by simp [hb])]

theorem liveCount_eq_zero {v : Fin maxTasks → TaskView} (h : liveCount v = 0) (i : Fin maxTasks) :
    (v i).live = false := by
  have hempty := Finset.filter_eq_empty_iff.mp (Finset.card_eq_zero.mp h) (Finset.mem_univ i)
  simpa using hempty

theorem liveCount_eq_max {v : Fin maxTasks → TaskView} :
    liveCount v = maxTasks ↔ ∀ i, (v i).live = true := by
  have hcard : (Finset.univ : Finset (Fin maxTasks)).card = maxTasks := Finset.card_fin maxTasks
  unfold liveCount
  constructor
  · intro h i
    have hall := (Finset.card_filter_eq_iff (p := fun i => (v i).live = true)).mp (h.trans hcard.symm)
    exact hall i (Finset.mem_univ i)
  · intro h
    rw [Finset.filter_true_of_mem fun i _ => h i, hcard]

/-- Only a spawn makes a slot live. -/
theorem live_observe {v : Fin maxTasks → TaskView} {ev : TaskEvent} {i : Fin maxTasks}
    (h : (observe v ev i).live = true) : (v i).live = true ∨ ev = .spawned i := by
  cases ev with
  | spawned j =>
      rw [observe_spawned] at h
      split at h
      · next hij => exact .inr (by rw [hij])
      · exact .inl h
  | began j =>
      rw [observe_began] at h
      split at h
      · next hij => exact .inl (by rw [hij]; exact h)
      · exact .inl h
  | woke j =>
      rw [observe_woke] at h
      split at h
      · next hij => exact .inl (by rw [hij]; exact h)
      · exact .inl h
  | ended j ready =>
      rw [observe_ended] at h
      split at h
      · next hij => exact .inl (by rw [hij]; exact (Bool.and_eq_true_iff.mp h).1)
      · exact .inl h

/-- A task that is live after a stretch of the record was live before it or was spawned in it. -/
theorem live_or_spawned {v : Fin maxTasks → TaskView} {i : Fin maxTasks} (log : List TaskEvent)
    (h : (log.foldl observe v i).live = true) : (v i).live = true ∨ .spawned i ∈ log := by
  induction log generalizing v with
  | nil => exact .inl h
  | cons ev log ih =>
      rcases ih h with hlive | hmem
      · rcases live_observe hlive with hold | rfl
        · exact .inl hold
        · exact .inr (List.mem_cons_self ..)
      · exact .inr (List.mem_cons_of_mem _ hmem)

theorem observe_wakes (v : Fin maxTasks → TaskView) (wakes : List (Fin maxTasks)) (i : Fin maxTasks) :
    (wakes.map .woke).foldl observe v i = { v i with woken := (v i).woken || decide (i ∈ wakes) } := by
  induction wakes generalizing v with
  | nil => simp
  | cons j wakes ih =>
      rw [List.map_cons, List.foldl_cons, ih, observe_woke]
      by_cases hij : i = j
      · subst hij
        simp
      · simp [hij]

/-- What one poll of slot `b` does to the view. -/
theorem observe_poll (v : Fin maxTasks → TaskView) (b : Fin maxTasks) (wakes : List (Fin maxTasks))
    (ready : Bool) (i : Fin maxTasks) :
    (TaskEvent.began b :: wakes.map TaskEvent.woke ++ [TaskEvent.ended b ready]).foldl observe v i =
      if i = b then ⟨(v b).live && !ready, true, decide (b ∈ wakes)⟩
      else { v i with woken := (v i).woken || decide (i ∈ wakes) } := by
  rw [List.foldl_append, List.foldl_cons, List.foldl_cons, List.foldl_nil, observe_ended, observe_wakes,
    observe_wakes, observe_began, observe_began]
  by_cases hib : i = b
  · subst hib
    simp
  · simp [hib]

/-- A poll that returns `Ready` takes a live task out of the count. -/
theorem liveCount_poll {v : Fin maxTasks → TaskView} {b : Fin maxTasks} (hlive : (v b).live = true)
    (wakes : List (Fin maxTasks)) (ready : Bool) :
    liveCount ((TaskEvent.began b :: wakes.map TaskEvent.woke ++ [TaskEvent.ended b ready]).foldl observe v)
      = if ready then liveCount v - 1 else liveCount v := by
  have hview := observe_poll v b wakes ready
  generalize (TaskEvent.began b :: wakes.map TaskEvent.woke ++ [TaskEvent.ended b ready]).foldl observe v
    = after at hview
  cases ready with
  | false =>
      refine liveCount_congr fun i => ?_
      rw [hview i]
      by_cases hib : i = b <;> simp [hib]
  | true =>
      have hsucc : liveCount v = liveCount after + 1 := by
        refine liveCount_succ (b := b) (fun i hib => ?_) ?_ hlive
        · rw [hview i, if_neg hib]
        · rw [hview b, if_pos rfl]
          simp
      rw [if_pos rfl, hsucc]
      rfl

/-! ## Bookkeeping -/

namespace OuroborosExecutor

variable {T σ : Type} {poll : T → Fin maxTasks → σ → PollOutcome σ}

/-- The states from which the poll loop polls a slot. -/
def Pollable (e : OuroborosExecutor T) (i : Fin maxTasks) : Prop :=
  (e.slots i).state = .ready ∨ (e.slots i).state = .parked

/-- **The executor agrees with the record**, with `pending` the bits of the current pass still to visit. -/
structure Tracks (v : Fin maxTasks → TaskView) (pending : U64) (e : OuroborosExecutor T) : Prop where
  live : ∀ i, (v i).live = true ↔ e.Pollable i
  stopped : ∀ i, (e.slots i).state ≠ .running
  due : ∀ i, (v i).live = true → (v i).polled = false ∨ (v i).woken = true →
    e.readyMask.getLsbD i = true ∨ pending.getLsbD i = true
  count : e.count = liveCount v

theorem getLsbD_wake (e : OuroborosExecutor T) (j i : Fin maxTasks) :
    (e.wake j).readyMask.getLsbD i = (e.readyMask.getLsbD i || decide (i = j)) := by
  unfold wake
  rw [getLsbD_set _ i.isLt]
  simp only [Fin.ext_iff]

theorem foldl_wake (e : OuroborosExecutor T) (wakes : List (Fin maxTasks)) :
    (wakes.foldl wake e).slots = e.slots ∧ (wakes.foldl wake e).count = e.count ∧
      ∀ i : Fin maxTasks,
        (wakes.foldl wake e).readyMask.getLsbD i = (e.readyMask.getLsbD i || decide (i ∈ wakes)) := by
  induction wakes generalizing e with
  | nil => exact ⟨rfl, rfl, by simp⟩
  | cons j wakes ih =>
      obtain ⟨hslots, hcount, hmask⟩ := ih (e.wake j)
      refine ⟨hslots, hcount, fun i => ?_⟩
      rw [List.foldl_cons, hmask i, getLsbD_wake]
      simp [Bool.or_assoc]

/-- What polling a pollable slot leaves. -/
theorem pollSlot_of_pollable (poll : T → Fin maxTasks → σ → PollOutcome σ) {e : OuroborosExecutor T}
    {b : Fin maxTasks} (hb : e.Pollable b) (w : σ) :
    ∃ (wakes : List (Fin maxTasks)) (ready : Bool),
      (pollSlot poll e w b).2.2 = TaskEvent.began b :: wakes.map TaskEvent.woke ++ [TaskEvent.ended b ready] ∧
      (∀ i, ((pollSlot poll e w b).1.slots i).state =
        if i = b then (if ready then .done else .parked) else (e.slots i).state) ∧
      (∀ i : Fin maxTasks, (pollSlot poll e w b).1.readyMask.getLsbD i
        = (e.readyMask.getLsbD i || decide (i ∈ wakes))) ∧
      (pollSlot poll e w b).1.count = if ready then e.count - 1 else e.count := by
  have hnot : ¬ ((e.slots b).state ≠ .ready ∧ (e.slots b).state ≠ .parked) :=
    fun hn => hb.elim hn.1 hn.2
  unfold pollSlot
  rw [if_neg hnot]
  rcases outcome poll (e.slots b) b w with ⟨wakes, ready, world⟩
  obtain ⟨hslots, hcount, hmask⟩ := foldl_wake (e.setState b .running) wakes
  have hstate : ∀ (state : SlotState) (i : Fin maxTasks),
      (((wakes.foldl wake (e.setState b .running)).setState b state).slots i).state
        = if i = b then state else (e.slots i).state := by
    intro state i
    unfold setState at hslots ⊢
    simp only [hslots, Function.update_apply]
    split <;> rfl
  refine ⟨wakes, ready, rfl, ?_, ?_, ?_⟩
  · intro i
    cases ready with
    | true => exact hstate .done i
    | false => exact hstate .parked i
  · intro i
    cases ready with
    | true => exact hmask i
    | false => exact hmask i
  · cases ready with
    | true => exact congrArg (· - 1) hcount
    | false => exact hcount

theorem pollSlot_of_not_pollable {e : OuroborosExecutor T} {b : Fin maxTasks} (hb : ¬ e.Pollable b) (w : σ) :
    pollSlot poll e w b = (e, w, []) := by
  unfold pollSlot
  exact if_pos (not_or.mp hb)

/-- **One round of the poll loop** moves one bit from pending to the record. -/
theorem Tracks.pollSlot {v : Fin maxTasks → TaskView} {mask : U64} {e : OuroborosExecutor T}
    (h : Tracks v mask e) (b : Fin maxTasks) (w : σ) :
    Tracks ((pollSlot poll e w b).2.2.foldl observe v) (mask &&& ~~~bitMask b) (pollSlot poll e w b).1 := by
  have hmask : ∀ i : Fin maxTasks, i ≠ b → (mask &&& ~~~bitMask b).getLsbD i = mask.getLsbD i := by
    intro i hib
    have hval : i.val ≠ b.val := fun hv => hib (Fin.ext hv)
    rw [getLsbD_clear _ i.isLt, decide_eq_true hval, Bool.and_true]
  by_cases hb : e.Pollable b
  · obtain ⟨wakes, ready, hlog, hstate, hready, hcount⟩ := pollSlot_of_pollable poll hb w
    have hlive : (v b).live = true := (h.live b).mpr hb
    have hview := observe_poll v b wakes ready
    rw [← hlog] at hview
    refine ⟨?_, ?_, ?_, ?_⟩
    · intro i
      unfold Pollable
      rw [hview i, hstate i]
      by_cases hib : i = b
      · cases ready <;> simp [hib, hlive]
      · simp only [hib, if_false]
        exact h.live i
    · intro i
      rw [hstate i]
      by_cases hib : i = b
      · cases ready <;> simp [hib]
      · simp only [hib, if_false]
        exact h.stopped i
    · intro i
      rw [hview i, hready i]
      by_cases hib : i = b
      · -- a poll has begun, so the slot is due only if it was woken during it
        subst hib
        simp only [if_true, Bool.or_eq_true, decide_eq_true_eq]
        rintro - (hp | hw)
        · cases hp
        · exact .inl (.inr hw)
      · rw [hmask i hib]
        simp only [hib, if_false, Bool.or_eq_true, decide_eq_true_eq]
        rintro hli (hp | hw | hw)
        · exact (h.due i hli (.inl hp)).imp_left .inl
        · exact (h.due i hli (.inr hw)).imp_left .inl
        · exact .inl (.inr hw)
    · rw [hcount, h.count, hlog, liveCount_poll hlive]
  · -- nothing is polled: the slot holds no live task, so the bit was stale
    rw [pollSlot_of_not_pollable hb w]
    refine ⟨h.live, h.stopped, fun i hli hdue => ?_, h.count⟩
    have hib : i ≠ b := by
      rintro rfl
      exact hb ((h.live i).mp hli)
    rw [hmask i hib]
    exact h.due i hli hdue

/-! ## The poll loop -/

/-- The bits still to visit are few enough for the fuel: they are visited in ascending order, so after `k`
    rounds only bits from `k` on remain. -/
def Fuelled (fuel : Nat) (mask : U64) : Prop := ∀ i : Fin maxTasks, mask.getLsbD i = true → maxTasks ≤ i + fuel

theorem fuelled_max (mask : U64) : Fuelled maxTasks mask := fun _ _ => Nat.le_add_left ..

theorem Fuelled.eq_zero {mask : U64} (h : Fuelled 0 mask) : mask = 0 := by
  apply BitVec.eq_of_getLsbD_eq
  intro i hi
  have hn : ¬ mask.getLsbD i = true := fun hbit => Nat.not_le.mpr hi (h ⟨i, hi⟩ hbit)
  simpa using hn

theorem ctz_mod_lt (mask : U64) : mask.ctz.toNat % maxTasks < maxTasks := Nat.mod_lt _ (by decide)

/-- The lowest bit of a nonzero mask, which the loop visits next. -/
def lowest (mask : U64) : Fin maxTasks := ⟨mask.ctz.toNat % maxTasks, ctz_mod_lt mask⟩

theorem lowest_val {mask : U64} (hmask : mask ≠ 0) : (lowest mask).val = mask.ctz.toNat :=
  Nat.mod_eq_of_lt (BitVec.ctz_lt_iff_ne_zero.mpr hmask)

theorem Fuelled.next {fuel : Nat} {mask : U64} (h : Fuelled (fuel + 1) mask) (hmask : mask ≠ 0) :
    Fuelled fuel (mask &&& ~~~bitMask (lowest mask)) := by
  intro i hbit
  have hval := lowest_val hmask
  rw [getLsbD_clear _ i.isLt, Bool.and_eq_true, decide_eq_true_eq] at hbit
  obtain ⟨hbit, hne⟩ := hbit
  have hlow : ¬ i.val < mask.ctz.toNat := by
    intro hlt
    rw [BitVec.getLsbD_false_of_lt_ctz hlt] at hbit
    cases hbit
  have hfirst := h (lowest mask) (by rw [hval]; exact BitVec.getLsbD_true_ctz_of_ne_zero hmask)
  omega

theorem pollLoop_succ (poll : T → Fin maxTasks → σ → PollOutcome σ) {fuel : Nat} {mask : U64}
    (hmask : mask ≠ 0) (e : OuroborosExecutor T) (w : σ) :
    pollLoop poll (fuel + 1) mask e w =
      let round := pollSlot poll e w (lowest mask)
      let rest := pollLoop poll fuel (mask &&& ~~~bitMask (lowest mask)) round.1 round.2.1
      (rest.1, rest.2.1, round.2.2 ++ rest.2.2) := by
  rw [pollLoop, if_neg hmask]
  rfl

/-- **The loop** leaves no bit pending. -/
theorem Tracks.pollLoop {v : Fin maxTasks → TaskView} (fuel : Nat) {mask : U64} {e : OuroborosExecutor T}
    (h : Tracks v mask e) (w : σ) (hf : Fuelled fuel mask) :
    Tracks ((pollLoop poll fuel mask e w).2.2.foldl observe v) 0 (pollLoop poll fuel mask e w).1 := by
  induction fuel generalizing v mask e w with
  | zero =>
      obtain rfl := hf.eq_zero
      exact h
  | succ fuel ih =>
      by_cases hmask : mask = 0
      · subst hmask
        exact h
      · rw [pollLoop_succ poll hmask]
        simp only [List.foldl_append]
        exact ih (h.pollSlot (lowest mask) w) _ (hf.next hmask)

/-- A slot with its bit pending and a task to poll is polled before the loop ends. -/
theorem began_mem_pollLoop (fuel : Nat) {mask : U64} {e : OuroborosExecutor T} {i : Fin maxTasks}
    (w : σ) (hf : Fuelled fuel mask) (hbit : mask.getLsbD i = true) (hi : e.Pollable i) :
    .began i ∈ (OuroborosExecutor.pollLoop poll fuel mask e w).2.2 := by
  induction fuel generalizing mask e w with
  | zero =>
      rw [hf.eq_zero] at hbit
      simp at hbit
  | succ fuel ih =>
      have hmask : mask ≠ 0 := by
        rintro rfl
        simp at hbit
      rw [pollLoop_succ poll hmask]
      refine List.mem_append.mpr ?_
      by_cases hlow : i = lowest mask
      · obtain ⟨wakes, ready, hlog, -⟩ := pollSlot_of_pollable poll (hlow ▸ hi) w
        exact .inl (by rw [hlog, hlow]; simp)
      · -- another slot is polled first, which leaves this one as it is
        refine .inr (ih _ (hf.next hmask) ?_ ?_)
        · have hval : i.val ≠ (lowest mask).val := fun hv => hlow (Fin.ext hv)
          rw [getLsbD_clear _ i.isLt, hbit, decide_eq_true hval, Bool.and_true]
        · by_cases hb : e.Pollable (lowest mask)
          · obtain ⟨wakes, ready, -, hstate, -⟩ := pollSlot_of_pollable poll hb w
            unfold Pollable
            rw [hstate i, if_neg hlow]
            exact hi
          · rw [pollSlot_of_not_pollable hb w]
            exact hi

/-! ## Calls -/

theorem liveCount_vacant : liveCount vacant = 0 := by
  unfold liveCount vacant
  rw [Finset.filter_false_of_mem fun i _ => Bool.false_ne_true, Finset.card_empty]

theorem tracks_new : Tracks vacant 0 (new : OuroborosExecutor T) where
  live := by simp [vacant, Pollable, new]
  stopped := by simp [new]
  due := by simp [vacant]
  count := liveCount_vacant.symm

section

variable {v : Fin maxTasks → TaskView} {e : OuroborosExecutor T}

/-- A pass is the loop over the mask it swapped out. -/
theorem runUntilStall_eq (poll : T → Fin maxTasks → σ → PollOutcome σ) (e : OuroborosExecutor T) (w : σ) :
    ((e.runUntilStall poll w).2.1, (e.runUntilStall poll w).2.2.2)
      = ((pollLoop poll maxTasks e.readyMask { e with readyMask := 0 } w).1,
        (pollLoop poll maxTasks e.readyMask { e with readyMask := 0 } w).2.2) := by
  unfold OuroborosExecutor.runUntilStall
  generalize OuroborosExecutor.pollLoop poll maxTasks e.readyMask { e with readyMask := 0 } w = pass
  rfl

/-- Swapping the mask out makes its bits pending. -/
theorem Tracks.swapped (h : Tracks v 0 e) : Tracks v e.readyMask { e with readyMask := 0 } := by
  refine ⟨h.live, h.stopped, fun i hli hdue => ?_, h.count⟩
  rcases h.due i hli hdue with hbit | hbit
  · exact .inr hbit
  · simp at hbit

theorem Tracks.runUntilStall (h : Tracks v 0 e) (poll : T → Fin maxTasks → σ → PollOutcome σ) (w : σ) :
    Tracks ((e.runUntilStall poll w).2.2.2.foldl observe v) 0 (e.runUntilStall poll w).2.1 := by
  obtain ⟨hexec, hlog⟩ := Prod.mk.inj (runUntilStall_eq poll e w)
  rw [hexec, hlog]
  exact h.swapped.pollLoop maxTasks w (fuelled_max _)

theorem Tracks.wake (h : Tracks v 0 e) (j : Fin maxTasks) : Tracks (observe v (.woke j)) 0 (e.wake j) where
  live := by
    intro i
    rw [observe_woke]
    split
    · next hij => rw [hij]; exact h.live j
    · exact h.live i
  stopped := h.stopped
  due := by
    intro i
    rw [observe_woke, getLsbD_wake]
    by_cases hij : i = j
    · simp [hij]
    · simp only [hij, if_false, decide_false, Bool.or_false]
      exact h.due i
  count := by
    refine h.count.trans (liveCount_congr fun i => ?_).symm
    rw [observe_woke]
    split
    · next hij => rw [hij]
    · rfl

theorem findFreeSlot_some {i : Fin maxTasks} (h : e.findFreeSlot = some i) : ¬ e.Pollable i := by
  have hfree := List.find?_some h
  simp only [decide_eq_true_eq] at hfree
  rintro (hr | hr) <;> simp [hr] at hfree

/-- With no task running, the arena is full exactly when every slot can be polled. -/
theorem findFreeSlot_none (hs : ∀ i, (e.slots i).state ≠ .running) :
    e.findFreeSlot = none ↔ ∀ i, e.Pollable i := by
  unfold findFreeSlot Pollable
  simp only [List.find?_eq_none, List.mem_finRange, true_implies, decide_eq_true_eq]
  refine forall_congr' fun i => ?_
  have hi := hs i
  cases hstate : (e.slots i).state <;> simp_all

theorem Tracks.spawn (h : Tracks v 0 e) (task : T) :
    Tracks ((e.spawnRaw task).2.2.foldl observe v) 0 (e.spawnRaw task).2.1 := by
  unfold spawnRaw
  cases hfind : e.findFreeSlot with
  | none => exact h
  | some b =>
      have hdead : (v b).live = false := by
        have hn := mt (h.live b).mp (findFreeSlot_some hfind)
        simpa using hn
      refine ⟨?_, ?_, ?_, ?_⟩
      · intro i
        show (observe v (.spawned b) i).live = true ↔ _
        rw [observe_spawned]
        by_cases hib : i = b
        · subst hib
          simp [Pollable, OuroborosExecutor.wake]
        · have hi := h.live i
          unfold Pollable at hi ⊢
          simpa [OuroborosExecutor.wake, hib] using hi
      · intro i
        by_cases hib : i = b
        · subst hib
          simp [OuroborosExecutor.wake]
        · simpa [OuroborosExecutor.wake, hib] using h.stopped i
      · intro i
        show (observe v (.spawned b) i).live = true →
          (observe v (.spawned b) i).polled = false ∨ (observe v (.spawned b) i).woken = true →
          (e.wake b).readyMask.getLsbD i = true ∨ _
        rw [observe_spawned, getLsbD_wake]
        by_cases hib : i = b
        · simp [hib]
        · simp only [hib, if_false, decide_false, Bool.or_false]
          exact h.due i
      · refine (congrArg (· + 1) h.count).trans (liveCount_succ (b := b) (fun i hib => ?_) hdead ?_).symm
        · show (observe v (.spawned b) i).live = _
          rw [observe_spawned, if_neg hib]
        · show (observe v (.spawned b) b).live = _
          rw [observe_spawned, if_pos rfl]

end

end OuroborosExecutor

end Slope.Executor
