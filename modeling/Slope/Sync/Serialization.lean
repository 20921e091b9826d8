import Mathlib.Data.List.Basic
import Slope.Sync.Participants

/-!
# `Sync.Serialization` — the operations on a cell happen one after the other

`Serial` reads the cell against two lists: the calls that returned `Ok` and the calls that got the lock, each
in order. The lists agree but for the call that holds the lock, and the cell has the value that the calls
which returned leave, plus the parts that the holder has run. One step keeps this; the statements about whole
runs follow.
-/

namespace Slope.Sync

section

variable {T R : Type}

/-! ## Operations under way -/

/-- `op`, started on `value`, has run some of its parts: `rest` is left to run and the data is `data`. -/
inductive Operation.Ran (op : Operation T R) (value : T) : Operation T R → T → Prop where
  | start : op.Ran value op value
  | part {write : T → T} {next : T → Operation T R} {data : T} (h : op.Ran value (.part write next) data) :
      op.Ran value (next data) (write data)

/-- The parts run so far and those left make up the operation. -/
theorem Operation.Ran.apply_eq {op rest : Operation T R} {value data : T} (h : op.Ran value rest data) :
    rest.apply data = op.apply value := by
  induction h with
  | start => rfl
  | part h ih => exact ih

/-- `op` has run some of its parts on `value`, which does not change. -/
inductive Observation.Ran (op : Observation T R) (value : T) : Observation T R → Prop where
  | start : op.Ran value op
  | part {next : T → Observation T R} (h : op.Ran value (.part next)) : op.Ran value (next value)

theorem Observation.Ran.see_eq {op rest : Observation T R} {value : T} (h : op.Ran value rest) :
    rest.see value = op.see value := by
  induction h with
  | start => rfl
  | part h ih => exact ih

namespace PairCall

/-- What the call does to the value, once it has the lock. -/
def apply : PairCall T R → T → T
  | tryMutate operation, value => (operation.apply value).2
  | tryObserve _, value => value
  | mutateBounded _ operation, value => (operation.apply value).2

/-- What the call returns, once it has the lock. -/
def answer : PairCall T R → T → R
  | tryMutate operation, value => (operation.apply value).1
  | tryObserve operation, value => operation.see value
  | mutateBounded _ operation, value => (operation.apply value).1

/-- `call`, started on `value`, stands at `pc` and has left `data`. -/
inductive Running (call : PairCall T R) (value : T) : PairPc T R → T → Prop where
  | mutating {op rest : Operation T R} {data : T} (hcall : call = tryMutate op ∨ ∃ n, call = mutateBounded n op)
      (hran : op.Ran value rest data) : call.Running value (.mutating call rest) data
  | observing {op rest : Observation T R} (hcall : call = tryObserve op) (hran : op.Ran value rest) :
      call.Running value (.observing call rest) value

theorem running_enter (call : PairCall T R) (value : T) : call.Running value call.enter value := by
  cases call with
  | tryMutate op => exact .mutating (.inl rfl) .start
  | tryObserve op => exact .observing rfl .start
  | mutateBounded n op => exact .mutating (.inr ⟨n, rfl⟩) .start

/-- One more part. -/
theorem Running.part {call c : PairCall T R} {value : T} {write : T → T} {next : T → Operation T R} {data : T}
    (h : call.Running value (.mutating c (.part write next)) data) :
    call.Running value (.mutating c (next data)) (write data) := by
  cases h with
  | mutating hcall hran => exact .mutating hcall hran.part

theorem Running.look {call c : PairCall T R} {value : T} {next : T → Observation T R} {data : T}
    (h : call.Running value (.observing c (.part next)) data) :
    call.Running value (.observing c (next data)) data := by
  cases h with
  | observing hcall hran => exact .observing hcall hran.part

/-- A mutation with no part left. -/
theorem Running.mutated {call : PairCall T R} {value data : T} {result : R} {c : PairCall T R}
    (h : call.Running value (.mutating c (.done result)) data) :
    data = call.apply value ∧ result = call.answer value := by
  cases h with
  | @mutating op rest data hcall hran =>
      have hall : (result, data) = op.apply value := hran.apply_eq
      rcases hcall with rfl | ⟨n, rfl⟩
      · exact ⟨congrArg Prod.snd hall, congrArg Prod.fst hall⟩
      · exact ⟨congrArg Prod.snd hall, congrArg Prod.fst hall⟩

/-- An observation with no part left. -/
theorem Running.observed {call : PairCall T R} {value data : T} {result : R} {c : PairCall T R}
    (h : call.Running value (.observing c (.done result)) data) :
    data = call.apply value ∧ result = call.answer value := by
  cases h with
  | @observing op rest hcall hran =>
      subst hcall
      exact ⟨rfl, hran.see_eq⟩

/-- An observation leaves the data alone. -/
theorem Running.unchanged {call c : PairCall T R} {value data : T} {rest : Observation T R}
    (h : call.Running value (.observing c rest) data) : data = value := by
  cases h with
  | observing => rfl

end PairCall

/-- The call that has the lock. -/
def PairPc.holds : PairPc T R → Option (PairCall T R)
  | .mutating call _ => some call
  | .observing call _ => some call
  | _ => none

theorem PairPc.current_of_holds {pc : PairPc T R} {call : PairCall T R} (h : pc.holds = some call) :
    pc.current = some call := by
  cases pc with
  | idle => cases h
  | locking => cases h
  | mutating => exact h
  | observing => exact h

theorem PairCall.Running.holds {call : PairCall T R} {value data : T} {pc : PairPc T R}
    (h : call.Running value pc data) : pc.holds = some call := by
  cases h with
  | mutating => rfl
  | observing => rfl

/-- The value that a sequence of calls leaves. -/
def applied {τ : Type} (value : T) (calls : List (τ × PairCall T R)) : T :=
  calls.foldl (fun value c => c.2.apply value) value

theorem applied_snoc {τ : Type} (value : T) (calls : List (τ × PairCall T R)) (c : τ × PairCall T R) :
    applied value (calls ++ [c]) = c.2.apply (applied value calls) := by
  unfold applied
  rw [List.foldl_append]
  rfl

end

/-! ## The invariant -/

namespace PairNotice

variable {τ T R : Type}

/-- The call that got the lock. -/
def entered : PairNotice τ T R → Option (τ × PairCall T R)
  | locked t call => some (t, call)
  | returned _ _ _ => none

/-- The call that returned `Ok`. -/
def completed : PairNotice τ T R → Option (τ × PairCall T R)
  | returned t call (.ok _) => some (t, call)
  | _ => none

end PairNotice

namespace Participants

variable {τ T R : Type}

/-- **The cell behind its lock.** `value` is what the calls that returned have left. -/
inductive Serial (value : T) (s : Participants τ T R) : Option (τ × PairCall T R) → Prop where
  | free (hlock : s.cell.locked = false) (hout : ∀ t, (s.pc t).holds = none) (hdata : s.cell.data = value) :
      Serial value s none
  | held {t : τ} {call : PairCall T R} (hlock : s.cell.locked = true)
      (hout : ∀ t', t' ≠ t → (s.pc t').holds = none) (hrun : call.Running value (s.pc t) s.cell.data) :
      Serial value s (some (t, call))

/-- The calls that got the lock and the calls that returned `Ok`, each in order: they agree but for the call
    that has the lock. -/
def Accounted (value : T) (locked returned : List (τ × PairCall T R)) (s : Participants τ T R) : Prop :=
  ∃ holder, Serial (applied value returned) s holder ∧ locked = returned ++ holder.toList

section Inversion

variable {value : T} {s : Participants τ T R} {holder : Option (τ × PairCall T R)} {t : τ}
  {locked returned : List (τ × PairCall T R)}

/-- Who stands inside has the lock. -/
theorem Serial.of_holds (h : Serial value s holder) {call : PairCall T R} (hin : (s.pc t).holds = some call) :
    holder = some (t, call) ∧ (∀ t', t' ≠ t → (s.pc t').holds = none) ∧
      call.Running value (s.pc t) s.cell.data := by
  cases h with
  | free hlock hout hdata => cases hin.symm.trans (hout t)
  | @held t₀ call₀ hlock hout hrun =>
      obtain rfl : t = t₀ := by
        by_contra hne
        cases hin.symm.trans (hout t hne)
      obtain rfl : call = call₀ := Option.some.inj (hin.symm.trans hrun.holds)
      exact ⟨rfl, hout, hrun⟩

theorem Serial.of_unlocked (h : Serial value s holder) (hlock : s.cell.locked = false) :
    holder = none ∧ (∀ t, (s.pc t).holds = none) ∧ s.cell.data = value := by
  cases h with
  | free hlock hout hdata => exact ⟨rfl, hout, hdata⟩
  | held hlock' => cases hlock.symm.trans hlock'

/-- What a participant inside has run of its call. -/
theorem Accounted.running (h : Accounted value locked returned s) {call : PairCall T R}
    (hin : (s.pc t).holds = some call) : call.Running (applied value returned) (s.pc t) s.cell.data := by
  obtain ⟨holder, hserial, -⟩ := h
  exact (hserial.of_holds hin).2.2

/-- A step without notice. -/
theorem Accounted.silent {s' : Participants τ T R} (h : Accounted value locked returned s)
    (hkeep : ∀ holder, Serial (applied value returned) s holder → Serial (applied value returned) s' holder) :
    Accounted value (locked ++ []) (returned ++ []) s' := by
  obtain ⟨holder, hserial, hent⟩ := h
  rw [List.append_nil, List.append_nil]
  exact ⟨holder, hkeep holder hserial, hent⟩

end Inversion

variable [DecidableEq τ] {value : T} {s : Participants τ T R} {holder : Option (τ × PairCall T R)} {t : τ}
  {pc : PairPc T R}

@[simp] theorem goto_cell : (s.goto t pc).cell = s.cell := rfl

@[simp] theorem goto_pc_self : (s.goto t pc).pc t = pc := Function.update_self ..

@[simp] theorem goto_pc_ne {t' : τ} (h : t' ≠ t) : (s.goto t pc).pc t' = s.pc t' := Function.update_of_ne h ..

/-- A participant is outside after `t` moved outside, if it was outside or is `t`. -/
theorem holds_goto {t' : τ} (hout : t' ≠ t → (s.pc t').holds = none) (hpc : pc.holds = none) :
    ((s.goto t pc).pc t').holds = none := by
  by_cases ht : t' = t
  · subst ht
    rwa [goto_pc_self]
  · rw [goto_pc_ne ht]
    exact hout ht

/-- **Frame.** A participant that moves outside the lock changes nothing. -/
theorem Serial.outside (h : Serial value s holder) (hold : (s.pc t).holds = none) (hpc : pc.holds = none) :
    Serial value (s.goto t pc) holder := by
  cases h with
  | free hlock hout hdata => exact .free hlock (fun t' => holds_goto (fun _ => hout t') hpc) hdata
  | @held t₀ call hlock hout hrun =>
      have hne : t₀ ≠ t := by
        rintro rfl
        cases hold.symm.trans hrun.holds
      refine .held hlock (fun t' ht' => holds_goto (fun _ => hout t' ht') hpc) ?_
      rw [goto_pc_ne hne]
      exact hrun

/-- A successful compare-exchange. -/
theorem Serial.enter (h : Serial value s holder) (hlock : s.cell.locked = false) (call : PairCall T R) :
    Serial value ((s.store true).goto t call.enter) (some (t, call)) := by
  obtain ⟨-, hout, hdata⟩ := h.of_unlocked hlock
  refine .held rfl (fun t' ht' => ?_) ?_
  · rw [goto_pc_ne ht']
    exact hout t'
  · rw [goto_pc_self]
    show call.Running value call.enter s.cell.data
    rw [hdata]
    exact call.running_enter value

/-- The guard's drop. -/
theorem Serial.leave (h : Serial value s holder) {call : PairCall T R} {value' : T}
    (hin : (s.pc t).holds = some call) (hdata : s.cell.data = value') :
    Serial value' ((s.store false).goto t .idle) none := by
  obtain ⟨-, hout, -⟩ := h.of_holds hin
  exact .free rfl (fun t' => holds_goto (hout t') rfl) hdata

/-- One more part of the holder's operation. -/
theorem Serial.part (h : Serial value s holder) {call : PairCall T R} {data : T}
    (hin : (s.pc t).holds = some call) (hrun : call.Running value pc data) :
    Serial value ((s.write data).goto t pc) holder := by
  obtain ⟨rfl, hout, -⟩ := h.of_holds hin
  have hlock : s.cell.locked = true := by
    cases h with
    | held hlock => exact hlock
  refine .held hlock (fun t' ht' => ?_) ?_
  · rw [goto_pc_ne ht']
    exact hout t' ht'
  · rw [goto_pc_self]
    exact hrun

/-! ## What a step can do -/

/-- **The steps of participant `t`**: what each finds, what it tells and what it leaves. -/
inductive Moved (s : Participants τ T R) (t : τ) : Option (PairNotice τ T R) → Participants τ T R → Prop where
  | stay : Moved s t none s
  | call (call : PairCall T R) (hpc : s.pc t = .idle) : Moved s t none (s.goto t (.locking call call.attempts))
  | busy {call : PairCall T R} (hpc : s.pc t = .locking call 0) :
      Moved s t (some (.returned t call (.error .busy))) (s.goto t .idle)
  | miss {call : PairCall T R} {attempts : Nat} (hpc : s.pc t = .locking call (attempts + 1))
      (hlock : s.cell.locked = true) : Moved s t none (s.goto t (.locking call attempts))
  | enter {call : PairCall T R} {attempts : Nat} (hpc : s.pc t = .locking call (attempts + 1))
      (hlock : s.cell.locked = false) : Moved s t (some (.locked t call)) ((s.store true).goto t call.enter)
  | part {call : PairCall T R} {pc : PairPc T R} {data : T} (hin : (s.pc t).holds = some call)
      (hpc : pc.holds = some call)
      (hrun : ∀ value, call.Running value (s.pc t) s.cell.data → call.Running value pc data) :
      Moved s t none ((s.write data).goto t pc)
  | leave {call : PairCall T R} {result : R} (hin : (s.pc t).holds = some call)
      (hrun : ∀ value, call.Running value (s.pc t) s.cell.data →
        s.cell.data = call.apply value ∧ result = call.answer value) :
      Moved s t (some (.returned t call (.ok result))) ((s.store false).goto t .idle)

/-- Every step is one of these. -/
theorem step_moved (s : Participants τ T R) (a : PairAction τ T R) :
    Moved s a.participant (s.step a).1 (s.step a).2 := by
  cases a with
  | call t call =>
      cases hpc : s.pc t with
      | idle =>
          simp only [step, hpc]
          exact .call call hpc
      | _ =>
          simp only [step, hpc]
          exact .stay
  | advance t =>
      show Moved s t (s.advance t).1 (s.advance t).2
      unfold advance
      cases hpc : s.pc t with
      | idle => exact .stay
      | locking call attempts =>
          cases attempts with
          | zero => exact .busy hpc
          | succ attempts =>
              cases hlock : s.cell.locked with
              | true => exact .miss hpc hlock
              | false => exact .enter hpc hlock
      | mutating call rest =>
          have hin : (s.pc t).holds = some call := by rw [hpc]; rfl
          cases rest with
          | part write next =>
              refine .part hin rfl fun value hrun => ?_
              rw [hpc] at hrun
              exact hrun.part
          | done result =>
              refine .leave hin fun value hrun => ?_
              rw [hpc] at hrun
              exact hrun.mutated
      | observing call rest =>
          have hin : (s.pc t).holds = some call := by rw [hpc]; rfl
          cases rest with
          | part next =>
              -- the data is written back as it is
              show Moved s t none ((s.write s.cell.data).goto t (.observing call (next s.cell.data)))
              refine .part hin rfl fun value hrun => ?_
              rw [hpc] at hrun
              exact hrun.look
          | done result =>
              refine .leave hin fun value hrun => ?_
              rw [hpc] at hrun
              exact hrun.observed

theorem Moved.others {t' : τ} {notice : Option (PairNotice τ T R)} {s' : Participants τ T R}
    (hm : Moved s t notice s') (ht : t' ≠ t) : s'.pc t' = s.pc t' := by
  cases hm with
  | stay => rfl
  | _ => exact goto_pc_ne ht

/-- A participant is in its call until it returns. -/
theorem Moved.current {notice : Option (PairNotice τ T R)} {s' : Participants τ T R} (hm : Moved s t notice s')
    {call : PairCall T R} (hcur : (s.pc t).current = some call)
    (hnot : ∀ call result, notice ≠ some (.returned t call result)) : (s'.pc t).current = some call := by
  cases hm with
  | stay => exact hcur
  | call call hpc => rw [hpc] at hcur; cases hcur
  | busy hpc => exact absurd rfl (hnot _ _)
  | miss hpc => rw [hpc] at hcur; rw [goto_pc_self]; exact hcur
  | @enter call' attempts hpc hlock =>
      rw [hpc] at hcur
      rw [goto_pc_self, ← hcur]
      exact PairPc.current_of_holds (call'.running_enter s.cell.data).holds
  | part hin hpc hrun =>
      rw [goto_pc_self, PairPc.current_of_holds hpc, ← PairPc.current_of_holds hin]
      exact hcur
  | leave => exact absurd rfl (hnot _ _)

/-- A participant inside stays inside until it returns. -/
theorem Moved.persists {t' : τ} {notice : Option (PairNotice τ T R)} {s' : Participants τ T R}
    (hm : Moved s t' notice s') (hin : (s.pc t).holds ≠ none)
    (hnot : ∀ call result, notice ≠ some (.returned t call result)) : (s'.pc t).holds ≠ none := by
  by_cases ht : t = t'
  · subst ht
    cases hm with
    | stay => exact hin
    | call call hpc => rw [hpc] at hin; exact absurd rfl hin
    | busy hpc => exact absurd rfl (hnot _ _)
    | miss hpc => rw [hpc] at hin; exact absurd rfl hin
    | enter hpc => rw [hpc] at hin; exact absurd rfl hin
    | part hin' hpc => rw [goto_pc_self, hpc]; simp
    | leave => exact absurd rfl (hnot _ _)
  · rw [hm.others ht]
    exact hin

/-- A step of `t` that ends outside the lock and is no return leaves the cell alone. -/
theorem Moved.cell_eq {notice : Option (PairNotice τ T R)} {s' : Participants τ T R} (hm : Moved s t notice s')
    (hout : (s'.pc t).holds = none) (hnot : ∀ call result, notice ≠ some (.returned t call (.ok result))) :
    s'.cell = s.cell := by
  cases hm with
  | stay => rfl
  | call => rfl
  | busy => rfl
  | miss => rfl
  | @enter call attempts hpc hlock =>
      rw [goto_pc_self, (call.running_enter s.cell.data).holds] at hout
      cases hout
  | part hin hpc =>
      rw [goto_pc_self, hpc] at hout
      cases hout
  | leave => exact absurd rfl (hnot _ _)

/-! ## Steps -/

variable {locked returned : List (τ × PairCall T R)}

/-- The holder returns. -/
theorem Accounted.leave (h : Accounted value locked returned s) {call : PairCall T R}
    (hin : (s.pc t).holds = some call) (hdata : s.cell.data = call.apply (applied value returned)) :
    Accounted value (locked ++ []) (returned ++ [(t, call)]) ((s.store false).goto t .idle) := by
  obtain ⟨holder, hserial, hent⟩ := h
  obtain ⟨rfl, -, -⟩ := hserial.of_holds hin
  refine ⟨none, ?_, ?_⟩
  · rw [applied_snoc]
    exact hserial.leave hin hdata
  · rw [hent]
    simp

/-- A call gets the lock. -/
theorem Accounted.enter (h : Accounted value locked returned s) (hlock : s.cell.locked = false)
    (call : PairCall T R) :
    Accounted value (locked ++ [(t, call)]) (returned ++ []) ((s.store true).goto t call.enter) := by
  obtain ⟨holder, hserial, hent⟩ := h
  obtain ⟨rfl, -, -⟩ := hserial.of_unlocked hlock
  rw [List.append_nil]
  refine ⟨some (t, call), hserial.enter hlock call, ?_⟩
  rw [hent]
  simp

/-- **Invariant step.** -/
theorem Accounted.moved {notice : Option (PairNotice τ T R)} {s' : Participants τ T R}
    (h : Accounted value locked returned s) (hm : Moved s t notice s') :
    Accounted value (locked ++ (notice.bind PairNotice.entered).toList)
      (returned ++ (notice.bind PairNotice.completed).toList) s' := by
  cases hm with
  | stay => exact h.silent fun _ hs => hs
  | call call hpc => exact h.silent fun _ hs => hs.outside (by rw [hpc]; rfl) rfl
  | busy hpc => exact h.silent fun _ hs => hs.outside (by rw [hpc]; rfl) rfl
  | miss hpc hlock => exact h.silent fun _ hs => hs.outside (by rw [hpc]; rfl) rfl
  | enter hpc hlock => exact h.enter hlock _
  | part hin hpc hrun => exact h.silent fun _ hs => hs.part hin (hrun _ (h.running hin))
  | leave hin hrun => exact h.leave hin (hrun _ (h.running hin)).1

/-- What a call that returns `Ok` returns. -/
theorem Accounted.answer {t' : τ} {call : PairCall T R} {result : R} {s' : Participants τ T R}
    (h : Accounted value locked returned s) (hm : Moved s t (some (.returned t' call (.ok result))) s') :
    result = call.answer (applied value returned) := by
  cases hm with
  | leave hin hrun => exact (hrun _ (h.running hin)).2

/-- The committed value changes only when a call returns `Ok`. -/
theorem Serial.moved {notice : Option (PairNotice τ T R)} {s' : Participants τ T R}
    (h : Serial value s holder) (hm : Moved s t notice s')
    (hnot : ∀ call result, notice ≠ some (.returned t call (.ok result))) :
    ∃ holder', Serial value s' holder' := by
  cases hm with
  | stay => exact ⟨_, h⟩
  | call call hpc => exact ⟨_, h.outside (by rw [hpc]; rfl) rfl⟩
  | busy hpc => exact ⟨_, h.outside (by rw [hpc]; rfl) rfl⟩
  | miss hpc hlock => exact ⟨_, h.outside (by rw [hpc]; rfl) rfl⟩
  | enter hpc hlock => exact ⟨_, h.enter hlock _⟩
  | part hin hpc hrun => exact ⟨_, h.part hin (hrun _ (h.of_holds hin).2.2)⟩
  | leave => exact absurd rfl (hnot _ _)

/-! ## Whole runs -/

abbrev PairEvent (τ T R : Type) :=
  Event (Participants τ T R) (PairAction τ T R) (Option (PairNotice τ T R))

/-- The calls that got the lock, in order. -/
def entered (h : List (PairEvent τ T R)) : List (τ × PairCall T R) :=
  h.filterMap fun e => e.result.bind PairNotice.entered

/-- The calls that returned `Ok`, in order. -/
def completed (h : List (PairEvent τ T R)) : List (τ × PairCall T R) :=
  h.filterMap fun e => e.result.bind PairNotice.completed

/-- Participant `t` returns from a call. -/
def Returns (t : τ) (e : PairEvent τ T R) : Prop := ∃ call result, e.result = some (.returned t call result)

variable {h : List (PairEvent τ T R)}

theorem accounted_run {allowed : List (PairEvent τ T R) → PairAction τ T R → Prop}
    (hr : Run step allowed (.new value) h s) : Accounted value (entered h) (completed h) s := by
  refine hr.invariant (fun h s => Accounted value (entered h) (completed h) s) ?_ ?_
  · exact ⟨none, .free rfl (fun _ => rfl) rfl, rfl⟩
  · intro h s a _ _ ih
    unfold entered completed
    rw [filterMap_snoc, filterMap_snoc]
    exact ih.moved (step_moved s a)

theorem holds_of_run {s' : Participants τ T R} {allowed : List (PairEvent τ T R) → PairAction τ T R → Prop}
    (hr : Run step allowed s h s') (hin : (s.pc t).holds ≠ none) (hnot : ∀ e ∈ h, ¬ Returns t e) :
    (s'.pc t).holds ≠ none := by
  induction hr with
  | start => exact hin
  | @call h s' a hr ha ih =>
      have hstill := ih fun e he => hnot e (List.mem_append_left _ he)
      refine (step_moved s' a).persists hstill fun call result hret => ?_
      exact hnot _ (List.mem_append_right _ (List.mem_singleton_self _)) ⟨call, result, hret⟩

/-- A call that returns `Busy` has not touched the cell: neither has any other step that its participant took
    since it last returned. -/
theorem busy_untouched {value : T} (hr : Run step (fun _ _ => True) (.new value) h s)
    {h₁ between h₂ : List (PairEvent τ T R)} {e : PairEvent τ T R} {call : PairCall T R}
    (hsplit : h = h₁ ++ between ++ e :: h₂) (hbusy : e.result = some (.returned t call (.error .busy)))
    (hnot : ∀ e' ∈ between, ¬ Returns t e') {e' : PairEvent τ T R} (he' : e' ∈ between ++ [e])
    (hown : e'.call.participant = t) : e'.post.cell = e'.pre.cell := by
  have hmoved : ∀ e'' ∈ h, Moved e''.pre e''.call.participant e''.result e''.post := by
    intro e'' he''
    rw [hr.event_of he'']
    exact step_moved _ _
  have he : Moved e.pre e.call.participant (some (.returned t call (.error .busy))) e.post := by
    rw [← hbusy]
    exact hmoved e (by rw [hsplit]; simp)
  obtain ⟨hout, hcell⟩ : (e.pre.pc t).holds = none ∧ e.post.cell = e.pre.cell := by
    generalize e.call.participant = t' at he
    generalize e.post = post at he ⊢
    cases he with
    | busy hpc => exact ⟨by rw [hpc]; rfl, rfl⟩
  rcases List.mem_append.mp he' with hmem | hlast
  · -- had `t` got inside, it would still be there when it returns
    have hm := hmoved e' (by rw [hsplit]; simp [hmem])
    rw [hown] at hm
    refine hm.cell_eq ?_ fun call result hret => hnot e' hmem ⟨call, _, hret⟩
    by_contra hin
    obtain ⟨b₁, b₂, rfl⟩ := List.append_of_mem hmem
    have hcut : h = (h₁ ++ b₁) ++ e' :: (b₂ ++ e :: h₂) := by rw [hsplit]; simp
    have hrest := (hr.cut hcut).2.2.cut rfl
    exact holds_of_run hrest.1 hin (fun e'' he'' => hnot e'' (by simp [he''])) hout
  · rw [List.mem_singleton.mp hlast]
    exact hcell

/-! ## A call that runs alone -/

theorem finalState_mutating {call : PairCall T R} (rest : Operation T R) (s : Participants τ T R)
    (hpc : s.pc t = .mutating call rest) :
    ∃ n, finalState step s (.replicate n (.advance t))
      = { s with cell := .new (rest.apply s.cell.data).2 }.goto t .idle := by
  induction rest generalizing s with
  | done result =>
      refine ⟨1, ?_⟩
      simp only [List.replicate_one, finalState, step, advance, hpc]
      rfl
  | part f next ih =>
      obtain ⟨n, hn⟩ := ih s.cell.data ((s.write (f s.cell.data)).goto t (.mutating call (next s.cell.data)))
        goto_pc_self
      refine ⟨n + 1, ?_⟩
      rw [List.replicate_succ]
      simp only [finalState, step, advance, hpc]
      rw [hn]
      simp only [goto, write, Function.update_idem]
      rfl

/-- With the lock free and nobody else moving, the steps of `mutate_bounded` are the call itself. -/
theorem mutateBounded_alone (hpc : s.pc t = .idle) (hlock : s.cell.locked = false) (op : Operation T R)
    {attempts : Nat} (hpos : 0 < attempts) :
    ∃ n, finalState step s (.call t (.mutateBounded attempts op) :: .replicate n (.advance t))
      = { s with cell := (s.cell.mutateBounded () (fun data _ => ((op.apply data).1, (op.apply data).2, ()))
          attempts).2.1 } := by
  obtain ⟨k, rfl⟩ : ∃ k, attempts = k + 1 := ⟨attempts - 1, by omega⟩
  have hcell : s.cell = .new s.cell.data := by
    unfold SpookyCell.new
    rw [← hlock]
  -- the call and its first attempt
  have hlocked : finalState step s [.call t (.mutateBounded (k + 1) op), .advance t]
      = (s.store true).goto t (.mutating (.mutateBounded (k + 1) op) op) := by
    simp only [finalState, step, advance, hpc, PairCall.attempts, goto_pc_self, goto_cell, hlock]
    simp only [goto, store, PairCall.enter, Function.update_idem]
    rfl
  obtain ⟨n, hn⟩ := finalState_mutating op
    ((s.store true).goto t (.mutating (.mutateBounded (k + 1) op) op)) goto_pc_self
  refine ⟨n + 1, ?_⟩
  rw [List.replicate_succ, hcell, SpookyCell.mutateBounded_free _ _ _ hpos]
  change finalState step (finalState step s [.call t (.mutateBounded (k + 1) op), .advance t]) _ = _
  rw [hlocked, hn]
  simp only [goto, store, Function.update_idem, ← hpc, Function.update_eq_self]

/-! ## The cell -/

/-- **Operations on a cell are serialized.** For any participants and every interleaving of their steps,
    however the operations are cut: at most one operation is in progress; the calls that got the lock are, in
    order, the calls that returned `Ok` and then the one that has the lock; while nobody has it the value is
    what these calls leave, one after the other, each applied once, and while a call has it the value is that
    of the calls before it with some of its own parts run; an observation reads the value that the mutations
    before it have left; what a call returns is what it returns on the value of the calls before it; and a
    call that returns `Busy`, with all its attempts, has not touched the cell. -/
theorem cell_serialized {value : T} (hr : Run step (fun _ _ => True) (.new value) h s) :
    (∀ t t', (s.pc t).holds ≠ none → (s.pc t').holds ≠ none → t = t') ∧
    ((∀ t, (s.pc t).holds = none) → entered h = completed h ∧ s.cell.data = applied value (completed h)) ∧
    (∀ t call, (s.pc t).holds = some call → entered h = completed h ++ [(t, call)] ∧
      call.Running (applied value (completed h)) (s.pc t) s.cell.data) ∧
    (∀ t call rest, s.pc t = .observing call rest → s.cell.data = applied value (completed h)) ∧
    (∀ h₁ e h₂ t call result, h = h₁ ++ e :: h₂ → e.result = some (.returned t call (.ok result)) →
      result = call.answer (applied value (completed h₁))) ∧
    (∀ h₁ between e h₂ t call, h = h₁ ++ between ++ e :: h₂ →
      e.result = some (.returned t call (.error .busy)) → (∀ e' ∈ between, ¬ Returns t e') →
        ∀ e' ∈ between ++ [e], e'.call.participant = t → e'.post.cell = e'.pre.cell) := by
  obtain ⟨holder, hserial, hent⟩ := accounted_run hr
  refine ⟨?_, ?_, ?_, ?_, ?_, ?_⟩
  · intro t t' hin hin'
    obtain ⟨call, hcall⟩ := Option.ne_none_iff_exists'.mp hin
    by_contra hne
    exact hin' ((hserial.of_holds hcall).2.1 t' (Ne.symm hne))
  · intro hout
    cases hserial with
    | free hlock hout hdata => exact ⟨by simpa using hent, hdata⟩
    | held hlock hout' hrun => cases (hout _).symm.trans hrun.holds
  · intro t call hin
    obtain ⟨rfl, -, hrun⟩ := hserial.of_holds hin
    exact ⟨hent, hrun⟩
  · intro t call rest hpc
    have hrun := (hserial.of_holds (t := t) (by rw [hpc]; rfl)).2.2
    rw [hpc] at hrun
    exact hrun.unchanged
  · intro h₁ e h₂ t call result hsplit hret
    have hpre := accounted_run (hr.cut hsplit).1
    have hm := step_moved e.pre e.call
    have hof := hr.event_of (e := e) (by rw [hsplit]; simp)
    have hnotice : (step e.pre e.call).1 = some (.returned t call (.ok result)) := by
      rw [← hret]
      exact (congrArg Event.result hof).symm
    rw [hnotice] at hm
    exact hpre.answer hm
  · intro h₁ between e h₂ t call hsplit hbusy hnot e' he' hown
    exact busy_untouched hr hsplit hbusy hnot he' hown

/-- `*value += 3`, in two parts. -/
def addThree : Operation Nat Nat := .part (· + 1) fun _ => .part (· + 2) fun value => .done value

/-- One participant is inside when the other tries twice in vain; then it looks. -/
def contendedActions : List (PairAction Bool Nat Nat) :=
  [.call false (.tryMutate addThree), .advance false, .call true (.mutateBounded 2 addThree), .advance false,
    .advance true, .advance true, .advance true, .advance false, .advance false,
    .call true (.tryObserve (.part .done)), .advance true, .advance true, .advance true]

/-- The cell starts at 5; the first mutation is applied once, the refused one not at all. -/
theorem cell_serialized_contended :
    (finalState step (.new 5) contendedActions).cell.data = 8 ∧
      (finalState step (.new 5) contendedActions).cell.data
        = applied 5 (completed (trace step (.new 5) contendedActions)) := by
  have hr := Run.replay step (.new 5) contendedActions
  refine ⟨rfl, ((cell_serialized hr).2.1 fun t => ?_).2⟩
  cases t <;> rfl

end Participants

end Slope.Sync
