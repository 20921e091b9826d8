import Mathlib.Data.List.Basic
import Mathlib.Logic.Function.Basic
import Slope.Lib.Run

/-!
# `Lib.Ticket` — tickets from a bounded counter, by compare-exchange

Any number of takers share a counter and no lock. A taker loads the counter; then, as long as what it saw is
below the limit, it tries to replace what it saw by the next number, takes what it saw as its ticket when it
succeeds, and goes on with what it finds there when it does not. The exchange may be a weak one, which fails
also for no reason.

`Dispenser.Fair` is the invariant: the tickets handed out are `0, 1, …` up to the counter, in this order.
`tickets_run` has it for whole runs, and `lost_le` bounds how many exchanges a taker can lose to the others.
-/

namespace Slope.Ticket

/-- The counter, and what each taker that is in a call saw of it last. -/
structure Dispenser (τ : Type) where
  next : Nat
  seen : τ → Option Nat

/-- A taker starts, or tries its exchange; a weak exchange may fail spuriously. -/
inductive Move (τ : Type) where
  | call (t : τ)
  | attempt (t : τ) (spurious : Bool)
  deriving DecidableEq

/-- A call that returned: its taker, and the ticket or nothing. -/
abbrev Notice (τ : Type) := Option (τ × Option Nat)

namespace Dispenser

variable {τ : Type}

def new : Dispenser τ := ⟨0, fun _ => none⟩

variable [DecidableEq τ]

/-- **One atomic step.** -/
def step (limit : Nat) (d : Dispenser τ) : Move τ → Notice τ × Dispenser τ
  | .call t =>
    match d.seen t with
    | none => (none, { d with seen := Function.update d.seen t (some d.next) })
    | some _ => (none, d)
  | .attempt t spurious =>
    match d.seen t with
    | none => (none, d)
    | some current =>
      if limit ≤ current then (some (t, none), { d with seen := Function.update d.seen t none })
      else if d.next = current ∧ spurious = false then
        (some (t, some current), ⟨current + 1, Function.update d.seen t none⟩)
      else (none, { d with seen := Function.update d.seen t (some d.next) })

/-! ## What a step can do -/

/-- **The steps**: what each finds, what it tells and what it leaves. -/
inductive Moved (limit : Nat) (d : Dispenser τ) : Move τ → Notice τ → Dispenser τ → Prop where
  | stay {m : Move τ} (hidle : ∀ t spurious, m = .attempt t spurious → d.seen t = none) : Moved limit d m none d
  | load {t : τ} (hseen : d.seen t = none) :
      Moved limit d (.call t) none { d with seen := Function.update d.seen t (some d.next) }
  | refuse {t : τ} {spurious : Bool} {current : Nat} (hseen : d.seen t = some current) (hlimit : limit ≤ current) :
      Moved limit d (.attempt t spurious) (some (t, none)) { d with seen := Function.update d.seen t none }
  | grant {t : τ} (hseen : d.seen t = some d.next) (hlimit : d.next < limit) :
      Moved limit d (.attempt t false) (some (t, some d.next)) ⟨d.next + 1, Function.update d.seen t none⟩
  | retry {t : τ} {spurious : Bool} {current : Nat} (hseen : d.seen t = some current) (hlimit : current < limit)
      (hmiss : d.next ≠ current ∨ spurious = true) :
      Moved limit d (.attempt t spurious) none { d with seen := Function.update d.seen t (some d.next) }

theorem step_moved (limit : Nat) (d : Dispenser τ) (m : Move τ) :
    Moved limit d m (d.step limit m).1 (d.step limit m).2 := by
  cases m with
  | call t =>
      cases hseen : d.seen t with
      | none =>
          simp only [step, hseen]
          exact .load hseen
      | some current =>
          simp only [step, hseen]
          exact .stay fun _ _ h => by cases h
  | attempt t spurious =>
      cases hseen : d.seen t with
      | none =>
          simp only [step, hseen]
          exact .stay fun _ _ h => by cases h; exact hseen
      | some current =>
          simp only [step, hseen]
          by_cases hlimit : limit ≤ current
          · rw [if_pos hlimit]
            exact .refuse hseen hlimit
          · rw [if_neg hlimit]
            by_cases hhit : d.next = current ∧ spurious = false
            · rw [if_pos hhit]
              obtain ⟨rfl, rfl⟩ := hhit
              exact .grant hseen (by omega)
            · rw [if_neg hhit]
              refine .retry hseen (by omega) ?_
              by_cases hnext : d.next = current
              · exact .inr (by simpa [hnext] using hhit)
              · exact .inl hnext

/-! ## The invariant -/

/-- The counter keeps to its limit, no taker saw more of it than there is, and the tickets handed out are all
    the numbers below it, in order. -/
structure Fair (limit : Nat) (tickets : List Nat) (d : Dispenser τ) : Prop where
  bounded : d.next ≤ limit
  seen_le : ∀ t current, d.seen t = some current → current ≤ d.next
  tickets_eq : tickets = List.range d.next

/-- The ticket that a notice tells of. -/
def ticket : Notice τ → Option Nat
  | some (_, some n) => some n
  | _ => none

omit [DecidableEq τ] in
theorem fair_new (limit : Nat) : Fair limit [] (new : Dispenser τ) :=
  ⟨Nat.zero_le _, fun _ _ h => (by cases h), rfl⟩

/-- What one taker saw does not concern the others. -/
theorem Fair.saw {limit : Nat} {tickets : List Nat} {d : Dispenser τ} (h : Fair limit tickets d) (t : τ)
    {saw : Option Nat} (hsaw : ∀ current, saw = some current → current ≤ d.next) :
    Fair limit tickets { d with seen := Function.update d.seen t saw } := by
  refine ⟨h.bounded, fun t' current hseen => ?_, h.tickets_eq⟩
  by_cases ht : t' = t
  · subst ht
    exact hsaw current (by simpa using hseen)
  · exact h.seen_le t' current (by simpa [Function.update_of_ne ht] using hseen)

/-- **One step keeps the order of tickets.** -/
theorem Fair.moved {limit : Nat} {tickets : List Nat} {d d' : Dispenser τ} {m : Move τ} {notice : Notice τ}
    (h : Fair limit tickets d) (hm : Moved limit d m notice d') :
    Fair limit (tickets ++ (ticket notice).toList) d' := by
  cases hm with
  | stay => simpa [ticket] using h
  | load hseen => simpa [ticket] using h.saw _ (fun current hc => by cases hc; exact Nat.le_refl _)
  | refuse hseen hlimit => simpa [ticket] using h.saw _ (fun current hc => by cases hc)
  | @grant t hseen hlimit =>
      refine ⟨hlimit, fun t' current hcur => ?_, ?_⟩
      · have hsaw : Fair limit tickets { d with seen := Function.update d.seen t none } :=
          h.saw t fun c hc => by cases hc
        exact Nat.le_succ_of_le (hsaw.seen_le t' current hcur)
      · rw [h.tickets_eq]
        exact List.range_succ.symm
  | retry hseen hlimit hmiss => simpa [ticket] using h.saw _ (fun current hc => by cases hc; exact Nat.le_refl _)

/-! ## Whole runs -/

abbrev TicketEvent (τ : Type) := Event (Dispenser τ) (Move τ) (Notice τ)

/-- The tickets handed out, in order. -/
def tickets (h : List (TicketEvent τ)) : List Nat := h.filterMap fun e => ticket e.result

variable {limit : Nat} {d : Dispenser τ} {h : List (TicketEvent τ)}

/-- **Run lemma**, from any state that keeps the order. -/
theorem Fair.run {before : List Nat} {d' : Dispenser τ} {allowed : List (TicketEvent τ) → Move τ → Prop}
    (hd : Fair limit before d) (hr : Run (step limit) allowed d h d') : Fair limit (before ++ tickets h) d' := by
  refine hr.invariant (fun h d' => Fair limit (before ++ tickets h) d') ?_ ?_
  · rwa [show tickets ([] : List (TicketEvent τ)) = [] from rfl, List.append_nil]
  · intro h d' m _ _ ih
    have hsnoc : tickets (h ++ [Event.of (step limit) d' m])
        = tickets h ++ (ticket (d'.step limit m).1).toList := filterMap_snoc ..
    rw [hsnoc, ← List.append_assoc]
    exact ih.moved (step_moved limit d' m)

theorem tickets_run {allowed : List (TicketEvent τ) → Move τ → Prop}
    (hr : Run (step limit) allowed new h d) : Fair limit (tickets h) d := by
  have hfair := (fair_new limit).run hr
  rwa [List.nil_append] at hfair

/-- Nobody is refused before the last ticket is gone. -/
theorem refused_full {allowed : List (TicketEvent τ) → Move τ → Prop}
    (hr : Run (step limit) allowed new h d) {m : Move τ} {t : τ} (hret : (d.step limit m).1 = some (t, none)) :
    d.next = limit := by
  have hfair := tickets_run hr
  have hm := step_moved limit d m
  rw [hret] at hm
  generalize (d.step limit m).2 = d' at hm
  cases hm with
  | refuse hseen hlimit =>
      have hle := hfair.seen_le _ _ hseen
      have hbound := hfair.bounded
      omega

/-! ## How often an exchange can fail -/

/-- Taker `t` tries its exchange, and others have moved the counter since it looked: the exchange fails, whether
    or not it would also have failed for no reason. -/
def overtaken (t : τ) (d : Dispenser τ) : Move τ → Bool
  | .call _ => false
  | .attempt t' _ => t' = t && (d.seen t).any (· ≠ d.next)

/-- How many of its exchanges `t` lost to other takers. -/
def lost (t : τ) (h : List (TicketEvent τ)) : Nat := h.countP fun e => overtaken t e.pre e.call

/-- A taker that saw what the counter holds is not overtaken. -/
theorem overtaken_next {t t' : τ} {spurious : Bool} (hseen : d.seen t = some d.next) :
    overtaken t d (.attempt t' spurious) = false := by
  simp [overtaken, hseen]

/-- A step in which `t` does not return: what it saw grows with every exchange that it loses. -/
theorem Moved.seen_grows {d' : Dispenser τ} {m : Move τ} {notice : Notice τ} (hm : Moved limit d m notice d') {t : τ}
    {current : Nat} (hseen : d.seen t = some current) (hle : current ≤ d.next)
    (hnot : ∀ result, notice ≠ some (t, result)) :
    ∃ current', d'.seen t = some current' ∧ current + (if overtaken t d m then 1 else 0) ≤ current' := by
  -- a step of another taker: `t` is not overtaken in it, and keeps what it saw
  have hother : ∀ {t' : τ} {saw : Option Nat}, t' ≠ t → Function.update d.seen t' saw t = some current :=
    fun ht => by rw [Function.update_of_ne (Ne.symm ht), hseen]
  have helse : ∀ {t' : τ} {spurious : Bool}, t' ≠ t → overtaken t d (.attempt t' spurious) = false :=
    fun ht => by simp [overtaken, ht]
  cases hm with
  | stay hidle =>
      refine ⟨current, hseen, ?_⟩
      have hnone : overtaken t d m = false := by
        cases m with
        | call t' => rfl
        | attempt t' spurious =>
            refine helse fun ht => ?_
            subst ht
            cases hseen.symm.trans (hidle t' spurious rfl)
      simp [hnone]
  | @load t' hnone =>
      have ht : t' ≠ t := by
        rintro rfl
        cases hseen.symm.trans hnone
      exact ⟨current, hother ht, by simp [overtaken]⟩
  | @refuse t' spurious saw hseen' hlimit =>
      have ht : t' ≠ t := fun ht => hnot none (by rw [ht])
      exact ⟨current, hother ht, by simp [helse ht]⟩
  | @grant t' hseen' hlimit =>
      have ht : t' ≠ t := fun ht => hnot (some d.next) (by rw [ht])
      exact ⟨current, hother ht, by simp [helse ht]⟩
  | @retry t' spurious saw hseen' hlimit hmiss =>
      by_cases ht : t' = t
      · subst ht
        refine ⟨d.next, Function.update_self .., ?_⟩
        by_cases hmoved : current = d.next
        · rw [overtaken_next (hmoved ▸ hseen)]
          simpa using hle
        · -- the counter is ahead of what `t` saw, which was loaded from it
          split <;> omega
      · exact ⟨current, hother ht, by simp [helse ht]⟩

/-- **Lost exchanges are bounded.** While a taker has not returned, it has lost at most as many exchanges as the
    counter has grown by since it started, and so at most the limit. -/
theorem lost_le {d' : Dispenser τ} {allowed : List (TicketEvent τ) → Move τ → Prop}
    {start : List (TicketEvent τ)} (hstart : Run (step limit) allowed new start d)
    (hr : Run (step limit) (fun _ _ => True) d h d') {t : τ} {current : Nat} (hseen : d.seen t = some current)
    (hnot : ∀ e ∈ h, ∀ result, e.result ≠ some (t, result)) :
    ∃ current', d'.seen t = some current' ∧ current + lost t h ≤ current' ∧ current' ≤ limit := by
  have hgoes : ∀ {h d'}, Run (step limit) (fun _ _ => True) d h d' → Fair limit (tickets start ++ tickets h) d' :=
    fun hr => (tickets_run hstart).run hr
  have hgrows : ∃ current', d'.seen t = some current' ∧ current + lost t h ≤ current' := by
    induction hr with
    | start => exact ⟨current, hseen, Nat.le_refl _⟩
    | @call h d' m hr ha ih =>
        obtain ⟨c, hc, hle⟩ := ih fun e he => hnot e (List.mem_append_left _ he)
        obtain ⟨c', hc', hle'⟩ := (step_moved limit d' m).seen_grows hc ((hgoes hr).seen_le t c hc)
          fun result => hnot _ (List.mem_append_right _ List.mem_cons_self) result
        refine ⟨c', hc', ?_⟩
        have hcount : lost t (h ++ [Event.of (step limit) d' m])
            = lost t h + if overtaken t d' m then 1 else 0 := by
          unfold lost
          rw [List.countP_append, List.countP_singleton]
          rfl
        omega
  obtain ⟨c, hc, hle⟩ := hgrows
  exact ⟨c, hc, hle, Nat.le_trans ((hgoes hr).seen_le t c hc) (hgoes hr).bounded⟩

end Dispenser

end Slope.Ticket
