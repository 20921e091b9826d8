import Slope.Crest.Mailbox
import Slope.Lib.Fifo

/-!
# `Crest.Handoff` — what the threads hand over, for every interleaving

A mailbox is a FIFO queue of capacity one. `Represents` reads the queue off a state: the state word says which
of four situations holds, in two of them exactly one thread is between its compare-exchange and its store,
and that thread alone touches the value. Each atomic step is a step of the queue — the store of `READY`
enqueues, the store of `FREE` dequeues — so the records that `take` returned are, in order, those whose
`publish` returned `Ok`, with at most one still in the mailbox.

A thread that moves alone does exactly what `Mailbox.publish` and `Mailbox.take` compute (`publish_alone`,
`take_alone`), in whatever order it copies the parts.
-/

namespace Slope.Crest

/-- The thread is between the compare-exchange that claimed the mailbox and the store that gives it up. -/
def MailboxPc.Inside {V Part : Type} {Cell : Part → Type} : MailboxPc V Cell → Prop
  | .writing _ _ => True
  | .reading _ _ => True
  | _ => False

namespace MailboxSystem

variable {τ V Part : Type} {Cell : Part → Type}

/-- **The mailbox as a queue of capacity one.** -/
inductive Represents (split : V ≃ ((p : Part) → Cell p)) (q : Fifo V 1) (s : MailboxSystem τ V Cell) : Prop where
  | free (hs : s.box.state = .free) (hout : ∀ t, ¬ (s.pc t).Inside) (hq : q.outstanding = [])
  | writing {t : τ} {v : V} {pending : Finset Part} (hs : s.box.state = .writing)
      (hpc : s.pc t = .writing v pending) (hout : ∀ t', t' ≠ t → ¬ (s.pc t').Inside)
      (hw : ∀ p, p ∉ pending → s.box.value p = split v p) (hq : q.outstanding = [])
  | ready {v : V} (hs : s.box.state = .ready) (hout : ∀ t, ¬ (s.pc t).Inside)
      (hv : s.box.value = split v) (hq : q.outstanding = [v])
  | reading {t : τ} {v : V} {pending : Finset Part} {buffer : (p : Part) → Cell p}
      (hs : s.box.state = .reading) (hpc : s.pc t = .reading pending buffer)
      (hout : ∀ t', t' ≠ t → ¬ (s.pc t').Inside) (hv : s.box.value = split v)
      (hb : ∀ p, p ∉ pending → buffer p = split v p) (hq : q.outstanding = [v])

/-- The record that waits in the mailbox. -/
def waiting (split : V ≃ ((p : Part) → Cell p)) (s : MailboxSystem τ V Cell) : List V :=
  if s.box.state = .ready then [split.symm s.box.value] else []

section Inversion

variable {split : V ≃ ((p : Part) → Cell p)} {q : Fifo V 1} {s : MailboxSystem τ V Cell} {t : τ}

theorem Represents.of_free (h : Represents split q s) (hs : s.box.state = .free) :
    (∀ t, ¬ (s.pc t).Inside) ∧ q.outstanding = [] := by
  cases h with
  | free hs' hout hq => exact ⟨hout, hq⟩
  | writing hs' => cases hs.symm.trans hs'
  | ready hs' => cases hs.symm.trans hs'
  | reading hs' => cases hs.symm.trans hs'

theorem Represents.of_ready (h : Represents split q s) (hs : s.box.state = .ready) :
    (∀ t, ¬ (s.pc t).Inside) ∧ ∃ v, s.box.value = split v ∧ q.outstanding = [v] := by
  cases h with
  | free hs' => cases hs.symm.trans hs'
  | writing hs' => cases hs.symm.trans hs'
  | ready hs' hout hv hq => exact ⟨hout, _, hv, hq⟩
  | reading hs' => cases hs.symm.trans hs'

/-- A thread that writes owns the mailbox, and the parts it has written are those of its record. -/
theorem Represents.of_writing (h : Represents split q s) {v : V} {pending : Finset Part}
    (hpc : s.pc t = .writing v pending) :
    s.box.state = .writing ∧ (∀ t', t' ≠ t → ¬ (s.pc t').Inside) ∧
      (∀ p, p ∉ pending → s.box.value p = split v p) ∧ q.outstanding = [] := by
  have hin : (s.pc t).Inside := by rw [hpc]; trivial
  cases h with
  | free hs hout => exact absurd hin (hout t)
  | @writing t₀ v₀ pending₀ hs hpc₀ hout hw hq =>
      obtain rfl : t = t₀ := by_contra fun hne => hout t hne hin
      obtain ⟨rfl, rfl⟩ := MailboxPc.writing.inj (hpc.symm.trans hpc₀)
      exact ⟨hs, hout, hw, hq⟩
  | ready hs hout => exact absurd hin (hout t)
  | @reading t₀ v₀ pending₀ buffer₀ hs hpc₀ hout hv hb hq =>
      obtain rfl : t = t₀ := by_contra fun hne => hout t hne hin
      cases hpc.symm.trans hpc₀

/-- A thread that reads owns the mailbox, and the parts it has read are those of the record in it. -/
theorem Represents.of_reading (h : Represents split q s) {pending : Finset Part}
    {buffer : (p : Part) → Cell p} (hpc : s.pc t = .reading pending buffer) :
    s.box.state = .reading ∧ (∀ t', t' ≠ t → ¬ (s.pc t').Inside) ∧
      ∃ v, s.box.value = split v ∧ (∀ p, p ∉ pending → buffer p = split v p) ∧ q.outstanding = [v] := by
  have hin : (s.pc t).Inside := by rw [hpc]; trivial
  cases h with
  | free hs hout => exact absurd hin (hout t)
  | @writing t₀ v₀ pending₀ hs hpc₀ hout hw hq =>
      obtain rfl : t = t₀ := by_contra fun hne => hout t hne hin
      cases hpc.symm.trans hpc₀
  | ready hs hout => exact absurd hin (hout t)
  | @reading t₀ v₀ pending₀ buffer₀ hs hpc₀ hout hv hb hq =>
      obtain rfl : t = t₀ := by_contra fun hne => hout t hne hin
      obtain ⟨rfl, rfl⟩ := MailboxPc.reading.inj (hpc.symm.trans hpc₀)
      exact ⟨hs, hout, v₀, hv, hb, hq⟩

/-- The record still owed is in the mailbox, intact, and once no thread is inside it waits there. -/
theorem Represents.owed (hrep : Represents split q s) :
    (∀ v ∈ q.outstanding, s.box.value = split v) ∧
      ((∀ t, ¬ (s.pc t).Inside) → q.outstanding = waiting split s) := by
  unfold waiting
  cases hrep with
  | free hs hout hq => exact ⟨by simp [hq], fun _ => by simp [hq, hs]⟩
  | @writing t v pending hs hpc hout hw hq =>
      exact ⟨by simp [hq], fun hnone => absurd (by rw [hpc]; trivial) (hnone t)⟩
  | ready hs hout hv hq => exact ⟨by simp [hq, hv], fun _ => by simp [hq, hs, hv]⟩
  | @reading t v pending buffer hs hpc hout hv hb hq =>
      exact ⟨by simp [hq, hv], fun hnone => absurd (by rw [hpc]; trivial) (hnone t)⟩

end Inversion

/-! ## Steps -/

section Steps

variable [DecidableEq τ] {split : V ≃ ((p : Part) → Cell p)} {q : Fifo V 1} {s : MailboxSystem τ V Cell}
  {t : τ} {pc : MailboxPc V Cell}

@[simp] theorem goto_box : (s.goto t pc).box = s.box := rfl

@[simp] theorem goto_pc_self : (s.goto t pc).pc t = pc := Function.update_self ..

@[simp] theorem goto_pc_ne {t' : τ} (h : t' ≠ t) : (s.goto t pc).pc t' = s.pc t' := Function.update_of_ne h ..

/-- A thread is outside after `t` moved outside, if it was outside or is `t`. -/
theorem outside_goto {t' : τ} (hout : t' ≠ t → ¬ (s.pc t').Inside) (hpc : ¬ pc.Inside) :
    ¬ ((s.goto t pc).pc t').Inside := by
  by_cases ht : t' = t
  · subst ht
    rwa [goto_pc_self]
  · rw [goto_pc_ne ht]
    exact hout ht

/-- **Frame.** A thread that moves outside the mailbox changes nothing for the queue. -/
theorem Represents.outside (h : Represents split q s) (hold : ¬ (s.pc t).Inside) (hpc : ¬ pc.Inside) :
    Represents split q (s.goto t pc) := by
  cases h with
  | free hs hout hq => exact .free hs (fun t' => outside_goto (fun _ => hout t') hpc) hq
  | @writing t₀ v pending hs hpc₀ hout hw hq =>
      have hne : t₀ ≠ t := by
        rintro rfl
        exact hold (by rw [hpc₀]; trivial)
      refine .writing hs (by rw [goto_pc_ne hne]; exact hpc₀) ?_ hw hq
      exact fun t' ht' => outside_goto (fun _ => hout t' ht') hpc
  | ready hs hout hv hq => exact .ready hs (fun t' => outside_goto (fun _ => hout t') hpc) hv hq
  | @reading t₀ v pending buffer hs hpc₀ hout hv hb hq =>
      have hne : t₀ ≠ t := by
        rintro rfl
        exact hold (by rw [hpc₀]; trivial)
      refine .reading hs (by rw [goto_pc_ne hne]; exact hpc₀) ?_ hv hb hq
      exact fun t' ht' => outside_goto (fun _ => hout t' ht') hpc

/-- A claim for writing: the queue is empty and `t` alone is inside. -/
theorem Represents.claimWrite [Fintype Part] (h : Represents split q s) (hs : s.box.state = .free) (v : V) :
    Represents split q ({ s with box := s.box.store .writing }.goto t (.writing v .univ)) := by
  obtain ⟨hout, hq⟩ := h.of_free hs
  refine .writing rfl goto_pc_self (fun t' ht' => ?_) (fun p hp => absurd (Finset.mem_univ p) hp) hq
  rw [goto_pc_ne ht']
  exact hout t'

/-- A claim for reading: the queue holds the record in the mailbox and `t` alone is inside. -/
theorem Represents.claimRead [Fintype Part] (h : Represents split q s) (hs : s.box.state = .ready)
    (blank : (p : Part) → Cell p) :
    Represents split q ({ s with box := s.box.store .reading }.goto t (.reading .univ blank)) := by
  obtain ⟨hout, v, hv, hq⟩ := h.of_ready hs
  refine .reading rfl goto_pc_self (fun t' ht' => ?_) hv (fun p hp => absurd (Finset.mem_univ p) hp) hq
  rw [goto_pc_ne ht']
  exact hout t'

/-- The store of `READY` enqueues the record, whole. -/
theorem Represents.publish (h : Represents split q s) {v : V} (hpc : s.pc t = .writing v ∅) :
    ∃ q', Fifo.Step q (.enqueue v) q' ∧
      Represents split q' ({ s with box := s.box.store .ready }.goto t .idle) := by
  obtain ⟨-, hout, hw, hq⟩ := h.of_writing hpc
  have hroom : q.published.length < q.taken + 1 := by
    have hlen := q.length_outstanding
    rw [hq, List.length_nil] at hlen
    omega
  have hvalue : s.box.value = split v := funext fun p => hw p (Finset.notMem_empty p)
  refine ⟨_, .enqueue hroom, .ready rfl ?_ hvalue ?_⟩
  · exact fun t' => outside_goto (hout t') id
  · rw [Fifo.outstanding_push, hq]
    rfl

/-- The store of `FREE` dequeues the record that was read, whole. -/
theorem Represents.vacate (h : Represents split q s) {buffer : (p : Part) → Cell p}
    (hpc : s.pc t = .reading ∅ buffer) :
    ∃ q', Fifo.Step q (.dequeue (split.symm buffer)) q' ∧
      Represents split q' ({ s with box := s.box.store .free }.goto t .idle) := by
  obtain ⟨-, hout, v, -, hb, hq⟩ := h.of_reading hpc
  obtain rfl : buffer = split v := funext fun p => hb p (Finset.notMem_empty p)
  obtain ⟨hlt, hget, hrest⟩ := Fifo.outstanding_cons hq
  rw [Equiv.symm_apply_apply]
  exact ⟨_, .dequeue hlt hget, .free rfl (fun t' => outside_goto (hout t') id) hrest⟩

variable [DecidableEq Part]

/-- Copying a part changes nothing for the queue. -/
theorem Represents.copyPart (h : Represents split q s) (p : Part) :
    Represents split q (s.copyPart split t p) := by
  unfold MailboxSystem.copyPart
  cases hpc : s.pc t with
  | idle => exact h
  | publishing v => exact h
  | taking => exact h
  | writing v pending =>
      obtain ⟨hs, hout, hw, hq⟩ := h.of_writing hpc
      by_cases hp : p ∈ pending
      · simp only [hp, if_true]
        refine .writing hs goto_pc_self (fun t' ht' => ?_) (fun p' hp' => ?_) hq
        · rw [goto_pc_ne ht']
          exact hout t' ht'
        · -- a part outside `pending.erase p` is `p`, just written, or was written before
          show Function.update s.box.value p (split v p) p' = split v p'
          by_cases hpp : p' = p
          · subst hpp
            exact Function.update_self ..
          · rw [Function.update_of_ne hpp]
            exact hw p' fun hin => hp' (Finset.mem_erase.mpr ⟨hpp, hin⟩)
      · simp only [hp, if_false]
        exact h
  | reading pending buffer =>
      obtain ⟨hs, hout, v, hv, hb, hq⟩ := h.of_reading hpc
      by_cases hp : p ∈ pending
      · simp only [hp, if_true]
        refine .reading hs goto_pc_self (fun t' ht' => ?_) hv (fun p' hp' => ?_) hq
        · rw [goto_pc_ne ht']
          exact hout t' ht'
        · by_cases hpp : p' = p
          · subst hpp
            rw [Function.update_self, hv]
          · rw [Function.update_of_ne hpp]
            exact hb p' fun hin => hp' (Finset.mem_erase.mpr ⟨hpp, hin⟩)
      · simp only [hp, if_false]
        exact h

variable [Fintype Part]

/-- What a reply means for the queue. -/
def label : Option (MailboxReply V) → Fifo.Label V
  | some (.published v (.ok _)) => .enqueue v
  | some (.taken (.ok (some v))) => .dequeue v
  | _ => .silent

/-- **Refinement step.** -/
theorem represents_step (blank : (p : Part) → Cell p) (h : Represents split q s) (a : MailboxAction τ V Part) :
    ∃ q', Fifo.Step q (label (s.step split blank a).1) q' ∧ Represents split q' (s.step split blank a).2 := by
  cases a with
  | publish t v =>
      cases hpc : s.pc t with
      | idle =>
          simp only [step, hpc]
          exact ⟨q, .silent, h.outside (by rw [hpc]; exact id) id⟩
      | _ =>
          simp only [step, hpc]
          exact ⟨q, .silent, h⟩
  | take t =>
      cases hpc : s.pc t with
      | idle =>
          simp only [step, hpc]
          exact ⟨q, .silent, h.outside (by rw [hpc]; exact id) id⟩
      | _ =>
          simp only [step, hpc]
          exact ⟨q, .silent, h⟩
  | copy t p => exact ⟨q, .silent, h.copyPart p⟩
  | advance t =>
      simp only [step, MailboxSystem.advance]
      cases hpc : s.pc t with
      | idle => exact ⟨q, .silent, h⟩
      | publishing v =>
          simp only [Mailbox.compareExchange]
          by_cases hs : s.box.state = .free
          · simp only [hs, if_true]
            exact ⟨q, .silent, h.claimWrite hs v⟩
          · simp only [hs, if_false]
            exact ⟨q, .silent, h.outside (by rw [hpc]; exact id) id⟩
      | writing v pending =>
          by_cases hp : pending = ∅
          · subst hp
            simp only [if_true]
            exact h.publish hpc
          · simp only [hp, if_false]
            exact ⟨q, .silent, h⟩
      | taking =>
          simp only [Mailbox.compareExchange]
          by_cases hs : s.box.state = .ready
          · simp only [hs, if_true]
            exact ⟨q, .silent, h.claimRead hs blank⟩
          · simp only [hs, if_false]
            exact ⟨q, .silent, h.outside (by rw [hpc]; exact id) id⟩
      | reading pending buffer =>
          by_cases hp : pending = ∅
          · subst hp
            simp only [if_true]
            exact h.vacate hpc
          · simp only [hp, if_false]
            exact ⟨q, .silent, h⟩

end Steps

/-! ## A call that runs alone -/

section Alone

variable [DecidableEq Part]

/-- The steps of a `publish`, with the parts written in the given order. -/
def publishSteps (t : τ) (v : V) (order : List Part) : List (MailboxAction τ V Part) :=
  .publish t v :: .advance t :: (order.map (.copy t) ++ [.advance t])

/-- The steps of a `take`, with the parts read in the given order. -/
def takeSteps (t : τ) (order : List Part) : List (MailboxAction τ V Part) :=
  .take t :: .advance t :: (order.map (.copy t) ++ [.advance t])

/-- The parts of `old` that are still pending, and of `new` the others. -/
def partly (pending : Finset Part) (old new : (p : Part) → Cell p) : (p : Part) → Cell p :=
  fun p => if p ∈ pending then old p else new p

theorem partly_univ [Fintype Part] (old new : (p : Part) → Cell p) : partly .univ old new = old :=
  funext fun p => if_pos (Finset.mem_univ p)

theorem partly_empty (old new : (p : Part) → Cell p) : partly ∅ old new = new :=
  funext fun p => if_neg (Finset.notMem_empty p)

theorem update_partly (pending : Finset Part) (old new : (p : Part) → Cell p) (p : Part) :
    Function.update (partly pending old new) p (new p) = partly (pending.erase p) old new := by
  funext p'
  by_cases hpp : p' = p
  · subst hpp
    simp [partly]
  · simp [partly, hpp]

variable [DecidableEq τ] [Fintype Part] {split : V ≃ ((p : Part) → Cell p)} {blank : (p : Part) → Cell p}
  {s : MailboxSystem τ V Cell} {t : τ}

/-- **Parts in any order.** `F pending` is the state with `pending` still to copy; copying every part, some of
    them perhaps more than once, leaves none. -/
theorem finalState_copies {F : Finset Part → MailboxSystem τ V Cell}
    (hcopy : ∀ pending p, (F pending).copyPart split t p = F (pending.erase p)) {order : List Part}
    {pending : Finset Part} (hall : ∀ p ∈ pending, p ∈ order) :
    finalState (fun s a => step split s blank a) (F pending) (order.map (.copy t)) = F ∅ := by
  induction order generalizing pending with
  | nil =>
      have hnone : pending = ∅ := Finset.eq_empty_of_forall_notMem fun p hp => by simpa using hall p hp
      rw [hnone]
      rfl
  | cons p order ih =>
      rw [List.map_cons, finalState]
      simp only [step, hcopy]
      refine ih fun p' hp' => ?_
      obtain ⟨hne, hin⟩ := Finset.mem_erase.mp hp'
      exact (List.mem_cons.mp (hall p' hin)).resolve_left hne

/-- A writer writes every part: the value is its record. -/
theorem finalState_writing {v : V} (s : MailboxSystem τ V Cell) {order : List Part} (hall : ∀ p, p ∈ order) :
    finalState (fun s a => step split s blank a) (s.goto t (.writing v .univ)) (order.map (.copy t))
      = { s with box := ⟨s.box.state, split v⟩ }.goto t (.writing v ∅) := by
  have hcopy : ∀ (pending : Finset Part) (p : Part),
      ({ s with box := ⟨s.box.state, partly pending s.box.value (split v)⟩ }.goto t
        (.writing v pending)).copyPart split t p
      = { s with box := ⟨s.box.state, partly (pending.erase p) s.box.value (split v)⟩ }.goto t
        (.writing v (pending.erase p)) := by
    intro pending p
    by_cases hp : p ∈ pending
    · simp only [copyPart, goto_pc_self, if_pos hp, goto_box, update_partly]
      simp only [goto, Function.update_idem]
    · simp only [copyPart, goto_pc_self, if_neg hp, Finset.erase_eq_of_notMem hp]
  have hdone : finalState (fun s a => step split s blank a) _ (order.map (.copy t)) = _ :=
    finalState_copies hcopy fun p (_ : p ∈ Finset.univ) => hall p
  rwa [partly_univ, partly_empty] at hdone

/-- A reader reads every part: its buffer is the value. -/
theorem finalState_reading (s : MailboxSystem τ V Cell) {order : List Part} (hall : ∀ p, p ∈ order) :
    finalState (fun s a => step split s blank a) (s.goto t (.reading .univ blank)) (order.map (.copy t))
      = s.goto t (.reading ∅ s.box.value) := by
  have hcopy : ∀ (pending : Finset Part) (p : Part),
      (s.goto t (.reading pending (partly pending blank s.box.value))).copyPart split t p
      = s.goto t (.reading (pending.erase p) (partly (pending.erase p) blank s.box.value)) := by
    intro pending p
    by_cases hp : p ∈ pending
    · simp only [copyPart, goto_pc_self, if_pos hp, goto_box, update_partly]
      simp only [goto, Function.update_idem]
    · simp only [copyPart, goto_pc_self, if_neg hp, Finset.erase_eq_of_notMem hp]
  have hdone : finalState (fun s a => step split s blank a) _ (order.map (.copy t)) = _ :=
    finalState_copies hcopy fun p (_ : p ∈ Finset.univ) => hall p
  rwa [partly_univ, partly_empty] at hdone

/-- Copies return nothing. -/
theorem replies_copies (s : MailboxSystem τ V Cell) (order : List Part) :
    (trace (fun s a => step split s blank a) s (order.map (.copy t))).filterMap Event.result = [] := by
  induction order generalizing s with
  | nil => rfl
  | cons p order ih => exact ih _

theorem finalState_idle (hpc : s.pc t = .idle) (order : List Part) :
    finalState (fun s a => step split s blank a) s (order.map (.copy t)) = s := by
  have hcopy : ∀ (pending : Finset Part) (p : Part), s.copyPart split t p = s := by
    intro pending p
    simp only [copyPart, hpc]
  exact finalState_copies (F := fun _ => s) hcopy fun p (hp : p ∈ ∅) => absurd hp (Finset.notMem_empty p)

/-- A call, its compare-exchange, the copies and its store, with what the second and the last step return. -/
theorem call_steps {i : MailboxAction τ V Part} {order : List Part} {s₁ s₂ s₃ s₄ : MailboxSystem τ V Cell}
    {r r' : Option (MailboxReply V)} (hcall : step split s blank i = (none, s₁))
    (hclaim : step split s₁ blank (.advance t) = (r, s₂))
    (hcopies : finalState (fun s a => step split s blank a) s₂ (order.map (.copy t)) = s₃)
    (hstore : step split s₃ blank (.advance t) = (r', s₄)) :
    finalState (fun s a => step split s blank a) s (i :: .advance t :: (order.map (.copy t) ++ [.advance t]))
        = s₄ ∧
      (trace (fun s a => step split s blank a) s
        (i :: .advance t :: (order.map (.copy t) ++ [.advance t]))).filterMap Event.result
        = r.toList ++ r'.toList := by
  constructor
  · simp only [finalState, finalState_append, hcall, hclaim, hcopies, hstore]
  · simp only [trace, trace_append, Event.of, hcall, hclaim, hcopies, hstore, List.filterMap_cons,
      List.filterMap_append, replies_copies, List.filterMap_nil, List.nil_append]
    cases r <;> cases r' <;> rfl

/-- **With nobody else moving, the steps of `publish` are the call itself.** -/
theorem publish_alone (hpc : s.pc t = .idle) {order : List Part} (hall : ∀ p, p ∈ order) (v : V) :
    finalState (fun s a => step split s blank a) s (publishSteps t v order)
        = { s with box := (s.box.publish (split v)).2 } ∧
      (trace (fun s a => step split s blank a) s (publishSteps t v order)).filterMap Event.result
        = [.published v (s.box.publish (split v)).1] := by
  have hcall : step split s blank (.publish t v) = (none, s.goto t (.publishing v)) := by
    simp only [step, hpc]
  have hback : Function.update s.pc t .idle = s.pc := by rw [← hpc, Function.update_eq_self]
  by_cases hs : s.box.state = .free
  · have hclaim : step split (s.goto t (.publishing v)) blank (.advance t)
        = (none, { s with box := s.box.store .writing }.goto t (.writing v .univ)) := by
      simp only [step, advance, goto_pc_self, goto_box, Mailbox.compareExchange, hs, if_true]
      simp only [goto, Function.update_idem]
    have hstore : step split ({ s with box := ⟨.writing, split v⟩ }.goto t (.writing v ∅)) blank (.advance t)
        = (some (.published v (.ok ())), { s with box := ⟨.ready, split v⟩ }) := by
      simp only [step, advance, goto_pc_self, if_true, goto_box, Mailbox.store]
      simp only [goto, Function.update_idem, hback]
    rw [Mailbox.publish_free hs]
    exact call_steps hcall hclaim (finalState_writing _ hall) hstore
  · have hclaim : step split (s.goto t (.publishing v)) blank (.advance t)
        = (some (.published v (.error .busy)), s) := by
      simp only [step, advance, goto_pc_self, goto_box, Mailbox.compareExchange, hs, if_false]
      simp only [goto, Function.update_idem, hback]
    have hstore : step split s blank (.advance t) = (none, s) := by simp only [step, advance, hpc]
    rw [Mailbox.publish_busy hs]
    exact call_steps hcall hclaim (finalState_idle hpc order) hstore

/-- **With nobody else moving, the steps of `take` are the call itself.** -/
theorem take_alone (hpc : s.pc t = .idle) {order : List Part} (hall : ∀ p, p ∈ order) :
    finalState (fun s a => step split s blank a) s (takeSteps t order) = { s with box := s.box.take.2 } ∧
      (trace (fun s a => step split s blank a) s (takeSteps t order)).filterMap Event.result
        = [.taken (s.box.take.1.map (Option.map split.symm))] := by
  have hcall : step split s blank (.take t) = (none, s.goto t .taking) := by
    simp only [step, hpc]
  have hback : Function.update s.pc t .idle = s.pc := by rw [← hpc, Function.update_eq_self]
  by_cases hs : s.box.state = .ready
  · have hclaim : step split (s.goto t .taking) blank (.advance t)
        = (none, { s with box := s.box.store .reading }.goto t (.reading .univ blank)) := by
      simp only [step, advance, goto_pc_self, goto_box, Mailbox.compareExchange, hs, if_true]
      simp only [goto, Function.update_idem]
    have hstore : step split ({ s with box := s.box.store .reading }.goto t (.reading ∅ s.box.value)) blank
        (.advance t) = (some (.taken (.ok (some (split.symm s.box.value)))),
          { s with box := s.box.store .free }) := by
      simp only [step, advance, goto_pc_self, if_true, goto_box, Mailbox.store]
      simp only [goto, Function.update_idem, hback]
    rw [Mailbox.take_ready hs]
    exact call_steps hcall hclaim (finalState_reading _ hall) hstore
  · have hclaim : step split (s.goto t .taking) blank (.advance t) = (some (.taken (.ok none)), s) := by
      simp only [step, advance, goto_pc_self, goto_box, Mailbox.compareExchange, hs, if_false]
      simp only [goto, Function.update_idem, hback]
    have hstore : step split s blank (.advance t) = (none, s) := by simp only [step, advance, hpc]
    rw [Mailbox.take_empty hs]
    exact call_steps hcall hclaim (finalState_idle hpc order) hstore

end Alone

/-! ## Whole runs -/

abbrev MailboxEvent (τ V : Type) {Part : Type} (Cell : Part → Type) :=
  Event (MailboxSystem τ V Cell) (MailboxAction τ V Part) (Option (MailboxReply V))

/-- The records whose `publish` returned `Ok`, oldest first. -/
def published (h : List (MailboxEvent τ V Cell)) : List V := h.filterMap fun e => (label e.result).enqueued

/-- The records that `take` returned, oldest first. -/
def taken (h : List (MailboxEvent τ V Cell)) : List V := h.filterMap fun e => (label e.result).dequeued

section Runs

variable [DecidableEq τ] [DecidableEq Part] [Fintype Part] {split : V ≃ ((p : Part) → Cell p)}
  {blank : (p : Part) → Cell p} {box : Mailbox V} {h : List (MailboxEvent τ V Cell)}
  {s : MailboxSystem τ V Cell}

/-- **Refinement along runs.** -/
theorem represents_run (hbox : box.state = .free)
    (hr : Run (fun s a => step split s blank a) (fun _ _ => True) (.new split box) h s) :
    ∃ q : Fifo V 1, Represents split q s ∧ published h = q.published ∧
      taken h = q.published.take q.taken := by
  refine hr.invariant (fun h s => ∃ q : Fifo V 1, Represents split q s ∧ published h = q.published ∧
      taken h = q.published.take q.taken) ?_ ?_
  · exact ⟨.empty, .free hbox (fun _ => id) rfl, rfl, rfl⟩
  · rintro h s a - - ⟨q, hrep, hpub, htak⟩
    obtain ⟨q', hstep, hrep'⟩ := represents_step blank hrep a
    refine ⟨q', hrep', ?_, ?_⟩
    · unfold published at hpub ⊢
      rw [filterMap_snoc, hpub, hstep.published_eq]
      rfl
    · unfold taken at htak ⊢
      rw [filterMap_snoc, htak, hstep.taken_eq]
      rfl

end Runs

/-- **Nothing is lost, mixed, repeated or reordered.** For each of the page's three mailboxes, any threads
    calling `publish` and `take`, and every interleaving of their atomic steps, however the copies of the
    records are split: the records published are the records taken, in the same order, followed by at most one
    more, and that one stands in the mailbox, complete; once all calls have returned it waits there. -/
theorem mailbox_hands_over (kind : PageMailbox) {τ Part : Type} [DecidableEq τ] [DecidableEq Part]
    [Fintype Part] {Cell : Part → Type} (split : kind.Record ≃ ((p : Part) → Cell p))
    (blank : (p : Part) → Cell p) {h : List (MailboxEvent τ kind.Record Cell)}
    {s : MailboxSystem τ kind.Record Cell}
    (hr : Run (fun s a => step split s blank a) (fun _ _ => True) (.new split kind.new) h s) :
    (∃ owed : Option kind.Record, published h = taken h ++ owed.toList ∧
      ∀ v ∈ owed, s.box.value = split v) ∧
      ((∀ t, s.pc t = .idle) → published h = taken h ++ waiting split s) := by
  have hfree : kind.new.state = .free := by cases kind <;> rfl
  obtain ⟨q, hrep, hpub, htak⟩ := represents_run hfree hr
  obtain ⟨hvalue, hwait⟩ := hrep.owed
  have hsplit : published h = taken h ++ q.outstanding := by
    rw [hpub, htak]
    exact (List.take_append_drop ..).symm
  refine ⟨?_, ?_⟩
  · have hone := q.length_outstanding_le
    rcases hout : q.outstanding with _ | ⟨v, _ | ⟨v', rest⟩⟩
    · exact ⟨none, by rw [hsplit, hout]; rfl, by simp⟩
    · refine ⟨some v, by rw [hsplit, hout]; rfl, fun v' hv' => ?_⟩
      obtain rfl := Option.mem_some_iff.mp hv'
      exact hvalue v (by rw [hout]; exact List.mem_singleton_self v)
    · rw [hout] at hone
      simp at hone
  · intro hidle
    rw [hsplit, hwait fun t => by rw [hidle t]; exact id]

/-- The snapshot cell with its record copied in one piece. -/
def snapshotWhole : PageMailbox.snapshot.Record ≃ (Unit → QuantumSystemSnapshot) :=
  (Equiv.funUnique Unit QuantumSystemSnapshot).symm

def handoverStep (s : MailboxSystem Bool PageMailbox.snapshot.Record fun _ : Unit => QuantumSystemSnapshot)
    (a : MailboxAction Bool PageMailbox.snapshot.Record Unit) :=
  step snapshotWhole s (fun _ => QuantumSystemSnapshot.empty) a

/-- The second thread asks while the first still writes, and asks again later; a second publication comes
    while the record is being read. -/
def handoverCalls : List (MailboxAction Bool PageMailbox.snapshot.Record Unit) :=
  [.publish false (.stamped 1 7), .advance false, .take true, .advance true, .copy false (), .advance false,
    .take true, .advance true, .publish false (.stamped 2 8), .advance false, .copy true (), .advance true]

/-- The second publication is refused because the reader is inside, and the record taken is the first. -/
theorem mailbox_hands_over_sample :
    taken (trace handoverStep (.new snapshotWhole PageMailbox.snapshot.new) handoverCalls)
        = [.stamped 1 7] ∧
      published (trace handoverStep (.new snapshotWhole PageMailbox.snapshot.new) handoverCalls)
        = taken (trace handoverStep (.new snapshotWhole PageMailbox.snapshot.new) handoverCalls) ++ [] := by
  have hr := Run.replay handoverStep (.new snapshotWhole PageMailbox.snapshot.new) handoverCalls
  have hidle := (mailbox_hands_over .snapshot snapshotWhole _ hr).2 fun t => by cases t <;> rfl
  exact ⟨rfl, hidle⟩

end MailboxSystem

end Slope.Crest
