import Slope.Kairos.Decode
import Slope.Sync.Serialization
import Slope.Syscall

/-!
# `Kairos.Query` — many threads on the one query slot of a process

`TopologySnapshot::query` and `query_ref` share one process-wide record that the kernel fills. A query claims
the slot with one compare-exchange, or is refused; it hands the record to the kernel, parses what it finds
there, and, for `query_ref`, replaces the process-wide snapshot; its guard gives the slot up on every path.
That is one attempt at the lock of a cell and an operation under it, so the slot is a cell of `Sync`, and its
threads are participants.

The kernel is adversarial: while it has the record it may write to it any number of times and as little of it
as it likes, and it may do so and then fail.

`query` returns its snapshot by value. `query_ref` returns a reference into the process-wide storage: every such
reference points to the same place, and what it shows is what the storage holds when it is read.
-/

namespace Slope.Kairos

open Sync TopologySnapshot

/-- What the claim guards: the record of `RawQuerySlot`, and `SNAPSHOT_STORAGE`, which only `query_ref` writes
    and does so before its guard is dropped. -/
structure QuerySlot (nc nd nm : Nat) where
  reply : RawTopologyReply nc nd nm
  storage : Option (TopologySnapshot nc nd nm)

/-- What the kernel does with one query: its writes to the record, in order, and the word in `rax`. -/
structure KernelAnswer (nc nd nm : Nat) where
  writes : List (RawTopologyReply nc nd nm → RawTopologyReply nc nd nm)
  rax : U64

inductive QueryCall where
  | query
  | queryRef
  deriving DecidableEq

section

variable {nc nd nm : Nat}

/-- The record after the kernel's writes. -/
def KernelAnswer.overlay (a : KernelAnswer nc nd nm) (reply : RawTopologyReply nc nd nm) :
    RawTopologyReply nc nd nm :=
  a.writes.foldl (fun reply write => write reply) reply

/-- What a query makes of the kernel's answer, on the record as it found it. -/
def KernelAnswer.outcome (a : KernelAnswer nc nd nm) (reply : RawTopologyReply nc nd nm) :
    Checked (TopologySnapshot nc nd nm) :=
  match syscallResult a.rax with
  | .error e => .error (.failed (.syscall e.code))
  | .ok _ => fromRaw (a.overlay reply)

/-- What a query returns when it succeeds: a snapshot of its own, or a `&'static` reference into
    `SNAPSHOT_STORAGE`. There is one such place, so there is one such reference. -/
inductive QueryValue (nc nd nm : Nat) where
  | snapshot (s : TopologySnapshot nc nd nm)
  | reference

/-- What the value shows, read while the storage holds `storage`. -/
def QueryValue.shows (storage : Option (TopologySnapshot nc nd nm)) :
    QueryValue nc nd nm → Option (TopologySnapshot nc nd nm)
  | snapshot s => some s
  | reference => storage

abbrev QueryReply (nc nd nm : Nat) := Checked (QueryValue nc nd nm)

namespace QueryCall

/-- `Self::from_raw(slot.reply())`, and the store of `query_ref`. -/
def parse (q : QueryCall) : Operation (QuerySlot nc nd nm) (QueryReply nc nd nm) :=
  .part id fun slot =>
    match q, fromRaw slot.reply with
    | _, .error e => .done (.error e)
    | query, .ok s => .done (.ok (.snapshot s))
    | queryRef, .ok s => .part (fun slot => { slot with storage := some s }) fun _ => .done (.ok .reference)

/-- The kernel's writes, one part each, and then the rest. -/
def underKernel (rest : Operation (QuerySlot nc nd nm) (QueryReply nc nd nm)) :
    List (RawTopologyReply nc nd nm → RawTopologyReply nc nd nm) →
      Operation (QuerySlot nc nd nm) (QueryReply nc nd nm)
  | [] => rest
  | write :: writes =>
    .part (fun slot => { slot with reply := write slot.reply }) fun _ => underKernel rest writes

/-- What a query does between its claim and the drop of its guard. -/
def operation (q : QueryCall) (a : KernelAnswer nc nd nm) : Operation (QuerySlot nc nd nm) (QueryReply nc nd nm) :=
  underKernel
    (match syscallResult a.rax with
      | .error e => .done (.error (.failed (.syscall e.code)))
      | .ok _ => q.parse)
    a.writes

/-- The call: `acquire` tries once. -/
def call (q : QueryCall) (a : KernelAnswer nc nd nm) : PairCall (QuerySlot nc nd nm) (QueryReply nc nd nm) :=
  .tryMutate (q.operation a)

/-! ## A query alone -/

/-- How the call hands a snapshot to its caller. -/
def value : QueryCall → TopologySnapshot nc nd nm → QueryValue nc nd nm
  | query, s => .snapshot s
  | queryRef, _ => .reference

/-- What is in the storage after a query with the given outcome. -/
def stored (q : QueryCall) (outcome : Checked (TopologySnapshot nc nd nm))
    (storage : Option (TopologySnapshot nc nd nm)) : Option (TopologySnapshot nc nd nm) :=
  match q, outcome with
  | queryRef, .ok s => some s
  | _, _ => storage

theorem underKernel_apply (rest : Operation (QuerySlot nc nd nm) (QueryReply nc nd nm))
    (writes : List (RawTopologyReply nc nd nm → RawTopologyReply nc nd nm)) (slot : QuerySlot nc nd nm) :
    (underKernel rest writes).apply slot
      = rest.apply { slot with reply := writes.foldl (fun reply write => write reply) slot.reply } := by
  induction writes generalizing slot with
  | nil => rfl
  | cons write writes ih => exact ih _

theorem parse_apply (q : QueryCall) (slot : QuerySlot nc nd nm) :
    q.parse.apply slot
      = ((fromRaw slot.reply).map q.value,
          { slot with storage := q.stored (fromRaw slot.reply) slot.storage }) := by
  unfold parse stored
  cases q with
  | query =>
      cases hraw : fromRaw slot.reply <;> simp only [Operation.apply, id, hraw] <;> rfl
  | queryRef =>
      cases hraw : fromRaw slot.reply <;> simp only [Operation.apply, id, hraw] <;> rfl

/-- **A query alone**: what it returns, and what it leaves. -/
theorem operation_apply (q : QueryCall) (a : KernelAnswer nc nd nm) (slot : QuerySlot nc nd nm) :
    (q.operation a).apply slot
      = ((a.outcome slot.reply).map q.value,
          ⟨a.overlay slot.reply, q.stored (a.outcome slot.reply) slot.storage⟩) := by
  unfold operation KernelAnswer.outcome
  rw [underKernel_apply]
  cases hres : syscallResult a.rax with
  | error e =>
      cases q <;> rfl
  | ok n => exact parse_apply q _

/-! ## A plain query leaves the storage alone -/

/-- No part of the operation changes the storage. -/
def Frugal : Operation (QuerySlot nc nd nm) (QueryReply nc nd nm) → Prop
  | .done _ => True
  | .part write next => (∀ slot, (write slot).storage = slot.storage) ∧ ∀ slot, Frugal (next slot)

theorem frugal_underKernel {rest : Operation (QuerySlot nc nd nm) (QueryReply nc nd nm)} (hrest : Frugal rest)
    (writes : List (RawTopologyReply nc nd nm → RawTopologyReply nc nd nm)) : Frugal (underKernel rest writes) := by
  induction writes with
  | nil => exact hrest
  | cons write writes ih => exact ⟨fun _ => rfl, fun _ => ih⟩

theorem frugal_query (a : KernelAnswer nc nd nm) : Frugal (query.operation a) := by
  refine frugal_underKernel ?_ a.writes
  cases syscallResult a.rax with
  | error e => exact trivial
  | ok n =>
      refine ⟨fun _ => rfl, ?_⟩
      intro slot
      show Frugal (match query, fromRaw slot.reply with
        | _, .error e => .done (.error e)
        | query, .ok s => .done (.ok (.snapshot s))
        | queryRef, .ok s => .part (fun slot => { slot with storage := some s }) fun _ => .done (.ok .reference))
      cases fromRaw slot.reply with
      | error e => exact trivial
      | ok s => exact trivial

/-- Parts of a frugal operation. -/
theorem Frugal.ran {op rest : Operation (QuerySlot nc nd nm) (QueryReply nc nd nm)}
    {slot slot' : QuerySlot nc nd nm} (hop : Frugal op) (h : op.Ran slot rest slot') :
    Frugal rest ∧ slot'.storage = slot.storage := by
  induction h with
  | start => exact ⟨hop, rfl⟩
  | part h ih => exact ⟨ih.1.2 _, (ih.1.1 _).trans ih.2⟩

end QueryCall

end

/-! ## Every interleaving -/

section

variable {τ : Type} [DecidableEq τ] {nc nd nm : Nat}

/-- The threads that query, on one slot. -/
abbrev QueryThreads (τ : Type) (nc nd nm : Nat) := Participants τ (QuerySlot nc nd nm) (QueryReply nc nd nm)

abbrev QueryEvent (τ : Type) (nc nd nm : Nat) := Participants.PairEvent τ (QuerySlot nc nd nm) (QueryReply nc nd nm)

/-- Threads do nothing with the slot but query. -/
def OnlyQueries : PairAction τ (QuerySlot nc nd nm) (QueryReply nc nd nm) → Prop
  | .call _ c => ∃ (q : QueryCall) (a : KernelAnswer nc nd nm), c = q.call a
  | .advance _ => True

/-- The snapshot that a returning `query_ref` has left behind its reference. -/
def writtenBy (e : QueryEvent τ nc nd nm) : Option (TopologySnapshot nc nd nm) :=
  match e.result with
  | some (.returned _ _ (.ok (.ok .reference))) => e.post.cell.data.storage
  | _ => none

/-- These snapshots, in the order of the returns. -/
def written (h : List (QueryEvent τ nc nd nm)) : List (TopologySnapshot nc nd nm) := h.filterMap writtenBy

/-- Every call under way is a query. -/
def Querying (s : QueryThreads τ nc nd nm) : Prop :=
  ∀ t c, (s.pc t).current = some c → ∃ (q : QueryCall) (a : KernelAnswer nc nd nm), c = q.call a

variable {s s' : QueryThreads τ nc nd nm} {t : τ}

/-- The call that a thread is in after its own step: the one it was in, or the one it just made. -/
theorem Querying.moved {notice : Option (PairNotice τ (QuerySlot nc nd nm) (QueryReply nc nd nm))}
    (h : Querying s) (hm : Participants.Moved s t notice s')
    (hcall : ∀ c, s.pc t = .idle → (s'.pc t).current = some c →
      ∃ (q : QueryCall) (a : KernelAnswer nc nd nm), c = q.call a) : Querying s' := by
  intro t' c hcur
  by_cases ht : t' = t
  · subst ht
    cases hm with
    | stay => exact h _ _ hcur
    | call call hpc => exact hcall c hpc hcur
    | busy hpc => rw [Participants.goto_pc_self] at hcur; cases hcur
    | @miss call attempts hpc hlock =>
        rw [Participants.goto_pc_self] at hcur
        exact h _ _ (by rw [hpc]; exact hcur)
    | @enter call attempts hpc hlock =>
        rw [Participants.goto_pc_self, PairPc.current_of_holds (call.running_enter s.cell.data).holds] at hcur
        exact h _ _ (by rw [hpc]; exact hcur)
    | part hin hpc hrun =>
        rw [Participants.goto_pc_self, PairPc.current_of_holds hpc] at hcur
        exact h _ _ (by rw [PairPc.current_of_holds hin]; exact hcur)
    | leave => rw [Participants.goto_pc_self] at hcur; cases hcur
  · rw [hm.others ht] at hcur
    exact h _ _ hcur

/-- A step keeps what is under way. -/
theorem Querying.step (h : Querying s) {x : PairAction τ (QuerySlot nc nd nm) (QueryReply nc nd nm)}
    (hx : OnlyQueries x) : Querying (s.step x).2 := by
  refine h.moved (Participants.step_moved s x) fun c hidle hcur => ?_
  cases x with
  | call t c' =>
      have hidle' : s.pc t = .idle := hidle
      have hcur' : ((s.step (.call t c')).2.pc t).current = some c := hcur
      simp only [Participants.step, hidle', Participants.goto_pc_self, PairPc.current] at hcur'
      cases hcur'
      exact hx
  | advance t =>
      have hidle' : s.pc t = .idle := hidle
      have hcur' : ((s.step (.advance t)).2.pc t).current = some c := hcur
      simp only [Participants.step, Participants.advance, hidle', PairPc.current] at hcur'
      cases hcur'

variable {slot : QuerySlot nc nd nm} {h : List (QueryEvent τ nc nd nm)}

/-- What a query under the claim returns and leaves, on the slot that the queries before it left. -/
theorem call_answer (q : QueryCall) (a : KernelAnswer nc nd nm) (slot : QuerySlot nc nd nm) :
    (q.call a).answer slot = (a.outcome slot.reply).map q.value := by
  show ((q.operation a).apply slot).1 = _
  rw [QueryCall.operation_apply]

theorem call_apply (q : QueryCall) (a : KernelAnswer nc nd nm) (slot : QuerySlot nc nd nm) :
    (q.call a).apply slot = ⟨a.overlay slot.reply, q.stored (a.outcome slot.reply) slot.storage⟩ := by
  show ((q.operation a).apply slot).2 = _
  rw [QueryCall.operation_apply]

/-- The query that returns in a step, what it returns, and what it leaves in the storage. -/
theorem returned_query {notice : Option (PairNotice τ (QuerySlot nc nd nm) (QueryReply nc nd nm))}
    (hq : Querying s) (hacc : s.Accounted slot (Participants.entered h) (Participants.completed h))
    (hm : Participants.Moved s t notice s') {t' : τ}
    {c : PairCall (QuerySlot nc nd nm) (QueryReply nc nd nm)} {r : QueryReply nc nd nm}
    (hret : notice = some (.returned t' c (.ok r))) :
    ∃ (q : QueryCall) (a : KernelAnswer nc nd nm), c = q.call a ∧
      r = (a.outcome (applied slot (Participants.completed h)).reply).map q.value ∧
      s'.cell.data = (q.call a).apply (applied slot (Participants.completed h)) := by
  subst hret
  cases hm with
  | leave hin hrun =>
      obtain ⟨q, a, rfl⟩ := hq _ _ (PairPc.current_of_holds hin)
      obtain ⟨hdata, hanswer⟩ := hrun _ (hacc.running hin)
      exact ⟨q, a, rfl, hanswer.trans (call_answer q a _), hdata⟩

/-- A plain query under way has not changed the storage. -/
theorem query_keeps_storage {a : KernelAnswer nc nd nm} {slot slot' : QuerySlot nc nd nm}
    {pc : PairPc (QuerySlot nc nd nm) (QueryReply nc nd nm)}
    (h : (QueryCall.query.call a).Running slot pc slot') : slot'.storage = slot.storage := by
  cases h with
  | mutating hcall hran =>
      rcases hcall with hop | ⟨n, hop⟩
      · cases hop
        exact ((QueryCall.frugal_query a).ran hran).2
      · cases hop
  | observing hcall hran => rfl

/-- What the run has to tell about the storage and about refusals. -/
structure Queried (slot : QuerySlot nc nd nm) (h : List (QueryEvent τ nc nd nm)) (s : QueryThreads τ nc nd nm) :
    Prop where
  querying : Querying s
  storage : (applied slot (Participants.completed h)).storage = (written h).getLast?
  refused : ∀ t c, s.pc t = .locking c 0 →
    ∃ e ∈ h, e.pre.pc t = .locking c 1 ∧ ∃ t', t' ≠ t ∧ (e.pre.pc t').holds ≠ none

omit [DecidableEq τ] in
/-- The storage follows the last `query_ref` that returned a reference. -/
theorem storage_returned (q : QueryCall) (a : KernelAnswer nc nd nm)
    {done : List (τ × PairCall (QuerySlot nc nd nm) (QueryReply nc nd nm))} {ws : List (TopologySnapshot nc nd nm)}
    (hws : (applied slot done).storage = ws.getLast?) {e : QueryEvent τ nc nd nm} (t : τ)
    (hret : e.result = some (.returned t (q.call a) (.ok ((a.outcome (applied slot done).reply).map q.value))))
    (hpost : e.post.cell.data = (q.call a).apply (applied slot done)) :
    (applied slot (done ++ [(t, q.call a)])).storage = (ws ++ (writtenBy e).toList).getLast? := by
  rw [applied_snoc]
  rw [call_apply] at hpost ⊢
  unfold writtenBy
  rw [hret, hpost]
  cases houtcome : a.outcome (applied slot done).reply with
  | error e => cases q <;> simpa [QueryCall.stored, Except.map] using hws
  | ok s =>
      cases q with
      | query => simpa [QueryCall.stored, QueryCall.value, Except.map] using hws
      | queryRef => simp [QueryCall.stored, QueryCall.value, Except.map]

theorem Queried.storage_step (hinv : Queried slot h s)
    (hacc : s.Accounted slot (Participants.entered h) (Participants.completed h))
    (x : PairAction τ (QuerySlot nc nd nm) (QueryReply nc nd nm)) :
    (applied slot (Participants.completed (h ++ [Event.of Participants.step s x]))).storage
      = (written (h ++ [Event.of Participants.step s x])).getLast? := by
  have hm := Participants.step_moved s x
  unfold Participants.completed written
  rw [filterMap_snoc, filterMap_snoc]
  show (applied slot (Participants.completed h ++ ((s.step x).1.bind PairNotice.completed).toList)).storage
    = (written h ++ (writtenBy (Event.of Participants.step s x)).toList).getLast?
  have hsame : (applied slot (Participants.completed h ++ [])).storage = (written h ++ []).getLast? := by
    rw [List.append_nil, List.append_nil]
    exact hinv.storage
  have hresult : (Event.of Participants.step s x).result = (s.step x).1 := rfl
  cases hnotice : (s.step x).1 with
  | none => simpa [writtenBy, hresult, hnotice] using hsame
  | some notice =>
      cases notice with
      | locked t c => simpa [writtenBy, hresult, hnotice, PairNotice.completed] using hsame
      | returned t c result =>
          cases result with
          | error e => simpa [writtenBy, hresult, hnotice, PairNotice.completed] using hsame
          | ok r =>
              obtain ⟨q, a, rfl, rfl, hdata⟩ := returned_query hinv.querying hacc hm hnotice
              exact storage_returned q a hinv.storage t (hresult.trans hnotice) hdata

/-- How a thread comes to have no attempt left. -/
theorem no_attempts_left {notice : Option (PairNotice τ (QuerySlot nc nd nm) (QueryReply nc nd nm))}
    (hm : Participants.Moved s t notice s') {c : PairCall (QuerySlot nc nd nm) (QueryReply nc nd nm)}
    (hpc' : s'.pc t = .locking c 0) :
    s.pc t = .locking c 0 ∨ (s.pc t = .locking c 1 ∧ s.cell.locked = true) ∨ c.attempts = 0 := by
  cases hm with
  | stay => exact .inl hpc'
  | call call hpc =>
      rw [Participants.goto_pc_self] at hpc'
      obtain ⟨rfl, hzero⟩ := PairPc.locking.inj hpc'
      exact .inr (.inr hzero)
  | busy hpc => rw [Participants.goto_pc_self] at hpc'; cases hpc'
  | miss hpc hlock =>
      rw [Participants.goto_pc_self] at hpc'
      obtain ⟨rfl, rfl⟩ := PairPc.locking.inj hpc'
      exact .inr (.inl ⟨hpc, hlock⟩)
  | @enter call attempts hpc hlock =>
      have hin := (call.running_enter s.cell.data).holds
      rw [Participants.goto_pc_self] at hpc'
      rw [hpc'] at hin
      cases hin
  | part hin hpc hrun =>
      rw [Participants.goto_pc_self] at hpc'
      rw [hpc'] at hpc
      cases hpc
  | leave => rw [Participants.goto_pc_self] at hpc'; cases hpc'

omit [DecidableEq τ] in
/-- A claimed slot has a query inside, and a thread at its compare-exchange is not it. -/
theorem claimed_by_other (hacc : s.Accounted slot (Participants.entered h) (Participants.completed h))
    (hlock : s.cell.locked = true) (hout : (s.pc t).holds = none) :
    ∃ t', t' ≠ t ∧ (s.pc t').holds ≠ none := by
  obtain ⟨holder, hserial, -⟩ := hacc
  cases hserial with
  | free hfree => cases hlock.symm.trans hfree
  | @held t' call _ hothers hrun =>
      refine ⟨t', ?_, by rw [hrun.holds]; simp⟩
      rintro rfl
      cases hout.symm.trans hrun.holds

/-- A refused query met another one inside. -/
theorem Queried.refused_step (hinv : Queried slot h s)
    (hacc : s.Accounted slot (Participants.entered h) (Participants.completed h))
    {x : PairAction τ (QuerySlot nc nd nm) (QueryReply nc nd nm)} (hx : OnlyQueries x) {t : τ}
    {c : PairCall (QuerySlot nc nd nm) (QueryReply nc nd nm)} (hpc : (s.step x).2.pc t = .locking c 0) :
    ∃ e ∈ h ++ [Event.of Participants.step s x], e.pre.pc t = .locking c 1 ∧
      ∃ t', t' ≠ t ∧ (e.pre.pc t').holds ≠ none := by
  have hm := Participants.step_moved s x
  have hold : s.pc t = .locking c 0 ∨ (s.pc t = .locking c 1 ∧ s.cell.locked = true) ∨ c.attempts = 0 := by
    by_cases ht : t = x.participant
    · subst ht
      exact no_attempts_left hm hpc
    · exact .inl ((hm.others ht).symm.trans hpc)
  rcases hold with hbefore | ⟨htry, hlock⟩ | hzero
  · obtain ⟨e, he, hrest⟩ := hinv.refused t c hbefore
    exact ⟨e, List.mem_append_left _ he, hrest⟩
  · have hout : (s.pc t).holds = none := by rw [htry]; rfl
    exact ⟨_, List.mem_append_right _ List.mem_cons_self, htry, claimed_by_other hacc hlock hout⟩
  · obtain ⟨q, a, rfl⟩ := hinv.querying.step hx t c (by rw [hpc]; rfl)
    cases hzero

/-- **Run lemma.** -/
theorem queried_run (hnone : slot.storage = none)
    (hr : Run Participants.step (fun _ x => OnlyQueries x) (.new slot) h s) : Queried slot h s := by
  refine hr.invariant (Queried slot) ⟨?_, hnone, ?_⟩ ?_
  · intro t c hcur
    cases hcur
  · intro t c hpc
    cases hpc
  · intro h s x hr hx hinv
    have hacc := Participants.accounted_run hr
    exact ⟨hinv.querying.step hx, hinv.storage_step hacc x, fun t c hpc => hinv.refused_step hacc hx hpc⟩

/-- **Queries are exclusive.** For any threads that query, every interleaving of their steps with each other and
    with the kernel's writes, and every kernel: at most one query is between its claim and the drop of its
    guard; a query that returns anything but `Busy` makes of the record what the kernel's answer to that very
    query makes of it, on top of what the queries that returned before it left there, and when its guard is
    dropped the value it returns shows that snapshot; one that returns `Busy` met another query inside and
    changed nothing; and unless a `query_ref` is inside, every reference that was ever returned shows the
    snapshot of the last `query_ref` that returned one. -/
theorem queries_exclusive (hnone : slot.storage = none)
    (hr : Run Participants.step (fun _ x => OnlyQueries x) (.new slot) h s) :
    (∀ t t', (s.pc t).holds ≠ none → (s.pc t').holds ≠ none → t = t') ∧
    (∀ h₁ e h₂ t c r, h = h₁ ++ e :: h₂ → e.result = some (.returned t c (.ok r)) →
      ∃ (q : QueryCall) (a : KernelAnswer nc nd nm) (outcome : Checked (TopologySnapshot nc nd nm)),
        c = q.call a ∧ outcome = a.outcome (applied slot (Participants.completed h₁)).reply ∧
        r = outcome.map q.value ∧
        ∀ s, outcome = .ok s → (q.value s).shows e.post.cell.data.storage = some s) ∧
    (∀ h₁ e h₂ t c, h = h₁ ++ e :: h₂ → e.result = some (.returned t c (.error .busy)) →
      e.post.cell = e.pre.cell ∧
        ∃ e' ∈ h₁, e'.pre.pc t = .locking c 1 ∧ ∃ t', t' ≠ t ∧ (e'.pre.pc t').holds ≠ none) ∧
    ((∀ t a, (s.pc t).holds ≠ some (QueryCall.queryRef.call a)) →
      QueryValue.reference.shows s.cell.data.storage = (written h).getLast?) := by
  have hinv := queried_run hnone hr
  have hacc := Participants.accounted_run hr
  refine ⟨?_, ?_, ?_, ?_⟩
  · intro t t' hin hin'
    obtain ⟨holder, hserial, -⟩ := hacc
    obtain ⟨c, hc⟩ := Option.ne_none_iff_exists'.mp hin
    by_contra hne
    exact hin' ((hserial.of_holds hc).2.1 t' (Ne.symm hne))
  · intro h₁ e h₂ t c r hsplit hret
    have hpre := (hr.cut hsplit).1
    have hof := hr.event_of (e := e) (by rw [hsplit]; simp)
    have hnotice : (e.pre.step e.call).1 = some (.returned t c (.ok r)) := by
      rw [← hret]
      exact (congrArg Event.result hof).symm
    have hpost : e.post = (e.pre.step e.call).2 := congrArg Event.post hof
    obtain ⟨q, a, rfl, rfl, hdata⟩ := returned_query (queried_run hnone hpre).querying
      (Participants.accounted_run hpre) (Participants.step_moved e.pre e.call) hnotice
    refine ⟨q, a, _, rfl, rfl, rfl, ?_⟩
    intro s houtcome
    rw [hpost, hdata, call_apply, houtcome]
    cases q with
    | query => rfl
    | queryRef => rfl
  · intro h₁ e h₂ t c hsplit hret
    have hpre := (hr.cut hsplit).1
    have hof := hr.event_of (e := e) (by rw [hsplit]; simp)
    have hm : Participants.Moved e.pre e.call.participant (some (.returned t c (.error .busy))) e.post := by
      rw [← hret, hof]
      exact Participants.step_moved _ _
    generalize e.call.participant = t₀ at hm
    generalize hpost : e.post = post at hm
    cases hm with
    | busy hpc => exact ⟨rfl, (queried_run hnone hpre).refused t c hpc⟩
  · intro hno
    show s.cell.data.storage = _
    rw [← hinv.storage]
    obtain ⟨holder, hserial, -⟩ := hacc
    cases hserial with
    | free hlock hout hdata => rw [hdata]
    | @held t c hlock hout hrun =>
        obtain ⟨q, a, rfl⟩ := hinv.querying t c (PairPc.current_of_holds hrun.holds)
        cases q with
        | queryRef => exact absurd hrun.holds (hno t a)
        | query => exact query_keeps_storage hrun

end

/-- The kernel fills the record with the sample topology, with the given flags. -/
def sampleAnswer (traitFlags : U32) : KernelAnswer 2 2 2 :=
  ⟨[fun _ => { sampleReply with header := ⟨2, 2, traitFlags⟩ }], 0⟩

/-- The slot before its first query, whatever its record holds. -/
def sampleSlot : QuerySlot 2 2 2 := ⟨⟨⟨0, 0, 0⟩, sampleReply.cpus, sampleReply.domains⟩, none⟩

/-- One thread is inside when the other tries; the second one is refused, the first one goes on to its return.
    Then the second one tries again. -/
def contendedQueries : List (PairAction Bool (QuerySlot 2 2 2) (QueryReply 2 2 2)) :=
  [.call false (QueryCall.queryRef.call (sampleAnswer 3)), .advance false,
    .call true (QueryCall.query.call (sampleAnswer 4)), .advance true, .advance false, .advance true,
    .advance false, .advance false, .advance false, .call true (QueryCall.queryRef.call (sampleAnswer 5)),
    .advance true, .advance true, .advance true, .advance true, .advance true]

theorem contendedQueries_only : ∀ x ∈ contendedQueries, OnlyQueries x := by
  simp only [contendedQueries, List.forall_mem_cons, OnlyQueries]
  exact ⟨⟨_, _, rfl⟩, trivial, ⟨_, _, rfl⟩, trivial, trivial, trivial, trivial, trivial, trivial, ⟨_, _, rfl⟩,
    trivial, trivial, trivial, trivial, trivial, by simp⟩

/-- Two references are returned, with the flags `3` and `5` behind them, and then both show the flags `5`. -/
theorem queries_exclusive_contended :
    (written (trace Participants.step (.new sampleSlot) contendedQueries)).map TopologySnapshot.traitFlags
      = [3, 5] ∧
    (QueryValue.reference.shows
        (finalState Participants.step (.new sampleSlot) contendedQueries).cell.data.storage).map
      TopologySnapshot.traitFlags = some 5 := by
  have hr := Run.replay_of Participants.step (.new sampleSlot) contendedQueries_only
  have hflags : (written (trace Participants.step (.new sampleSlot) contendedQueries)).map
      TopologySnapshot.traitFlags = [3, 5] := by decide +kernel
  refine ⟨hflags, ?_⟩
  rw [(queries_exclusive rfl hr).2.2.2 fun t a => ?_, ← List.getLast?_map, hflags]
  · rfl
  · have hidle : (finalState Participants.step (.new sampleSlot) contendedQueries).pc t = .idle := by
      cases t <;> rfl
    rw [hidle]
    exact fun h => by cases h

end Slope.Kairos
