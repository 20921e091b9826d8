import Mathlib.Data.List.Nodup
import Slope.Hypermedia.Endpoint
import Slope.Lib.Run

/-!
# `Hypermedia.Session` — whole runs of an endpoint session

The four session methods as one step function, and what holds along every run of it with adversarial
arguments:

* the successful commits and completes alternate, each complete naming the sequence of the commit it closes;
* the sequence numbers admitted are strictly increasing **as long as the counter has not been wrapped** — the
  successor of `u32::MAX` is `1`, and from then on old envelopes are admitted again;
* revocation is terminal.

Everything is derived from `step_cases`, which says once and for all what a call can do.
-/

namespace Slope.Hypermedia.ArgusEndpointSession

/-! ## The step function -/

inductive Call where
  | prepare (request : HttpIpcRequest) (currentEpoch : U64)
  | commit (envelope : ArgusIpcRequest)
  | complete (sequence : U32)
  | revoke
deriving DecidableEq

/-- `prepare` returns an envelope, the other calls nothing. -/
abbrev Reply := Except EndpointError (Option ArgusIpcRequest)

def step (s : ArgusEndpointSession) : Call → Reply × ArgusEndpointSession
  | .prepare request currentEpoch => ((s.prepare request currentEpoch).map some, s)
  | .commit envelope => ((s.commit envelope).1.map fun _ => none, (s.commit envelope).2)
  | .complete sequence => ((s.complete sequence).1.map fun _ => none, (s.complete sequence).2)
  | .revoke => (.ok none, s.revoke)

abbrev SessionEvent := Event ArgusEndpointSession Call Reply

/-- Runs of a fresh session over `lease`; the caller may pass anything. -/
abbrev SessionRun (lease : ArgusEndpointLease) (h : List SessionEvent) (s : ArgusEndpointSession) : Prop :=
  Run step (fun _ _ => True) (new lease) h s

/-! ## What a history shows -/

/-- The successful state-changing calls, by the sequence number they name. -/
inductive Mark where
  | commit (sequence : U32)
  | complete (sequence : U32)
deriving DecidableEq

def markOf (e : SessionEvent) : Option Mark :=
  match e.call, e.result with
  | .commit envelope, .ok _ => some (.commit envelope.request.sequence)
  | .complete sequence, .ok _ => some (.complete sequence)
  | _, _ => none

def marks (h : List SessionEvent) : List Mark := h.filterMap markOf

/-- The envelope a successful commit admitted. -/
def admittedBy (e : SessionEvent) : Option ArgusIpcRequest :=
  match e.call, e.result with
  | .commit envelope, .ok _ => some envelope
  | _, _ => none

/-- The envelopes admitted along a history, oldest first. -/
def committed (h : List SessionEvent) : List ArgusIpcRequest := h.filterMap admittedBy

/-- The sequence numbers admitted along a history, oldest first. -/
def sequences (h : List SessionEvent) : List U32 := (committed h).map (·.request.sequence)

/-- One request, admitted and closed. -/
def closedPair (n : U32) : List Mark := [.commit n, .complete n]

/-- Commits and completes strictly alternate, starting with a commit, each complete naming the sequence of
    the commit it closes; the last commit may still be open. -/
def Alternates (ms : List Mark) : Prop :=
  ∃ ns : List U32, ms = ns.flatMap closedPair ∨ ∃ n, ms = ns.flatMap closedPair ++ [.commit n]

/-! ## What one call can do -/

/-- **Inversion of a step.** A call changes nothing (it failed, or it was a `prepare`), or revokes, or opens
    the request the session expects next, or closes the request in flight. -/
theorem step_cases (s : ArgusEndpointSession) (i : Call) :
    (i ≠ .revoke ∧ markOf (Event.of step s i) = none ∧ admittedBy (Event.of step s i) = none ∧
      (step s i).2 = s) ∨
    (i = .revoke ∧ markOf (Event.of step s i) = none ∧ admittedBy (Event.of step s i) = none ∧
      (step s i).2 = s.revoke) ∨
    (∃ e, i = .commit e ∧ s.revoked = false ∧ s.inFlight = false ∧ e.request.sequence = s.nextSequence ∧
      markOf (Event.of step s i) = some (.commit s.nextSequence) ∧
      admittedBy (Event.of step s i) = some e ∧ (step s i).2 = { s with inFlight := true }) ∨
    (i = .complete s.nextSequence ∧ s.inFlight = true ∧
      markOf (Event.of step s i) = some (.complete s.nextSequence) ∧
      admittedBy (Event.of step s i) = none ∧
      (step s i).2 = { s with inFlight := false, nextSequence := Word.umax (s.nextSequence + 1) 1 }) := by
  cases i with
  | prepare request currentEpoch => left; simp [markOf, admittedBy, Event.of, step]
  | revoke => right; left; simp [markOf, admittedBy, Event.of, step]
  | commit e =>
      rcases hc : s.commit e with ⟨_ | ⟨⟨⟩⟩, s'⟩
      · left
        simp [markOf, admittedBy, Event.of, step, hc, Except.map, commit_error hc]
      · right; right; left
        obtain ⟨hr, hf, hv, rfl⟩ := commit_ok.mp hc
        have hseq := (validateEnvelope_ok.mp hv).2
        refine ⟨e, rfl, hr, hf, hseq, ?_⟩
        simp [markOf, admittedBy, Event.of, step, hc, Except.map, hseq]
  | complete n =>
      rcases hc : s.complete n with ⟨_ | ⟨⟨⟩⟩, s'⟩
      · left
        simp [markOf, admittedBy, Event.of, step, hc, Except.map, complete_error hc]
      · right; right; right
        obtain ⟨hf, rfl, rfl⟩ := complete_ok.mp hc
        refine ⟨rfl, hf, ?_⟩
        simp [markOf, admittedBy, Event.of, step, hc, Except.map]

/-- A call that returns an error leaves the session as it was. -/
theorem step_error {s : ArgusEndpointSession} {i : Call} {err : EndpointError}
    (h : (step s i).1 = .error err) : (step s i).2 = s := by
  cases i with
  | prepare request currentEpoch => rfl
  | revoke => simp [step] at h
  | commit e =>
      rcases hc : s.commit e with ⟨_ | ⟨⟨⟩⟩, s'⟩
      · simp only [step, hc]; exact commit_error hc
      · simp [step, hc, Except.map] at h
  | complete n =>
      rcases hc : s.complete n with ⟨_ | ⟨⟨⟩⟩, s'⟩
      · simp only [step, hc]; exact complete_error hc
      · simp [step, hc, Except.map] at h

/-- Once revoked, with nothing in flight, every call but `revoke` fails. -/
theorem step_of_revoked {s : ArgusEndpointSession} (hr : s.revoked = true) (hf : s.inFlight = false)
    {i : Call} (hi : i ≠ .revoke) : ∃ err, (step s i).1 = .error err := by
  cases i with
  | prepare request currentEpoch => exact ⟨.revoked, by simp [step, prepare, hr, Except.map]⟩
  | commit e => exact ⟨.revoked, by simp [step, commit, hr, Except.map]⟩
  | complete n => exact ⟨.notInFlight, by simp [step, complete, hf, Except.map]⟩
  | revoke => exact absurd rfl hi

/-! ## History bookkeeping -/

theorem marks_snoc (h : List SessionEvent) (e : SessionEvent) :
    marks (h ++ [e]) = marks h ++ (markOf e).toList :=
  filterMap_snoc markOf h e

theorem committed_snoc (h : List SessionEvent) (e : SessionEvent) :
    committed (h ++ [e]) = committed h ++ (admittedBy e).toList :=
  filterMap_snoc admittedBy h e

theorem committed_cons (e : SessionEvent) (h : List SessionEvent) :
    committed (e :: h) = (admittedBy e).toList ++ committed h := by
  unfold committed
  cases hm : admittedBy e <;> simp [hm]

theorem committed_append (h₁ h₂ : List SessionEvent) :
    committed (h₁ ++ h₂) = committed h₁ ++ committed h₂ := by
  unfold committed
  exact List.filterMap_append

/-! ## The session discipline -/

/-- **The session invariant**, over the marks of the history: an open request is the last mark and is the
    one the session expects to be closed; otherwise every commit has been closed, except that a revocation
    may have cut the last one short. -/
structure Disciplined (ms : List Mark) (s : ArgusEndpointSession) : Prop where
  next_ne_zero : s.nextSequence ≠ 0
  revoked_idle : s.revoked = true → s.inFlight = false
  inFlight_open : s.inFlight = true →
    ∃ ns : List U32, ms = ns.flatMap closedPair ++ [.commit s.nextSequence]
  idle_closed : s.inFlight = false → s.revoked = false → ∃ ns : List U32, ms = ns.flatMap closedPair
  alternates : Alternates ms

theorem disciplined_new (lease : ArgusEndpointLease) : Disciplined [] (new lease) where
  next_ne_zero := by simp [new]
  revoked_idle := by simp [new]
  inFlight_open := by simp [new]
  idle_closed := fun _ _ => ⟨[], rfl⟩
  alternates := ⟨[], Or.inl rfl⟩

/-- One call keeps the discipline. -/
theorem disciplined_step {ms : List Mark} {s : ArgusEndpointSession} (hd : Disciplined ms s) (i : Call) :
    Disciplined (ms ++ (markOf (Event.of step s i)).toList) (step s i).2 := by
  rcases step_cases s i with ⟨-, hm, -, hp⟩ | ⟨-, hm, -, hp⟩ | ⟨e, -, hr, hf, -, hm, -, hp⟩ |
    ⟨-, hf, hm, -, hp⟩
  · rw [hm, hp]; simpa using hd
  · rw [hm, hp]
    exact ⟨hd.next_ne_zero, fun _ => rfl, by simp [revoke], by simp [revoke], by simpa using hd.alternates⟩
  · -- a commit opens the next request after a sequence of closed ones
    rw [hm, hp]
    obtain ⟨ns, rfl⟩ := hd.idle_closed hf hr
    exact ⟨hd.next_ne_zero, by simp [hr], fun _ => ⟨ns, rfl⟩, by simp, ns, Or.inr ⟨_, rfl⟩⟩
  · -- a complete closes the request that the invariant says is the last mark
    rw [hm, hp]
    obtain ⟨ns, rfl⟩ := hd.inFlight_open hf
    have hclosed : ns.flatMap closedPair ++ [.commit s.nextSequence] ++ [.complete s.nextSequence]
        = (ns ++ [s.nextSequence]).flatMap closedPair := by
      simp [closedPair]
    refine ⟨nextSequence_succ_ne_zero _, fun _ => rfl, by simp, fun _ _ => ⟨_, hclosed⟩, _, Or.inl hclosed⟩

theorem disciplined_run {lease : ArgusEndpointLease} {h : List SessionEvent} {s : ArgusEndpointSession}
    (hr : SessionRun lease h s) : Disciplined (marks h) s := by
  refine hr.invariant (fun h s => Disciplined (marks h) s) (disciplined_new lease) ?_
  intro h s i _ _ ih
  rw [marks_snoc]
  exact disciplined_step ih i

/-- A revoked session stays revoked and idle. -/
theorem revoked_run {s s' : ArgusEndpointSession} {h : List SessionEvent}
    (hr : Run step (fun _ _ => True) s h s') (hrev : s.revoked = true) (hf : s.inFlight = false) :
    s'.revoked = true ∧ s'.inFlight = false := by
  refine hr.state_invariant (fun s => s.revoked = true ∧ s.inFlight = false) ⟨hrev, hf⟩ ?_
  intro s i ⟨hrev, hf⟩
  rcases step_cases s i with ⟨-, -, -, hp⟩ | ⟨-, -, -, hp⟩ | ⟨e, -, hr, -⟩ | ⟨-, hf', -⟩
  · rw [hp]; exact ⟨hrev, hf⟩
  · rw [hp]; exact ⟨rfl, rfl⟩
  · rw [hrev] at hr; cases hr
  · rw [hf] at hf'; cases hf'

/-- **Session discipline.** Along every run: successful commits and completes alternate and match up, the
    next sequence number is never `0`, a failing call changes nothing, and after a revocation no `prepare`,
    `commit` or `complete` succeeds. -/
theorem session_discipline (lease : ArgusEndpointLease) {h : List SessionEvent}
    {s : ArgusEndpointSession} (hr : SessionRun lease h s) :
    Alternates (marks h) ∧
    s.nextSequence ≠ 0 ∧
    (∀ e ∈ h, ∀ err, e.result = .error err → e.post = e.pre) ∧
    (∀ h₁ e h₂, h = h₁ ++ e :: h₂ → e.call = .revoke →
      ∀ e' ∈ h₂, e'.call ≠ .revoke → ∃ err, e'.result = .error err) := by
  have hd := disciplined_run hr
  refine ⟨hd.alternates, hd.next_ne_zero, ?_, ?_⟩
  · intro e he err herr
    rw [hr.event_of he] at herr ⊢
    exact step_error herr
  · intro h₁ e h₂ hh hrev e' he' hne
    obtain ⟨-, -, hpost⟩ := hr.cut hh
    have hev := hr.event_of (e := e) (by simp [hh])
    have hpe : e.post = e.pre.revoke := by
      rw [hev, hrev]; rfl
    -- cut the tail again, at `e'`: its pre-state is still revoked
    obtain ⟨t₁, t₂, rfl⟩ := List.append_of_mem he'
    obtain ⟨hmid, -, -⟩ := hpost.cut rfl
    rw [hpe] at hmid
    obtain ⟨hr', hf'⟩ := revoked_run hmid rfl rfl
    rw [hr.event_of (e := e') (by simp [hh])]
    exact step_of_revoked hr' hf' hne

/-! ### A sample session

The broker values of the source's own endpoint test, and envelopes bound to them. -/

def sampleLease : ArgusEndpointLease where
  version := argusEndpointVersion
  owner := argusEndpointOwner
  reserved := 0
  endpointCapability := 11
  mappingCapability := 12
  generation := 4
  mappingGeneration := 9
  expiryEpoch := 30

def sampleRequest (n : U32) : HttpIpcRequest :=
  { HttpIpcRequest.empty with version := httpIpcVersion, sequence := n }

/-- The envelope that `prepare` would build for request `n` under `lease`. -/
def envelopeFor (lease : ArgusEndpointLease) (n : U32) : ArgusIpcRequest where
  version := argusEndpointVersion
  reserved := 0
  endpointCapability := lease.endpointCapability
  mappingCapability := lease.mappingCapability
  generation := lease.generation
  mappingGeneration := lease.mappingGeneration
  request := sampleRequest n

def sampleCalls : List Call :=
  [.commit (envelopeFor sampleLease 1), .complete 1, .commit (envelopeFor sampleLease 2), .revoke,
   .complete 2]

theorem session_discipline_sample :
    marks (trace step (new sampleLease) sampleCalls) = [.commit 1, .complete 1, .commit 2] ∧
    Alternates (marks (trace step (new sampleLease) sampleCalls)) :=
  ⟨by decide, (session_discipline sampleLease (Run.start.calls sampleCalls)).1⟩

/-! ## Sequence numbers -/

/-- A `complete` that closes the request numbered `u32::MAX`: the counter wraps to `1`. -/
def ClosesLast (e : SessionEvent) : Prop :=
  e.call = .complete (BitVec.allOnes 32) ∧ ∃ r, e.result = .ok r

/-- No commit is admitted once the counter has wrapped. -/
def WrapIsFinal (h : List SessionEvent) : Prop :=
  ∀ h₁ e h₂, h = h₁ ++ e :: h₂ → ClosesLast e → committed h₂ = []

theorem wrapIsFinal_of_snoc {h : List SessionEvent} {e : SessionEvent} (hw : WrapIsFinal (h ++ [e])) :
    WrapIsFinal h := by
  intro h₁ e' h₂ hh hc
  have := hw h₁ e' (h₂ ++ [e]) (by simp [hh]) hc
  rw [committed_append] at this
  exact (List.append_eq_nil_iff.mp this).1

/-- An event that admits nothing adds no sequence number. -/
theorem sequences_snoc_none {h : List SessionEvent} {e : SessionEvent} (he : admittedBy e = none) :
    sequences (h ++ [e]) = sequences h := by
  simp [sequences, committed_snoc, he]

theorem sequences_snoc_some {h : List SessionEvent} {e : SessionEvent} {a : ArgusIpcRequest}
    (he : admittedBy e = some a) : sequences (h ++ [e]) = sequences h ++ [a.request.sequence] := by
  simp [sequences, committed_snoc, he]

/-- The request in flight has been admitted. -/
theorem inFlight_mem_sequences {lease : ArgusEndpointLease} {h : List SessionEvent}
    {s : ArgusEndpointSession} (hr : SessionRun lease h s) :
    s.inFlight = true → s.nextSequence ∈ sequences h := by
  refine hr.invariant (fun h s => s.inFlight = true → s.nextSequence ∈ sequences h) (by simp [new]) ?_
  intro h s i _ _ ih
  rcases step_cases s i with ⟨-, -, ha, hp⟩ | ⟨-, -, ha, hp⟩ | ⟨e, -, -, -, hs, -, ha, hp⟩ |
    ⟨-, -, -, ha, hp⟩
  · rw [hp, sequences_snoc_none ha]; exact ih
  · rw [hp]; intro hf; simp [revoke] at hf
  · rw [hp, sequences_snoc_some ha, hs]; intro _; simp
  · rw [hp]; intro hf; simp at hf

/-- Until the counter wraps, everything admitted is below the next sequence number, the request in flight
    excepted. -/
def Below (h : List SessionEvent) (s : ArgusEndpointSession) : Prop :=
  ∀ n ∈ sequences h, if s.inFlight then n ≤ s.nextSequence else n < s.nextSequence

theorem lt_succ_of_le {n m : U32} (hm : m ≠ BitVec.allOnes 32) (h : n ≤ m) : n < Word.umax (m + 1) 1 := by
  have hmax : m.toNat ≠ 2 ^ 32 - 1 := by
    intro he
    exact hm (BitVec.eq_of_toNat_eq (by rw [he, BitVec.toNat_allOnes]))
  have hlt := m.isLt
  have h1 : (1 : U32).toNat = 1 := rfl
  rw [BitVec.le_def] at h
  rw [BitVec.lt_def, Word.toNat_umax, BitVec.toNat_add, h1, Nat.mod_eq_of_lt (by omega)]
  omega

/-- **Increasing until the wrap.** The invariant behind replay protection: if no commit follows a wrap, the
    admitted sequence numbers are strictly increasing and, unless the counter has wrapped or the session is
    over, bounded by the next one. -/
theorem increasing_run {lease : ArgusEndpointLease} {h : List SessionEvent} {s : ArgusEndpointSession}
    (hr : SessionRun lease h s) :
    WrapIsFinal h → (sequences h).Pairwise (· < ·) ∧
      ((∃ e ∈ h, ClosesLast e) ∨ s.revoked = true ∨ Below h s) := by
  refine hr.invariant (fun h s => WrapIsFinal h → (sequences h).Pairwise (· < ·) ∧
    ((∃ e ∈ h, ClosesLast e) ∨ s.revoked = true ∨ Below h s)) ?_ ?_
  · intro _
    exact ⟨by simp [sequences, committed], Or.inr (Or.inr (by simp [Below, sequences, committed]))⟩
  intro h s i _ _ ih hw
  obtain ⟨hpw, hb⟩ := ih (wrapIsFinal_of_snoc hw)
  have hkeep : (∃ e ∈ h, ClosesLast e) → ∃ e ∈ h ++ [Event.of step s i], ClosesLast e :=
    fun ⟨e, he, hc⟩ => ⟨e, List.mem_append_left _ he, hc⟩
  rcases step_cases s i with ⟨-, -, ha, hp⟩ | ⟨-, -, ha, hp⟩ | ⟨a, -, hrev, hf, hs, -, ha, hp⟩ |
    ⟨rfl, hf, hm, ha, hp⟩
  · refine ⟨by rwa [sequences_snoc_none ha], hb.imp hkeep fun hb => ?_⟩
    unfold Below
    rw [sequences_snoc_none ha, hp]; exact hb
  · exact ⟨by rwa [sequences_snoc_none ha], Or.inr (Or.inl (by rw [hp]; rfl))⟩
  · -- a commit: a wrap behind it would contradict `WrapIsFinal`, so the bound is strict and it goes on top
    rcases hb with ⟨e, he, hc⟩ | hrev' | hb
    · obtain ⟨h₁, h₂, rfl⟩ := List.append_of_mem he
      have hnil := hw h₁ e (h₂ ++ [Event.of step s i]) (by simp) hc
      rw [committed_snoc, ha] at hnil
      simp at hnil
    · rw [hrev] at hrev'; cases hrev'
    · have hlt : ∀ n ∈ sequences h, n < s.nextSequence := by
        intro n hn
        simpa [hf] using hb n hn
      rw [sequences_snoc_some ha, hs]
      refine ⟨List.pairwise_append.mpr ⟨hpw, by simp, ?_⟩, Or.inr (Or.inr ?_)⟩
      · intro n hn m hm
        rw [List.mem_singleton.mp hm]; exact hlt n hn
      · unfold Below
        rw [sequences_snoc_some ha, hs, hp]
        intro n hn
        rcases List.mem_append.mp hn with hn | hn
        · simpa using BitVec.le_of_lt (hlt n hn)
        · simp [List.mem_singleton.mp hn]
  · -- a complete: either it closes `u32::MAX`, or the bound moves up by one
    refine ⟨by rwa [sequences_snoc_none ha], ?_⟩
    by_cases hlast : s.nextSequence = BitVec.allOnes 32
    · left
      refine ⟨_, List.mem_append_right _ (List.mem_singleton.mpr rfl), ?_, ?_⟩
      · rw [← hlast]; rfl
      · cases hres : (Event.of step s (.complete s.nextSequence)).result with
        | ok r => exact ⟨r, rfl⟩
        | error err =>
            have hcall : (Event.of step s (.complete s.nextSequence)).call = .complete s.nextSequence := rfl
            simp [markOf, hcall, hres] at hm
    · refine hb.imp hkeep (Or.imp (fun hrev => by rw [hp]; exact hrev) fun hb => ?_)
      unfold Below
      rw [sequences_snoc_none ha, hp]
      intro n hn
      have hle : n ≤ s.nextSequence := by simpa [hf] using hb n hn
      simpa using lt_succ_of_le hlast hle

/-- **Replay protection, exactly.** Along a run the admitted sequence numbers are strictly increasing, and
    no envelope is admitted twice, if and only if no commit is admitted after the counter has wrapped. -/
theorem sequences_increasing_iff (lease : ArgusEndpointLease) {h : List SessionEvent}
    {s : ArgusEndpointSession} (hr : SessionRun lease h s) :
    ((sequences h).Pairwise (· < ·) ∧ (committed h).Nodup) ↔ WrapIsFinal h := by
  constructor
  · rintro ⟨hpw, -⟩ h₁ e h₂ rfl ⟨hcall, r, hres⟩
    -- `e` closed `u32::MAX`, which was admitted before it; nothing admitted later can exceed it
    obtain ⟨hpre, -, -⟩ := hr.cut rfl
    have hev := hr.event_of (e := e) (by simp)
    have hres' : (step e.pre (.complete (BitVec.allOnes 32))).1 = .ok r := by
      rw [← hcall, ← hres]; exact (congrArg Event.result hev).symm
    rcases hcmp : e.pre.complete (BitVec.allOnes 32) with ⟨_ | ⟨⟨⟩⟩, s'⟩
    · simp only [step, hcmp] at hres'
      cases hres'
    obtain ⟨hf, hnext, -⟩ := complete_ok.mp hcmp
    have hmem : BitVec.allOnes 32 ∈ sequences h₁ := hnext ▸ inFlight_mem_sequences hpre hf
    by_contra hne
    obtain ⟨a, ha⟩ := List.exists_mem_of_ne_nil _ hne
    have happ : sequences (h₁ ++ e :: h₂)
        = sequences h₁ ++ ((admittedBy e).toList ++ committed h₂).map (·.request.sequence) := by
      rw [sequences, committed_append, List.map_append, committed_cons]; rfl
    rw [happ, List.pairwise_append] at hpw
    have hlt := hpw.2.2 _ hmem a.request.sequence
      (List.mem_map.mpr ⟨a, List.mem_append_right _ ha, rfl⟩)
    rw [BitVec.lt_def, BitVec.toNat_allOnes] at hlt
    have := a.request.sequence.isLt
    omega
  · intro hw
    have hpw := (increasing_run hr hw).1
    refine ⟨hpw, ?_⟩
    have hnd : (sequences h).Nodup := List.Pairwise.imp (fun hlt => BitVec.ne_of_lt hlt) hpw
    exact List.Nodup.of_map _ hnd

theorem sequences_increasing_sample :
    WrapIsFinal (trace step (new sampleLease) sampleCalls) ∧
    sequences (trace step (new sampleLease) sampleCalls) = [1, 2] ∧
    (committed (trace step (new sampleLease) sampleCalls)).Nodup := by
  have hseq : sequences (trace step (new sampleLease) sampleCalls) = [1, 2] := by decide
  have hnd : (committed (trace step (new sampleLease) sampleCalls)).Nodup := by decide
  refine ⟨(sequences_increasing_iff sampleLease (Run.start.calls sampleCalls)).mp ⟨?_, hnd⟩, hseq, hnd⟩
  rw [List.nil_append, hseq]
  decide

/-! ### Running the counter round

A run that commits and completes `2 ^ 32 - 1` requests is too long to execute; it is built by induction on
the number of rounds. -/

/-- The idle session that expects request `n`. -/
def idleAt (lease : ArgusEndpointLease) (n : U32) : ArgusEndpointSession :=
  { new lease with nextSequence := n }

theorem step_commit_idleAt (lease : ArgusEndpointLease) (n : U32) :
    step (idleAt lease n) (.commit (envelopeFor lease n))
      = (.ok none, { idleAt lease n with inFlight := true }) := by
  have hv : (idleAt lease n).validateEnvelope (envelopeFor lease n) = .ok () :=
    validateEnvelope_ok.mpr ⟨rfl, rfl⟩
  have hc := commit_ok.mpr ⟨(rfl : (idleAt lease n).revoked = false), rfl, hv, rfl⟩
  simp only [step, hc, Except.map]

theorem step_complete_idleAt (lease : ArgusEndpointLease) (n : U32) :
    step { idleAt lease n with inFlight := true } (.complete n)
      = (.ok none, idleAt lease (Word.umax (n + 1) 1)) := by
  simp [step, complete, idleAt, new, Except.map]

/-- One commit and its complete take an idle session to the next sequence number. -/
theorem round {lease : ArgusEndpointLease} {h : List SessionEvent} {n : U32}
    (hr : SessionRun lease h (idleAt lease n)) :
    ∃ h', SessionRun lease h' (idleAt lease (Word.umax (n + 1) 1)) ∧
      committed h' = committed h ++ [envelopeFor lease n] := by
  have h1 := hr.call (.commit (envelopeFor lease n)) trivial
  have h2 := h1.call (.complete n) trivial
  rw [step_commit_idleAt, step_complete_idleAt] at h2
  refine ⟨_, h2, ?_⟩
  rw [committed_snoc, committed_snoc]
  simp [admittedBy, Event.of, step_commit_idleAt]

/-- Fewer than `2 ^ 32 - 1` rounds reach every sequence number in turn, the first envelope among those
    admitted. -/
theorem rounds (lease : ArgusEndpointLease) (k : Nat) (hk : k + 1 < 2 ^ 32) :
    ∃ h, SessionRun lease h (idleAt lease (BitVec.ofNat 32 (k + 1))) ∧
      (0 < k → envelopeFor lease 1 ∈ committed h) := by
  induction k with
  | zero => exact ⟨[], .start, by simp⟩
  | succ k ih =>
      obtain ⟨h, hr, hmem⟩ := ih (by omega)
      obtain ⟨h', hr', hc⟩ := round hr
      have hnext : Word.umax (BitVec.ofNat 32 (k + 1) + 1) 1 = BitVec.ofNat 32 (k + 1 + 1) := by
        apply BitVec.eq_of_toNat_eq
        have h1 : (1 : U32).toNat = 1 := rfl
        rw [Word.toNat_umax, BitVec.toNat_add, h1, BitVec.toNat_ofNat, BitVec.toNat_ofNat,
          Nat.mod_eq_of_lt (by omega : k + 1 < 2 ^ 32), Nat.mod_eq_of_lt (by omega : k + 1 + 1 < 2 ^ 32)]
        omega
      rw [hnext] at hr'
      refine ⟨h', hr', fun _ => ?_⟩
      rw [hc]
      -- the first envelope is admitted in the first round and stays in the history
      rcases Nat.eq_zero_or_pos k with rfl | hpos
      · simp
      · exact List.mem_append_left _ (hmem hpos)

/-- **Replay after the wrap.** Once request `u32::MAX` has been closed, the session admits the envelope of
    request `1` a second time. -/
theorem replay_after_wrap :
    ∃ h s, SessionRun sampleLease h s ∧ ¬ (sequences h).Pairwise (· < ·) ∧ ¬ (committed h).Nodup := by
  -- up to request `u32::MAX`, then one round that wraps, then the first envelope again
  obtain ⟨h, hr, hmem⟩ := rounds sampleLease (2 ^ 32 - 2) (by decide)
  obtain ⟨h', hr', hc'⟩ := round hr
  have hwrap : Word.umax (BitVec.ofNat 32 (2 ^ 32 - 2 + 1) + 1) 1 = 1 := by decide
  rw [hwrap] at hr'
  obtain ⟨h'', hr'', hc''⟩ := round hr'
  have hold : envelopeFor sampleLease 1 ∈ committed h' := by
    rw [hc']; exact List.mem_append_left _ (hmem (by decide))
  refine ⟨h'', _, hr'', ?_, ?_⟩
  · intro hpw
    rw [sequences, hc'', List.map_append, List.pairwise_append] at hpw
    have hlt := hpw.2.2 _ (List.mem_map.mpr ⟨_, hold, rfl⟩) _
      (List.mem_map.mpr ⟨_, List.mem_singleton.mpr rfl, rfl⟩)
    exact BitVec.lt_irrefl _ hlt
  · intro hnd
    rw [hc'', List.nodup_append] at hnd
    exact hnd.2.2 _ hold _ (by simp) rfl

/-! ## The two gates

`commit` does not repeat every check of `prepare`: it looks neither at the lease's own validity nor at the
version of the nested request. -/

/-- An epoch at which the lease is valid exists exactly when it is valid at epoch `0`. -/
theorem exists_validFor_iff (l : ArgusEndpointLease) : (∃ t, l.validFor t = true) ↔ l.validFor 0 = true := by
  constructor
  · rintro ⟨t, ht⟩
    simp only [ArgusEndpointLease.validFor, Bool.and_eq_true, decide_eq_true_eq, BitVec.lt_def] at ht ⊢
    have h0 : (0 : U64).toNat = 0 := rfl
    exact ⟨ht.1, by omega⟩
  · intro h; exact ⟨0, h⟩

/-- Under a valid lease, an idle live session prepares exactly the version-1 requests that carry its nonzero
    next sequence number. -/
theorem prepare_ok_iff {s : ArgusEndpointSession} {r : HttpIpcRequest} {t : U64}
    {e : ArgusIpcRequest} (hl : s.lease.validFor t = true) (hrev : s.revoked = false)
    (hf : s.inFlight = false) (hseq : r.sequence = s.nextSequence) (hne : s.nextSequence ≠ 0) :
    s.prepare r t = .ok e ↔
      r.version = httpIpcVersion ∧
      e = { version := argusEndpointVersion, reserved := 0,
            endpointCapability := s.lease.endpointCapability,
            mappingCapability := s.lease.mappingCapability, generation := s.lease.generation,
            mappingGeneration := s.lease.mappingGeneration, request := r } := by
  simp only [ArgusEndpointLease.validFor, Bool.and_eq_true, beq_iff_eq, decide_eq_true_eq] at hl
  obtain ⟨⟨⟨⟨⟨⟨⟨hver, hown⟩, hres⟩, -⟩, -⟩, -⟩, -⟩, hexp⟩ := hl
  have hexp' : ¬ s.lease.expiryEpoch ≤ t := BitVec.not_le.mpr hexp
  unfold prepare ArgusEndpointLease.authorizeRequest
  by_cases hv : r.version = httpIpcVersion
  · simp only [hrev, hf, hseq, hne, hver, hown, hres, hexp', hv, Bool.false_eq_true, ne_eq, not_true,
      or_self, if_false, Except.ok.injEq, true_and]
    exact eq_comm
  · simp [hrev, hf, hseq, hver, hown, hres, hexp', hv]

/-- **The commit gate against the prepare gate.** When `commit` admits `e` in a reachable session, `prepare`
    could have produced exactly `e` at an epoch for which the lease is valid if and only if the lease has
    such an epoch at all and the nested request carries the protocol version. -/
theorem commit_prepared_iff (lease : ArgusEndpointLease) {h : List SessionEvent}
    {s s' : ArgusEndpointSession} (hr : SessionRun lease h s) {e : ArgusIpcRequest}
    (hc : s.commit e = (.ok (), s')) :
    (∃ t, s.lease.validFor t = true ∧ s.prepare e.request t = .ok e) ↔
      s.lease.validFor 0 = true ∧ e.request.version = httpIpcVersion := by
  obtain ⟨hrev, hf, hv, -⟩ := commit_ok.mp hc
  obtain ⟨he, hseq⟩ := validateEnvelope_ok.mp hv
  have hne := (disciplined_run hr).next_ne_zero
  constructor
  · rintro ⟨t, hl, hp⟩
    exact ⟨(exists_validFor_iff _).mp ⟨t, hl⟩, ((prepare_ok_iff hl hrev hf hseq hne).mp hp).1⟩
  · rintro ⟨hl, hver⟩
    exact ⟨0, hl, (prepare_ok_iff hl hrev hf hseq hne).mpr ⟨hver, he⟩⟩

theorem commit_prepared_sample :
    ∃ t, sampleLease.validFor t = true ∧
      (new sampleLease).prepare (sampleRequest 1) t = .ok (envelopeFor sampleLease 1) := by
  have hc : (new sampleLease).commit (envelopeFor sampleLease 1)
      = (.ok (), { new sampleLease with inFlight := true }) := by decide
  exact (commit_prepared_iff sampleLease .start hc).mpr ⟨by decide, by decide⟩

/-- The sample envelope with the version of its nested request tampered with. -/
def tamperedEnvelope : ArgusIpcRequest :=
  { envelopeFor sampleLease 1 with request := { sampleRequest 1 with version := 2 } }

/-- **The gates differ.** A session over a broker-issued lease admits a nested request of an unknown version,
    which `prepare` refuses at every epoch. -/
theorem commit_admits_unpreparable :
    ArgusEndpointLease.fromBroker 11 12 4 9 30 = .ok sampleLease ∧
    ((new sampleLease).commit tamperedEnvelope).1 = .ok () ∧
    ¬ ∃ t, sampleLease.validFor t = true ∧
      (new sampleLease).prepare tamperedEnvelope.request t = .ok tamperedEnvelope := by
  refine ⟨by decide, by decide, ?_⟩
  rintro ⟨t, hl, hp⟩
  have hver := ((prepare_ok_iff (s := new sampleLease) hl rfl rfl rfl (by decide)).mp hp).1
  exact absurd hver (by decide)

end Slope.Hypermedia.ArgusEndpointSession
