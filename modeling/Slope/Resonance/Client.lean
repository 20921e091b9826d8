import Mathlib.Data.List.Nodup
import Slope.Lib.Run
import Slope.Lib.Word

/-!
# `Resonance.Client` — one outstanding command on the resonance plane

A client of the plane writes a command to the ingress page, remembers its sequence number as pending, and polls
the observation page for the reply. While a command is pending every further `submit` is refused, so whether the
client goes on depends on `poll_reply` clearing the marker. Six of its seven exits leave the client as it was or
clear it; the exit for a reply that fails validation returns before the assignment (`pollReply_invalid`), and the
client refuses every `submit` until some later poll finds something else.

The pages belong to another process. `poll_reply` reads the observation page twice, and `NexusWire` stands for
what it computes from the contents it reads, which may have changed between the two.
-/

namespace Slope.Resonance

open Slope Word

/-- What the client reads off an observation page: the last published sequence number, the reply filed under a
    sequence number, and the status of a reply or the reason it is malformed. -/
structure NexusWire (Page Reply WireError NexusStatus : Type) where
  lastReplySequence : Page → U64
  reply : Page → U64 → Option Reply
  validate : Reply → U64 → Except WireError NexusStatus
  /-- `NexusStatus::Ok` -/
  ok : NexusStatus

structure PendingCommand where
  sequence : U64
deriving DecidableEq

/-- The arguments of `NexusCommand::new`. -/
structure NexusCommand (Opcode : Type) where
  opcode : Opcode
  sequence : U64
  capability : U64
  arguments : Vector U64 4

inductive PlaneClientError (WireError NexusStatus : Type) where
  | nullAddress | misalignedAddress | incompatiblePlane | commandAlreadyPending
  | unexpectedReply (expected observed : U64)
  | wire (fault : WireError)
  | kernel (status : NexusStatus)
deriving DecidableEq

structure ResonancePlaneClient where
  capability : U64
  nextSequence : U64
  pending : Option U64
  droppedReplies : U64
deriving DecidableEq

/-- What a `submit` returns, and the command it writes to the ingress page. -/
abbrev Submission (WireError NexusStatus Opcode : Type) :=
  Except (PlaneClientError WireError NexusStatus) (PendingCommand × NexusCommand Opcode)

/-! ## The operations -/

namespace ResonancePlaneClient

section

variable {Page Reply WireError NexusStatus Opcode : Type}

/-- The alignment and the compatibility of the two pages are the plane's. -/
def fromAddresses (ingressAddress observationAddress : U64) (ingressAlign observationAlign : Nat)
    (ingressCompatible observationCompatible : Bool) (capability : U64) :
    Except (PlaneClientError WireError NexusStatus) ResonancePlaneClient :=
  if ingressAddress = 0 ∨ observationAddress = 0 then .error .nullAddress
  else if ingressAddress.toNat % ingressAlign ≠ 0 then .error .misalignedAddress
  else if observationAddress.toNat % observationAlign ≠ 0 then .error .misalignedAddress
  else if !ingressCompatible || !observationCompatible then .error .incompatiblePlane
  else .ok { capability, nextSequence := 1, pending := none, droppedReplies := 0 }

/-- The command is written to the ingress page, whatever becomes of it there. -/
def submit (c : ResonancePlaneClient) (opcode : Opcode) (arguments : Vector U64 4) :
    Submission WireError NexusStatus Opcode × ResonancePlaneClient :=
  if c.pending.isSome then (.error .commandAlreadyPending, c)
  else
    let sequence := c.nextSequence
    -- zero is never a sequence number
    let c := { c with nextSequence := umax (c.nextSequence + 1) 1 }
    let command := { opcode, sequence, capability := c.capability, arguments }
    (.ok ({ sequence }, command), { c with pending := some sequence })

/-- `seen` is the observation page when its last sequence number is read, `later` when the reply is. -/
def pollReply [DecidableEq NexusStatus] (w : NexusWire Page Reply WireError NexusStatus)
    (c : ResonancePlaneClient) (seen later : Page) :
    Except (PlaneClientError WireError NexusStatus) (Option Reply) × ResonancePlaneClient :=
  match c.pending with
  | none => (.ok none, c)
  | some expected =>
    let published := w.lastReplySequence seen
    if published = 0 ∨ published < expected then (.ok none, c)
    else if expected < published then
      (.error (.unexpectedReply expected published),
        { c with pending := none, droppedReplies := saturatingAdd c.droppedReplies 1 })
    else
      match w.reply later expected with
      | none => (.ok none, c)
      | some reply =>
        match w.validate reply expected with
        -- the command stays pending
        | .error fault => (.error (.wire fault), c)
        | .ok status =>
          let c := { c with pending := none }
          if status ≠ w.ok then (.error (.kernel status), c) else (.ok (some reply), c)

end

/-! ## What one call can do -/

/-- **Inversion of `submit`.** -/
theorem submit_cases (WireError NexusStatus : Type) {Opcode : Type} (c : ResonancePlaneClient)
    (opcode : Opcode) (arguments : Vector U64 4) :
    (c.pending ≠ none ∧
      (c.submit opcode arguments : Submission WireError NexusStatus Opcode × _)
        = (.error .commandAlreadyPending, c)) ∨
    (c.pending = none ∧
      (c.submit opcode arguments : Submission WireError NexusStatus Opcode × _)
        = (.ok ({ sequence := c.nextSequence },
            { opcode, sequence := c.nextSequence, capability := c.capability, arguments }),
          { c with nextSequence := umax (c.nextSequence + 1) 1, pending := some c.nextSequence })) := by
  unfold submit
  cases hpending : c.pending with
  | none => exact Or.inr ⟨rfl, rfl⟩
  | some q => exact Or.inl ⟨Option.some_ne_none q, rfl⟩

/-- A client with nothing pending accepts. -/
theorem submit_accepts {WireError NexusStatus Opcode : Type} {c : ResonancePlaneClient}
    (hnone : c.pending = none) (opcode : Opcode) (arguments : Vector U64 4) :
    ∃ accepted, (c.submit opcode arguments : Submission WireError NexusStatus Opcode × _).1 = .ok accepted := by
  rcases submit_cases WireError NexusStatus c opcode arguments with ⟨hsome, -⟩ | ⟨-, hs⟩
  · exact absurd hnone hsome
  · exact ⟨_, by rw [hs]⟩

section

variable {Page Reply WireError NexusStatus Opcode : Type} [DecidableEq NexusStatus]
  {w : NexusWire Page Reply WireError NexusStatus} {c : ResonancePlaneClient} {seen later : Page}

/-- A poll of these two page contents finds the pending reply published and filed, and malformed. -/
def FindsInvalid (w : NexusWire Page Reply WireError NexusStatus) (c : ResonancePlaneClient)
    (seen later : Page) : Prop :=
  ∃ expected reply fault, c.pending = some expected ∧ expected ≠ 0 ∧ w.lastReplySequence seen = expected ∧
    w.reply later expected = some reply ∧ w.validate reply expected = .error fault

/-- A malformed reply changes nothing: the command is still pending. -/
theorem pollReply_invalid (h : c.FindsInvalid w seen later) :
    (∃ fault, c.pollReply w seen later = (.error (.wire fault), c)) ∧ c.pending ≠ none := by
  obtain ⟨expected, reply, fault, hpending, hne, hseen, hreply, hvalidate⟩ := h
  have hnot : ¬ (expected = 0 ∨ expected < expected) := by
    rintro (hzero | hlt)
    · exact hne hzero
    · exact BitVec.lt_irrefl _ hlt
  constructor
  · refine ⟨fault, ?_⟩
    unfold pollReply
    rw [hpending]
    dsimp only
    rw [hseen, if_neg hnot, if_neg (BitVec.lt_irrefl _), hreply]
    dsimp only
    rw [hvalidate]
  · rw [hpending]
    exact Option.some_ne_none expected

/-- **Inversion of `pollReply`** on every other page: nothing happens, or the pending command is settled. -/
theorem pollReply_cases (h : ¬ c.FindsInvalid w seen later) :
    c.pollReply w seen later = (.ok none, c) ∨
      ∃ expected, c.pending = some expected ∧ (c.pollReply w seen later).2.pending = none ∧
        (c.pollReply w seen later).2.nextSequence = c.nextSequence := by
  unfold pollReply
  cases hpending : c.pending with
  | none => exact Or.inl rfl
  | some expected =>
      dsimp only
      split
      · exact Or.inl rfl
      next hzero =>
      split
      · exact Or.inr ⟨expected, rfl, rfl, rfl⟩
      next hgt =>
      obtain ⟨hne, hlt⟩ := not_or.mp hzero
      -- published, and neither behind nor ahead: it is the expected number
      have hseen : w.lastReplySequence seen = expected :=
        BitVec.le_antisymm (BitVec.not_lt.mp hgt) (BitVec.not_lt.mp hlt)
      split
      · exact Or.inl rfl
      next reply hreply =>
      split
      · next fault hvalidate =>
        exact absurd ⟨expected, reply, fault, hpending, hseen ▸ hne, hseen, hreply, hvalidate⟩ h
      · split
        · exact Or.inr ⟨expected, rfl, rfl, rfl⟩
        · exact Or.inr ⟨expected, rfl, rfl, rfl⟩

end

/-! ## Runs -/

inductive Call (Page Opcode : Type) where
  | submit (opcode : Opcode) (arguments : Vector U64 4)
  | pollReply (seen later : Page)

inductive Answer (Reply WireError NexusStatus Opcode : Type) where
  | submitted (result : Submission WireError NexusStatus Opcode)
  | polled (result : Except (PlaneClientError WireError NexusStatus) (Option Reply))

section

variable {Page Reply WireError NexusStatus Opcode : Type} [DecidableEq NexusStatus]

def step (w : NexusWire Page Reply WireError NexusStatus) (c : ResonancePlaneClient) :
    Call Page Opcode → Answer Reply WireError NexusStatus Opcode × ResonancePlaneClient
  | .submit opcode arguments => (.submitted (c.submit opcode arguments).1,
      (c.submit opcode arguments : Submission WireError NexusStatus Opcode × _).2)
  | .pollReply seen later => (.polled (c.pollReply w seen later).1, (c.pollReply w seen later).2)

end

abbrev ClientEvent (Page Reply WireError NexusStatus Opcode : Type) :=
  Event ResonancePlaneClient (Call Page Opcode) (Answer Reply WireError NexusStatus Opcode)

section

variable {Page Reply WireError NexusStatus Opcode : Type}

def submittedBy (e : ClientEvent Page Reply WireError NexusStatus Opcode) : Option U64 :=
  match e.result with
  | .submitted (.ok (command, _)) => some command.sequence
  | _ => none

/-- A poll settles the command that was pending before it and is not after it. -/
def settledBy (e : ClientEvent Page Reply WireError NexusStatus Opcode) : Option U64 :=
  match e.call, e.post.pending with
  | .pollReply _ _, none => e.pre.pending
  | _, _ => none

/-- The sequence numbers submitted, oldest first. -/
def submitted (h : List (ClientEvent Page Reply WireError NexusStatus Opcode)) : List U64 :=
  h.filterMap submittedBy

/-- The sequence numbers settled, oldest first. -/
def settled (h : List (ClientEvent Page Reply WireError NexusStatus Opcode)) : List U64 :=
  h.filterMap settledBy

variable [DecidableEq NexusStatus] {w : NexusWire Page Reply WireError NexusStatus}
  {c c₀ : ResonancePlaneClient} {h : List (ClientEvent Page Reply WireError NexusStatus Opcode)}

/-- **Inversion of a step**: a command is accepted, the pending one is settled, or nothing changes. -/
theorem step_cases (w : NexusWire Page Reply WireError NexusStatus) (c : ResonancePlaneClient)
    (i : Call Page Opcode) :
    (c.pending = none ∧ submittedBy (Event.of (step w) c i) = some c.nextSequence ∧
      settledBy (Event.of (step w) c i) = none ∧ (step w c i).2.pending = some c.nextSequence ∧
      (step w c i).2.nextSequence = umax (c.nextSequence + 1) 1) ∨
    (∃ q, c.pending = some q ∧ submittedBy (Event.of (step w) c i) = none ∧
      settledBy (Event.of (step w) c i) = some q ∧ (step w c i).2.pending = none ∧
      (step w c i).2.nextSequence = c.nextSequence) ∨
    (submittedBy (Event.of (step w) c i) = none ∧ settledBy (Event.of (step w) c i) = none ∧
      (step w c i).2 = c) := by
  cases i with
  | submit opcode arguments =>
      rcases submit_cases WireError NexusStatus c opcode arguments with ⟨-, hs⟩ | ⟨hnone, hs⟩
      · right; right
        simp only [step, Event.of, submittedBy, settledBy, hs, and_self]
      · left
        simp only [step, Event.of, submittedBy, settledBy, hs, hnone, and_self]
  | pollReply seen later =>
      right
      by_cases hinvalid : c.FindsInvalid w seen later
      · right
        obtain ⟨⟨fault, hp⟩, hpending⟩ := pollReply_invalid hinvalid
        obtain ⟨q, hq⟩ := Option.ne_none_iff_exists'.mp hpending
        simp only [step, Event.of, submittedBy, settledBy, hp, hq, and_self]
      · rcases pollReply_cases hinvalid with hp | ⟨q, hq, hnone, hnext⟩
        · right
          simp only [step, Event.of, submittedBy, settledBy, hp, true_and, and_true]
          cases c.pending <;> rfl
        · left
          exact ⟨q, hq, rfl, by simp only [step, Event.of, settledBy, hnone, hq], hnone, hnext⟩

/-! ## Submitted and settled commands -/

/-- **Every command is settled at most once, and in order**: what was submitted is what was settled, followed by
    the command still pending. -/
theorem submitted_eq_run (hpending : c₀.pending = none) (hr : Run (step w) (fun _ _ => True) c₀ h c) :
    submitted h = settled h ++ c.pending.toList := by
  refine hr.invariant (fun h c => submitted h = settled h ++ c.pending.toList) (by rw [hpending]; rfl) ?_
  intro h c i _ _ ih
  unfold submitted settled at ih ⊢
  rw [filterMap_snoc, filterMap_snoc, ih]
  rcases step_cases w c i with ⟨hnone, hsub, hset, hpost, -⟩ | ⟨q, hq, hsub, hset, hpost, -⟩ | ⟨hsub, hset, hpost⟩
  · rw [hnone, hsub, hset, hpost]
  · rw [hq, hsub, hset, hpost]
  · rw [hsub, hset, hpost]
    simp

/-- Up to the wrap of the counter the sequence numbers submitted are `1, 2, 3, …`. -/
theorem submitted_run (hnext : c₀.nextSequence = 1) (hr : Run (step w) (fun _ _ => True) c₀ h c) :
    (submitted h).length < 2 ^ 64 →
      (submitted h).map BitVec.toNat = List.range' 1 (submitted h).length ∧
      ((submitted h).length + 1 < 2 ^ 64 → c.nextSequence.toNat = (submitted h).length + 1) := by
  refine hr.invariant (fun h c => (submitted h).length < 2 ^ 64 →
    (submitted h).map BitVec.toNat = List.range' 1 (submitted h).length ∧
      ((submitted h).length + 1 < 2 ^ 64 → c.nextSequence.toNat = (submitted h).length + 1)) ?_ ?_
  · intro _
    rw [hnext]
    exact ⟨rfl, fun _ => rfl⟩
  intro h c i _ _ ih
  unfold submitted at ih ⊢
  rw [filterMap_snoc]
  rcases step_cases w c i with ⟨-, hsub, -, -, hpost⟩ | ⟨q, -, hsub, -, -, hpost⟩ | ⟨hsub, -, hpost⟩
  · rw [hsub, hpost]
    generalize h.filterMap submittedBy = sent at ih ⊢
    simp only [Option.toList_some, List.length_append, List.length_singleton, List.map_append, List.map_cons,
      List.map_nil]
    intro hlen
    obtain ⟨hrange, hcount⟩ := ih (by omega)
    have hseq := hcount hlen
    refine ⟨by rw [hrange, hseq, List.range'_concat]; simp [Nat.add_comm], ?_⟩
    intro hlen'
    have h1 : (1 : U64).toNat = 1 := rfl
    rw [toNat_umax, BitVec.toNat_add, h1, hseq, Nat.mod_eq_of_lt hlen']
    omega
  · rw [hsub, hpost]
    simpa using ih
  · rw [hsub, hpost]
    simpa using ih

/-! ## Polls that settle -/

/-- **What polling should do** over a run: each poll returns `Ok(None)` and changes nothing, or leaves no command
    pending and the next `submit` accepted; and no sequence number is settled more often than it was submitted,
    hence not twice before the counter wraps. -/
structure Settles (h : List (ClientEvent Page Reply WireError NexusStatus Opcode)) : Prop where
  polls : ∀ e ∈ h, ∀ seen later, e.call = .pollReply seen later →
    (e.result = .polled (.ok none) ∧ e.post = e.pre) ∨
    (e.post.pending = none ∧ ∀ (opcode : Opcode) arguments,
      ∃ accepted, (e.post.submit opcode arguments : Submission WireError NexusStatus Opcode × _).1 = .ok accepted)
  once : ∀ q, (settled h).count q ≤ (submitted h).count q
  fresh : (submitted h).length < 2 ^ 64 → (settled h).Nodup

/-- No poll of the history finds a malformed reply to the pending command. -/
def NoneInvalid (w : NexusWire Page Reply WireError NexusStatus)
    (h : List (ClientEvent Page Reply WireError NexusStatus Opcode)) : Prop :=
  ∀ e ∈ h, ∀ seen later, e.call = .pollReply seen later → ¬ e.pre.FindsInvalid w seen later

theorem settles_of_noneInvalid (hpending : c₀.pending = none) (hnext : c₀.nextSequence = 1)
    (hr : Run (step w) (fun _ _ => True) c₀ h c) (hvalid : NoneInvalid w h) : Settles h := by
  have hledger := submitted_eq_run hpending hr
  refine ⟨?_, ?_, ?_⟩
  · intro e he seen later hcall
    have hof := hr.event_of he
    rw [hcall] at hof
    rcases pollReply_cases (hvalid e he seen later hcall) with hp | ⟨q, -, hnone, -⟩
    · left
      rw [hof]
      simp only [Event.of, step, hp, and_self]
    · right
      have hpost : e.post.pending = none := by
        rw [hof]
        exact hnone
      exact ⟨hpost, submit_accepts hpost⟩
  · intro q
    rw [hledger, List.count_append]
    exact Nat.le_add_right _ _
  · intro hlen
    have hrange := (submitted_run hnext hr hlen).1
    have hnodup : (submitted h).Nodup := by
      apply List.Nodup.of_map BitVec.toNat
      rw [hrange]
      exact List.nodup_range'
    rw [hledger] at hnodup
    exact (List.nodup_append.mp hnodup).1

theorem noneInvalid_of_settles (hr : Run (step w) (fun _ _ => True) c₀ h c) (hs : Settles h) :
    NoneInvalid w h := by
  intro e he seen later hcall hinvalid
  have hof := hr.event_of he
  rw [hcall] at hof
  obtain ⟨⟨fault, hp⟩, hpending⟩ := pollReply_invalid hinvalid
  rcases hs.polls e he seen later hcall with ⟨hresult, -⟩ | ⟨hnone, -⟩
  · rw [hof] at hresult
    simp only [Event.of, step, hp] at hresult
    cases hresult
  · rw [hof] at hnone
    simp only [Event.of, step, hp] at hnone
    exact hpending hnone

/-- **Polling settles, exactly.** For every plane, every run of a fresh client against arbitrary page contents:
    every poll idles or settles, and every command is settled at most once, exactly when no poll of the run finds
    its reply published and malformed. -/
theorem polling_settles_iff {ingressAddress observationAddress : U64} {ingressAlign observationAlign : Nat}
    {ingressCompatible observationCompatible : Bool} {capability : U64}
    (h₀ : (fromAddresses ingressAddress observationAddress ingressAlign observationAlign ingressCompatible
      observationCompatible capability : Except (PlaneClientError WireError NexusStatus) _) = .ok c₀)
    (hr : Run (step w) (fun _ _ => True) c₀ h c) : Settles h ↔ NoneInvalid w h := by
  have hfresh : c₀.pending = none ∧ c₀.nextSequence = 1 := by
    unfold fromAddresses at h₀
    rw [guard_ok, guard_ok, guard_ok, guard_ok] at h₀
    rw [← Except.ok.inj h₀.2.2.2.2]
    exact ⟨rfl, rfl⟩
  exact ⟨noneInvalid_of_settles hr, settles_of_noneInvalid hfresh.1 hfresh.2 hr⟩

end

/-! ### A malformed reply

A page is the last sequence number and the number stamped on the filed reply. -/

def stampWire : NexusWire (U64 × U64) U64 Unit Bool where
  lastReplySequence page := page.1
  reply page _ := some page.2
  validate reply expected := if reply = expected then .ok true else .error ()
  ok := true

def freshClient : ResonancePlaneClient where
  capability := 9
  nextSequence := 1
  pending := none
  droppedReplies := 0

def oneCommand (page : U64 × U64) : List (Call (U64 × U64) Unit) :=
  [.submit () (Vector.replicate 4 0), .pollReply page page]

theorem freshClient_fromAddresses :
    (fromAddresses 0x1000 0x2000 64 64 true true 9 : Except (PlaneClientError Unit Bool) _)
      = .ok freshClient := rfl

/-- A command whose reply is filed under its own number is settled. -/
theorem polling_settles_sample :
    Settles (trace (step stampWire) freshClient (oneCommand (1, 1))) ∧
      settled (trace (step stampWire) freshClient (oneCommand (1, 1))) = [1] := by
  have hr := Run.replay (step stampWire) freshClient (oneCommand (1, 1))
  refine ⟨(polling_settles_iff freshClient_fromAddresses hr).mpr ?_, by decide⟩
  intro e he seen later hcall hinvalid
  obtain ⟨expected, reply, fault, hpending, -, -, hreply, hvalidate⟩ := hinvalid
  rcases List.mem_cons.mp he with rfl | he
  · cases hcall
  · obtain rfl := List.mem_singleton.mp he
    obtain rfl : (1, 1) = later := (Call.pollReply.inj hcall).2
    obtain rfl : 1 = expected := Option.some.inj hpending
    obtain rfl : 1 = reply := Option.some.inj hreply
    cases hvalidate

/-- The client after its command found a reply stamped with another number. -/
def blockedClient : ResonancePlaneClient := finalState (step stampWire) freshClient (oneCommand (1, 2))

/-- **A malformed reply blocks the client.** The poll reports it and leaves the command pending; polling the same
    page again changes nothing, and `submit` is refused. -/
theorem malformed_reply_blocks :
    Run (step stampWire) (fun _ _ => True) freshClient
      (trace (step stampWire) freshClient (oneCommand (1, 2))) blockedClient ∧
    blockedClient.pending = some 1 ∧
    blockedClient.pollReply stampWire (1, 2) (1, 2) = (.error (.wire ()), blockedClient) ∧
    (blockedClient.submit () (Vector.replicate 4 0) : Submission Unit Bool Unit × _)
      = (.error .commandAlreadyPending, blockedClient) :=
  ⟨Run.replay (step stampWire) freshClient (oneCommand (1, 2)), rfl, rfl, rfl⟩

end ResonancePlaneClient

end Slope.Resonance
