import Slope.Lib.Run
import Slope.Lib.Serial
import Slope.Syscall

/-!
# `Nexus.Client` — the sequence numbers of a nexus client

`NexusClient` sends one command a call and takes the kernel's reply only if it validates against the sequence
number of that command. Telemetry has no command, but uses up a number too; so does a call that fails. The kernel
is a parameter of every call: the word in `rax`, and the record it wrote.
-/

namespace Slope.Nexus

/-- The opcodes that the client sends. -/
inductive NexusOpcode where
  | queryStats
  | attachTask
  | entangle
  | setCollapseThreshold
  | setPriorityMass
  | offerKairos
deriving DecidableEq

/-- What the external crate makes of the records that the kernel wrote. -/
structure NexusWire (Reply Telemetry WireError NexusStatus : Type) where
  validate : Reply → U64 → Except WireError NexusStatus
  validateTelemetry : Telemetry → Except WireError Unit
  /-- `NexusStatus::Ok` -/
  ok : NexusStatus

inductive NexusClientError (WireError NexusStatus : Type) where
  | syscall (e : SyscallError)
  | wire (fault : WireError)
  | kernel (status : NexusStatus)
deriving DecidableEq

/-- The arguments of `NexusCommand::new`. -/
structure NexusCommand where
  opcode : NexusOpcode
  sequence : U64
  capability : U64
  arguments : Vector U64 4
deriving DecidableEq

structure NexusClient where
  capability : U64
  nextSequence : U64
deriving DecidableEq

/-- The client's calls, each with the kernel's answer to it. -/
inductive ClientCall (Reply Telemetry : Type) where
  | transact (opcode : NexusOpcode) (arguments : Vector U64 4) (rax : U64) (reply : Reply)
  | telemetry (rax : U64) (frame : Telemetry)

/-- What a call returned. -/
inductive ClientAnswer (Reply Telemetry WireError NexusStatus : Type) where
  | replied (command : NexusCommand) (result : Except (NexusClientError WireError NexusStatus) Reply)
  | measured (sequence : U64) (result : Except (NexusClientError WireError NexusStatus) Telemetry)

/-- The sequence number that a call used. -/
def ClientAnswer.sequence {Reply Telemetry WireError NexusStatus : Type} :
    ClientAnswer Reply Telemetry WireError NexusStatus → U64
  | replied command _ => command.sequence
  | measured sequence _ => sequence

namespace NexusClient

def new (capability : U64) : NexusClient := ⟨capability, 1⟩

section

variable {Reply Telemetry WireError NexusStatus : Type} [DecidableEq NexusStatus]
  (w : NexusWire Reply Telemetry WireError NexusStatus)

/-- The part of `transact` after the system call. -/
def receive (sequence rax : U64) (reply : Reply) : Except (NexusClientError WireError NexusStatus) Reply :=
  match syscallResult rax with
  | .error e => .error (.syscall e)
  | .ok _ =>
    match w.validate reply sequence with
    | .error fault => .error (.wire fault)
    | .ok status => if status ≠ w.ok then .error (.kernel status) else .ok reply

/-- The part of `telemetry` after the system call. -/
def measure (rax : U64) (frame : Telemetry) : Except (NexusClientError WireError NexusStatus) Telemetry :=
  match syscallResult rax with
  | .error e => .error (.syscall e)
  | .ok _ =>
    match w.validateTelemetry frame with
    | .error fault => .error (.wire fault)
    | .ok () => .ok frame

/-- `transact` and `telemetry`: both advance the counter before anything can fail. -/
def step (c : NexusClient) :
    ClientCall Reply Telemetry → ClientAnswer Reply Telemetry WireError NexusStatus × NexusClient
  | .transact opcode arguments rax reply =>
    let sequence := c.nextSequence
    let c := { c with nextSequence := Serial.advance c.nextSequence }
    (.replied ⟨opcode, sequence, c.capability, arguments⟩ (receive w sequence rax reply), c)
  | .telemetry rax frame =>
    let sequence := c.nextSequence
    let c := { c with nextSequence := Serial.advance c.nextSequence }
    (.measured sequence (measure w rax frame), c)

/-! ## Runs -/

abbrev ClientEvent (Reply Telemetry WireError NexusStatus : Type) :=
  Event NexusClient (ClientCall Reply Telemetry) (ClientAnswer Reply Telemetry WireError NexusStatus)

variable {w} {c : NexusClient} {h : List (ClientEvent Reply Telemetry WireError NexusStatus)} {capability : U64}

/-- A reply that is taken validated against the number it was asked for. -/
theorem receive_ok {sequence rax : U64} {reply taken : Reply}
    (hok : receive w sequence rax reply = .ok taken) :
    taken = reply ∧ (∃ r, syscallResult rax = .ok r) ∧ w.validate reply sequence = .ok w.ok := by
  unfold receive at hok
  cases hres : syscallResult rax with
  | error e => rw [hres] at hok; cases hok
  | ok r =>
      rw [hres] at hok
      cases hval : w.validate reply sequence with
      | error fault => rw [hval] at hok; cases hok
      | ok status =>
          simp only [hval] at hok
          split at hok
          · cases hok
          next hstatus =>
            cases hok
            exact ⟨rfl, ⟨r, rfl⟩, congrArg _ (not_not.mp hstatus)⟩

/-- **Run lemma.** Each call of a run uses the number of its place in the run, whatever the calls before it came
    to, and the counter stands at the next one. -/
theorem sequence_run {allowed : List (ClientEvent Reply Telemetry WireError NexusStatus) →
      ClientCall Reply Telemetry → Prop} (hr : Run (step w) allowed (.new capability) h c) :
    c.nextSequence = Serial.nth 64 h.length ∧ c.capability = capability ∧
      ∀ (i : Nat) (e : ClientEvent Reply Telemetry WireError NexusStatus), h[i]? = some e →
        e.result.sequence = Serial.nth 64 i := by
  refine hr.invariant (fun h c => c.nextSequence = Serial.nth 64 h.length ∧ c.capability = capability ∧
    ∀ (i : Nat) (e : ClientEvent Reply Telemetry WireError NexusStatus), h[i]? = some e →
      e.result.sequence = Serial.nth 64 i) ⟨rfl, rfl, by simp⟩ ?_
  intro h c call _ _ ⟨hnext, hcap, hseq⟩
  have hstep : (step w c call).2.nextSequence = Serial.advance c.nextSequence ∧
      (step w c call).2.capability = c.capability ∧ (step w c call).1.sequence = c.nextSequence := by
    cases call <;> exact ⟨rfl, rfl, rfl⟩
  refine ⟨?_, hstep.2.1.trans hcap, fun i e he => ?_⟩
  · rw [hstep.1, hnext, List.length_append, List.length_singleton, Serial.nth_succ]
  · rcases Nat.lt_or_ge i h.length with hi | hi
    · rw [List.getElem?_append_left hi] at he
      exact hseq i e he
    · rw [List.getElem?_append_right hi] at he
      obtain rfl : e = Event.of (step w) c call := List.mem_singleton.mp (List.mem_of_getElem? he)
      obtain ⟨hlt, -⟩ := List.getElem?_eq_some_iff.mp he
      obtain rfl : i = h.length := by
        rw [List.length_singleton] at hlt
        omega
      rw [← hnext]
      exact hstep.2.2

/-- **Every reply belongs to its call.** In every run of a client, for every kernel: no call uses the number
    zero, and two calls use the same number exactly if they are a multiple of `2 ^ 64 - 1` calls apart, failed
    calls and telemetry counted; a reply that is taken is the record the kernel wrote, and it validated as a
    success against the number of that very call. So with a record that validates against one number only, a
    reply taken in one call is not taken in another one less than `2 ^ 64 - 1` calls away. -/
theorem replies_matched (hr : Run (step w) (fun _ _ => True) (.new capability) h c) :
    (∀ (i : Nat) (e : ClientEvent Reply Telemetry WireError NexusStatus), h[i]? = some e → e.result.sequence ≠ 0) ∧
    (∀ (i j : Nat) (e e' : ClientEvent Reply Telemetry WireError NexusStatus), h[i]? = some e → h[j]? = some e' →
      (e.result.sequence = e'.result.sequence ↔ i % (2 ^ 64 - 1) = j % (2 ^ 64 - 1))) ∧
    (∀ (i : Nat) (e : ClientEvent Reply Telemetry WireError NexusStatus) command taken, h[i]? = some e →
      e.result = .replied command (.ok taken) → command.sequence = Serial.nth 64 i ∧
        command.capability = capability ∧ w.validate taken command.sequence = .ok w.ok) ∧
    ((∀ reply s s' status status', w.validate reply s = .ok status → w.validate reply s' = .ok status' → s = s') →
      ∀ (i j : Nat) (e e' : ClientEvent Reply Telemetry WireError NexusStatus) command command' taken,
        h[i]? = some e → h[j]? = some e' → e.result = .replied command (.ok taken) →
        e'.result = .replied command' (.ok taken) → i % (2 ^ 64 - 1) = j % (2 ^ 64 - 1)) := by
  obtain ⟨-, -, hseq⟩ := sequence_run hr
  have htaken : ∀ (i : Nat) (e : ClientEvent Reply Telemetry WireError NexusStatus) command taken, h[i]? = some e →
      e.result = .replied command (.ok taken) → command.sequence = Serial.nth 64 i ∧
        command.capability = capability ∧ w.validate taken command.sequence = .ok w.ok := by
    intro i e command taken he hres
    obtain ⟨h₁, h₂, hsplit⟩ := List.append_of_mem (List.mem_of_getElem? he)
    have hpre := (hr.cut hsplit).1
    have hnumber := hseq i e he
    rw [hres] at hnumber
    have hof := congrArg Event.result (hr.event_of (List.mem_of_getElem? he))
    rw [hres] at hof
    refine ⟨hnumber, ?_, ?_⟩
    · cases hcall : e.call with
      | transact opcode arguments rax reply =>
          rw [hcall] at hof
          obtain ⟨hcommand, -⟩ := ClientAnswer.replied.inj hof
          rw [hcommand]
          exact (sequence_run hpre).2.1
      | telemetry rax frame => rw [hcall] at hof; cases hof
    · cases hcall : e.call with
      | transact opcode arguments rax reply =>
          rw [hcall] at hof
          obtain ⟨hcommand, hresult⟩ := ClientAnswer.replied.inj hof
          obtain ⟨rfl, -, hval⟩ := receive_ok hresult.symm
          rw [hcommand]
          exact hval
      | telemetry rax frame => rw [hcall] at hof; cases hof
  refine ⟨fun i e he => ?_, fun i j e e' he he' => ?_, htaken, ?_⟩
  · rw [hseq i e he]
    exact Serial.nth_ne_zero (by decide) i
  · rw [hseq i e he, hseq j e' he']
    exact Serial.nth_eq_iff (by decide)
  · intro honly i j e e' command command' taken he he' hres hres'
    obtain ⟨hnum, -, hval⟩ := htaken i e command taken he hres
    obtain ⟨hnum', -, hval'⟩ := htaken j e' command' taken he' hres'
    have hsame := honly taken _ _ _ _ hval hval'
    rw [hnum, hnum'] at hsame
    exact (Serial.nth_eq_iff (by decide)).mp hsame

end

/-- Replies that are their own sequence number. -/
def echoWire : NexusWire U64 Unit Unit Bool :=
  ⟨fun reply s => if reply = s then .ok true else .error (), fun _ => .ok (), true⟩

/-- The second call is answered with the reply of the first one. -/
def staleCalls : List (ClientCall U64 Unit) :=
  [.transact .queryStats (Vector.replicate 4 0) 0 1, .transact .queryStats (Vector.replicate 4 0) 0 1, .telemetry 0 ()]

/-- The reply is taken once and refused the second time; each call has a number of its own. -/
theorem replies_matched_stale :
    (trace (step echoWire) (.new 7) staleCalls).map Event.result
      = [.replied ⟨.queryStats, 1, 7, Vector.replicate 4 0⟩ (.ok 1),
        .replied ⟨.queryStats, 2, 7, Vector.replicate 4 0⟩ (.error (.wire ())), .measured 3 (.ok ())] ∧
    ∀ (i : Nat) (e : ClientEvent U64 Unit Unit Bool), (trace (step echoWire) (.new 7) staleCalls)[i]? = some e →
      e.result.sequence ≠ 0 := by
  have hr := Run.replay (step echoWire) (.new 7) staleCalls
  exact ⟨rfl, (replies_matched hr).1⟩

end NexusClient

end Slope.Nexus
