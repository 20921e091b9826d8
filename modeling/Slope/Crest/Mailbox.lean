import Mathlib.Data.Fintype.Basic
import Mathlib.Logic.Equiv.Defs
import Slope.Crest.Records
import Slope.Lib.Run

/-!
# `Crest.Mailbox` — the three one-slot mailboxes of the page

`SnapshotCell`, `CommandMailbox` and `ReplyMailbox` are one mailbox at three types of record: a four-state
word that is moved by compare-exchange on entry and by a plain store on exit, and an unsynchronised value.
`publish` and `take` are given twice: as whole calls, for a page whose operations run one after the other,
and cut at their accesses to shared memory, for any number of threads that call them at once.

As in the ring, the copy of a record is not atomic: `split` cuts it into parts, copied one at a time and in
any order.
-/

namespace Slope.Crest

inductive QuantumPortalError where
  | busy
  | empty
  | corrupt
  | invalid
deriving DecidableEq

inductive MailboxState where
  | free
  | writing
  | ready
  | reading
deriving DecidableEq

structure Mailbox (V : Type) where
  state : MailboxState
  value : V
deriving DecidableEq

namespace Mailbox

variable {V : Type}

def new (value : V) : Mailbox V := ⟨.free, value⟩

/-- `state.store` -/
def store (m : Mailbox V) (state : MailboxState) : Mailbox V := { m with state }

/-- `state.compare_exchange`: the mailbox after a successful exchange. -/
def compareExchange (m : Mailbox V) (current new : MailboxState) : Option (Mailbox V) :=
  if m.state = current then some (m.store new) else none

def publish (m : Mailbox V) (value : V) : Except QuantumPortalError Unit × Mailbox V :=
  match m.compareExchange .free .writing with
  | none => (.error .busy, m)
  | some m => (.ok (), { m with value }.store .ready)

def take (m : Mailbox V) : Except QuantumPortalError (Option V) × Mailbox V :=
  match m.compareExchange .ready .reading with
  | none => (.ok none, m)
  | some m => (.ok (some m.value), m.store .free)

section

variable {m : Mailbox V}

theorem publish_free (h : m.state = .free) (v : V) : m.publish v = (.ok (), ⟨.ready, v⟩) := by
  simp [publish, compareExchange, store, h]

theorem publish_busy (h : m.state ≠ .free) (v : V) : m.publish v = (.error .busy, m) := by
  simp [publish, compareExchange, h]

theorem take_ready (h : m.state = .ready) : m.take = (.ok (some m.value), m.store .free) := by
  simp [take, compareExchange, store, h]

theorem take_empty (h : m.state ≠ .ready) : m.take = (.ok none, m) := by
  simp [take, compareExchange, h]

end

end Mailbox

/-! ## The three mailboxes -/

abbrev SnapshotCell := Mailbox QuantumSystemSnapshot
abbrev CommandMailbox := Mailbox QuantumDesktopCommand
abbrev ReplyMailbox := Mailbox QuantumDesktopReply

def SnapshotCell.new : SnapshotCell := Mailbox.new .empty
def SnapshotCell.publish (m : SnapshotCell) (value : QuantumSystemSnapshot) := Mailbox.publish m value
def SnapshotCell.take (m : SnapshotCell) := Mailbox.take m

def CommandMailbox.new : CommandMailbox := Mailbox.new .empty
def CommandMailbox.submit (m : CommandMailbox) (value : QuantumDesktopCommand) := Mailbox.publish m value
def CommandMailbox.take (m : CommandMailbox) := Mailbox.take m

def ReplyMailbox.new : ReplyMailbox := Mailbox.new .empty
def ReplyMailbox.publish (m : ReplyMailbox) (value : QuantumDesktopReply) := Mailbox.publish m value
def ReplyMailbox.take (m : ReplyMailbox) := Mailbox.take m

/-- Which of the page's mailboxes. -/
inductive PageMailbox where
  | snapshot
  | command
  | reply

/-- The records a mailbox carries. -/
def PageMailbox.Record : PageMailbox → Type
  | snapshot => QuantumSystemSnapshot
  | command => QuantumDesktopCommand
  | reply => QuantumDesktopReply

/-- The mailbox as the page creates it. -/
def PageMailbox.new : (box : PageMailbox) → Mailbox box.Record
  | snapshot => SnapshotCell.new
  | command => CommandMailbox.new
  | reply => ReplyMailbox.new

/-! ## Any number of threads, one atomic step at a time -/

/-- Where a thread stands in `publish` or `take`, with its locals. -/
inductive MailboxPc (V : Type) {Part : Type} (Cell : Part → Type) where
  | idle
  | publishing (value : V)
  | writing (value : V) (pending : Finset Part)
  | taking
  | reading (pending : Finset Part) (buffer : (p : Part) → Cell p)

/-- The shared mailbox, its value cut into parts, and the threads. -/
structure MailboxSystem (τ V : Type) {Part : Type} (Cell : Part → Type) where
  box : Mailbox ((p : Part) → Cell p)
  pc : τ → MailboxPc V Cell

/-- What the scheduler lets happen next: an idle thread calls, a thread that copies a record copies one of
    its parts, or a thread takes the next step of its program. -/
inductive MailboxAction (τ V Part : Type) where
  | publish (t : τ) (value : V)
  | take (t : τ)
  | copy (t : τ) (p : Part)
  | advance (t : τ)

inductive MailboxReply (V : Type) where
  | published (value : V) (result : Except QuantumPortalError Unit)
  | taken (result : Except QuantumPortalError (Option V))

namespace MailboxSystem

variable {τ V Part : Type} {Cell : Part → Type}

def new (split : V ≃ ((p : Part) → Cell p)) (box : Mailbox V) : MailboxSystem τ V Cell where
  box := ⟨box.state, split box.value⟩
  pc := fun _ => .idle

variable [DecidableEq τ]

def goto (s : MailboxSystem τ V Cell) (t : τ) (pc : MailboxPc V Cell) : MailboxSystem τ V Cell :=
  { s with pc := Function.update s.pc t pc }

variable [DecidableEq Part] (split : V ≃ ((p : Part) → Cell p)) (s : MailboxSystem τ V Cell)

/-- One part of `value.write` or `value.read`. -/
def copyPart (t : τ) (p : Part) : MailboxSystem τ V Cell :=
  match s.pc t with
  | .writing value pending =>
    if p ∈ pending then
      { s with box := { s.box with value := Function.update s.box.value p (split value p) } }.goto t
        (.writing value (pending.erase p))
    else s
  | .reading pending buffer =>
    if p ∈ pending then
      s.goto t (.reading (pending.erase p) (Function.update buffer p (s.box.value p)))
    else s
  | _ => s

variable [Fintype Part] (blank : (p : Part) → Cell p)

/-- The steps of `publish` and `take` on the state word. The store on exit is the last access to shared
    memory, and the call returns with it. A reader's buffer starts out `blank`: every part is overwritten. -/
def advance (t : τ) : Option (MailboxReply V) × MailboxSystem τ V Cell :=
  match s.pc t with
  | .idle => (none, s)
  | .publishing value =>
    match s.box.compareExchange .free .writing with
    | none => (some (.published value (.error .busy)), s.goto t .idle)
    | some box => (none, { s with box }.goto t (.writing value .univ))
  | .writing value pending =>
    if pending = ∅ then
      (some (.published value (.ok ())), { s with box := s.box.store .ready }.goto t .idle)
    else (none, s)
  | .taking =>
    match s.box.compareExchange .ready .reading with
    | none => (some (.taken (.ok none)), s.goto t .idle)
    | some box => (none, { s with box }.goto t (.reading .univ blank))
  | .reading pending buffer =>
    if pending = ∅ then
      (some (.taken (.ok (some (split.symm buffer)))), { s with box := s.box.store .free }.goto t .idle)
    else (none, s)

/-- **One atomic step.** A step that the thread is not ready for leaves everything as it is. -/
def step : MailboxAction τ V Part → Option (MailboxReply V) × MailboxSystem τ V Cell
  | .publish t value =>
    match s.pc t with
    | .idle => (none, s.goto t (.publishing value))
    | _ => (none, s)
  | .take t =>
    match s.pc t with
    | .idle => (none, s.goto t .taking)
    | _ => (none, s)
  | .copy t p => (none, s.copyPart split t p)
  | .advance t => s.advance split blank t

end MailboxSystem

end Slope.Crest
