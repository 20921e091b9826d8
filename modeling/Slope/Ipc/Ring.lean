import Mathlib.Data.Fintype.Basic
import Mathlib.Logic.Equiv.Defs
import Slope.Lib.Run
import Slope.Lib.Word

/-!
# `Ipc.Ring` — the single-producer/single-consumer ring, one atomic step at a time

`send` and `recv` of `SpscRing`, cut at their accesses to shared memory: load the index, compare-exchange the
slot's state, copy the message, store the slot's state, store the index. Producer and consumer each have a
program counter, and a scheduler interleaves their steps in any order.

The copy of a message is not atomic. `split` cuts a `ChannelMessage` into parts (fields, bytes, or one single
part), and the parts are copied one at a time and in any order.
-/

namespace Slope.Ipc

def channelDepth : Nat := 128

def payloadBytes : Nat := 48

structure ChannelMessage where
  capability : U64
  tag : U32
  sequence : U32
  payload : Vector U8 payloadBytes
deriving DecidableEq

namespace ChannelMessage

def empty : ChannelMessage where
  capability := 0
  tag := 0
  sequence := 0
  payload := Vector.replicate payloadBytes 0

def withTag (tag : U32) : ChannelMessage := { empty with tag }

end ChannelMessage

/-! ## Shared memory -/

inductive SlotState where
  | empty
  | writing
  | ready
  | reading
deriving DecidableEq

inductive ChannelError where
  | full
deriving DecidableEq

structure RingSlot {Part : Type} (Cell : Part → Type) where
  state : SlotState
  message : (p : Part) → Cell p

structure SpscRing {Part : Type} (Cell : Part → Type) where
  producer : U32
  consumer : U32
  slots : Fin channelDepth → RingSlot Cell

/-- `slots[index % CHANNEL_DEPTH]`. -/
def slotOf (index : Nat) : Fin channelDepth := ⟨index % channelDepth, Nat.mod_lt _ (by decide)⟩

namespace SpscRing

variable {Part : Type} [DecidableEq Part] {Cell : Part → Type}

def new (split : ChannelMessage ≃ ((p : Part) → Cell p)) : SpscRing Cell where
  producer := 0
  consumer := 0
  slots := fun _ => ⟨.empty, split .empty⟩

/-- `slot.state.store`. -/
def storeState (r : SpscRing Cell) (i : Fin channelDepth) (state : SlotState) : SpscRing Cell :=
  { r with slots := Function.update r.slots i { r.slots i with state } }

/-- `slot.state.compare_exchange`: the ring after a successful exchange. -/
def compareExchange (r : SpscRing Cell) (i : Fin channelDepth) (current new : SlotState) :
    Option (SpscRing Cell) :=
  if (r.slots i).state = current then some (r.storeState i new) else none

/-- One part of the assignment to `slot.message`. -/
def storePart (r : SpscRing Cell) (i : Fin channelDepth) (p : Part) (cell : Cell p) : SpscRing Cell :=
  let slot := { r.slots i with message := Function.update (r.slots i).message p cell }
  { r with slots := Function.update r.slots i slot }

end SpscRing

/-! ## The two threads -/

/-- Where the producer stands in `send`, with its locals. -/
inductive SendPc (Part : Type) where
  | idle
  | loaded (message : ChannelMessage) (head : Nat)
  | writing (message : ChannelMessage) (head : Nat) (pending : Finset Part)
  | published (message : ChannelMessage) (head : Nat)

/-- Where the consumer stands in `recv`, or in `is_empty`, with its locals. -/
inductive RecvPc {Part : Type} (Cell : Part → Type) where
  | idle
  | loaded (tail : Nat)
  | reading (tail : Nat) (pending : Finset Part) (buffer : (p : Part) → Cell p)
  | vacated (message : ChannelMessage) (tail : Nat)
  | checking (tail : Nat)

structure RingSystem {Part : Type} (Cell : Part → Type) where
  ring : SpscRing Cell
  producer : SendPc Part
  consumer : RecvPc Cell

/-- What the scheduler lets happen next: a thread that is idle calls, a thread that copies a message copies
    one of its parts, or a thread takes the next step of its program. -/
inductive Action (Part : Type) where
  | send (message : ChannelMessage)
  | write (p : Part)
  | producer
  | recv
  | read (p : Part)
  | consumer
  | isEmpty

inductive Reply where
  | sent (message : ChannelMessage) (result : Except ChannelError Unit)
  | received (result : Option ChannelMessage)
  | isEmpty (result : Bool)

namespace RingSystem

variable {Part : Type} [DecidableEq Part] {Cell : Part → Type}

def new (split : ChannelMessage ≃ ((p : Part) → Cell p)) : RingSystem Cell where
  ring := .new split
  producer := .idle
  consumer := .idle

section

variable [Fintype Part] (split : ChannelMessage ≃ ((p : Part) → Cell p)) (s : RingSystem Cell)

/-- The steps of `send` after the load of the index. -/
def producerStep : Option Reply × RingSystem Cell :=
  match s.producer with
  | .idle => (none, s)
  | .loaded message head =>
    match s.ring.compareExchange (slotOf head) .empty .writing with
    -- a slot in any other state than `EMPTY` means full
    | none => (some (.sent message (.error .full)), { s with producer := .idle })
    | some ring => (none, { s with ring, producer := .writing message head .univ })
  | .writing message head pending =>
    if pending = ∅ then
      (none, { s with ring := s.ring.storeState (slotOf head) .ready
                      producer := .published message head })
    else (none, s)
  | .published message head =>
    (some (.sent message (.ok ())),
      { s with ring := { s.ring with producer := BitVec.ofNat 32 ((head + 1) % channelDepth) }
               producer := .idle })

/-- The steps of `recv` after the load of the index, and the last step of `is_empty`. The buffer of a claimed
    slot starts out with any content: every part is overwritten before it is read. -/
def consumerStep : Option Reply × RingSystem Cell :=
  match s.consumer with
  | .idle => (none, s)
  | .loaded tail =>
    match s.ring.compareExchange (slotOf tail) .ready .reading with
    | none => (some (.received none), { s with consumer := .idle })
    | some ring => (none, { s with ring, consumer := .reading tail .univ (split .empty) })
  | .reading tail pending buffer =>
    if pending = ∅ then
      (none, { s with ring := s.ring.storeState (slotOf tail) .empty
                      consumer := .vacated (split.symm buffer) tail })
    else (none, s)
  | .vacated message tail =>
    (some (.received (some message)),
      { s with ring := { s.ring with consumer := BitVec.ofNat 32 ((tail + 1) % channelDepth) }
               consumer := .idle })
  | .checking tail =>
    (some (.isEmpty (decide ((s.ring.slots (slotOf tail)).state ≠ .ready))), { s with consumer := .idle })

/-- The producer writes one part of the message. -/
def writePart (p : Part) : RingSystem Cell :=
  match s.producer with
  | .writing message head pending =>
    if p ∈ pending then
      { s with ring := s.ring.storePart (slotOf head) p (split message p)
               producer := .writing message head (pending.erase p) }
    else s
  | _ => s

/-- The consumer reads one part of the message. -/
def readPart (p : Part) : RingSystem Cell :=
  match s.consumer with
  | .reading tail pending buffer =>
    if p ∈ pending then
      let buffer := Function.update buffer p ((s.ring.slots (slotOf tail)).message p)
      { s with consumer := .reading tail (pending.erase p) buffer }
    else s
  | _ => s

/-- **One atomic step.** A step that the thread is not ready for leaves everything as it is. -/
def step : Action Part → Option Reply × RingSystem Cell
  | .send message =>
    match s.producer with
    | .idle => (none, { s with producer := .loaded message s.ring.producer.toNat })
    | _ => (none, s)
  | .write p => (none, s.writePart split p)
  | .producer => s.producerStep
  | .recv =>
    match s.consumer with
    | .idle => (none, { s with consumer := .loaded s.ring.consumer.toNat })
    | _ => (none, s)
  | .read p => (none, s.readPart p)
  | .consumer => s.consumerStep split
  | .isEmpty =>
    match s.consumer with
    | .idle => (none, { s with consumer := .checking s.ring.consumer.toNat })
    | _ => (none, s)

end

end RingSystem

end Slope.Ipc
