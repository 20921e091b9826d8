import Mathlib.Data.Finset.Basic
import Mathlib.Data.Finset.Range
import Mathlib.Data.List.OfFn
import Slope.Lib.Fifo
import Slope.Lib.Run
import Slope.Lib.Word

/-!
# `Bridge.Ring` — the DMA ring between a user and a device, one access to shared memory at a time

`BifrostRing` has two rings of descriptors. The user's calls are cut at their accesses: `try_receive` loads its
index, compare-exchanges the descriptor's state and loads the length; dropping the packet it returned, and the
path for a length the hardware got wrong, store a zero length, the state and the index; `transmit` copies its
payload byte by byte, in any order, between its compare-exchange and its three stores.

The device is not part of the program. It goes around each ring in order and touches a descriptor only while
the state says that it is the device's: it writes any bytes and any length and marks the descriptor ready, and
it copies a frame out, byte by byte, and marks the descriptor free.

Receiving and transmitting have a program counter each. A user with one thread never moves both at once;
nothing below needs that.
-/

namespace Slope.Bridge

def ringEntries : Nat := 256

def maximumFrameBytes : Nat := 2048

inductive BridgeError where
  | invalidPayloadLength
  | invalidHardwareLength
  | transmitQueueFull
deriving DecidableEq

inductive ReceiveState where
  | deviceOwned
  | ready
  | userHeld
deriving DecidableEq

inductive TransmitState where
  | free
  | building
  | deviceOwned
deriving DecidableEq

abbrev FrameBuffer := Fin maximumFrameBytes → U8

structure DmaDescriptor (σ : Type) where
  buffer : FrameBuffer
  length : U32
  state : σ

/-- `buffer[..length]`, for a length that fits. -/
def frame (buffer : FrameBuffer) (length : Nat) : List U8 :=
  List.ofFn fun i : Fin (min length maximumFrameBytes) => buffer (i.castLE (Nat.min_le_right ..))

structure BifrostRing where
  receiveConsumer : U32
  transmitProducer : U32
  receive : Fin ringEntries → DmaDescriptor ReceiveState
  transmit : Fin ringEntries → DmaDescriptor TransmitState

theorem ringEntries_pos : 0 < ringEntries := by decide

/-- The descriptor of position `index`. -/
def entryOf (index : Nat) : Fin ringEntries := ringSlot ringEntries_pos index

def nextIndex (index : Nat) : U32 := BitVec.ofNat 32 ((index + 1) % ringEntries)

namespace BifrostRing

def new : BifrostRing where
  receiveConsumer := 0
  transmitProducer := 0
  receive := fun _ => ⟨fun _ => 0, 0, .deviceOwned⟩
  transmit := fun _ => ⟨fun _ => 0, 0, .free⟩

def storeReceive (r : BifrostRing) (index : Nat) (d : DmaDescriptor ReceiveState) : BifrostRing :=
  { r with receive := Function.update r.receive (entryOf index) d }

def storeTransmit (r : BifrostRing) (index : Nat) (d : DmaDescriptor TransmitState) : BifrostRing :=
  { r with transmit := Function.update r.transmit (entryOf index) d }

end BifrostRing

/-! ## The two parties -/

structure ReceivedPacket where
  index : Nat
  length : Nat

/-- `ReceivedPacket::bytes` -/
def ReceivedPacket.bytes (packet : ReceivedPacket) (r : BifrostRing) : List U8 :=
  frame (r.receive (entryOf packet.index)).buffer packet.length

/-- Who gives a received descriptor back: the packet's drop, or `try_receive` for a length out of range. -/
inductive Release where
  | drop
  | discard
deriving DecidableEq

/-- Where the user stands in `try_receive` or in the drop of a packet. -/
inductive ReceivePc where
  | idle
  | loaded (index : Nat)
  | claimed (index : Nat)
  | emptying (index : Nat) (path : Release)
  | releasing (index : Nat) (path : Release)
  | advancing (index : Nat) (path : Release)

/-- Where the user stands in `transmit`. -/
inductive TransmitPc where
  | idle
  | loaded (payload : List U8) (index : Nat)
  | building (payload : List U8) (index : Nat) (pending : Finset Nat)
  | handing (payload : List U8) (index : Nat)
  | advancing (payload : List U8) (index : Nat)

/-- The device: its position in each ring, and what it has copied of the frame it drains. -/
structure Device where
  fillNext : Nat
  drainNext : Nat
  copied : Finset Nat
  copy : FrameBuffer

structure BifrostSystem where
  ring : BifrostRing
  receiver : ReceivePc
  packets : List ReceivedPacket
  transmitter : TransmitPc
  device : Device

/-- What the device put into a descriptor. -/
structure Fill where
  buffer : FrameBuffer
  length : U32

inductive BridgeAction where
  | tryReceive
  | drop (packet : Nat)
  | receiver
  | transmit (payload : List U8)
  | copy (i : Fin maximumFrameBytes)
  | transmitter
  | fillByte (i : Fin maximumFrameBytes) (byte : U8)
  | fillLength (length : U32)
  | fillReady
  | drainByte (i : Fin maximumFrameBytes)
  | drainFree

/-- What a step completes. A packet is given by the bytes it shows when `try_receive` returns it. -/
inductive BridgeReply where
  | received (result : Except BridgeError (Option (List U8)))
  | dropped
  | transmitted (payload : List U8) (result : Except BridgeError Unit)
  | filled (fill : Fill)
  | drained (frame : List U8)

namespace BifrostSystem

def new : BifrostSystem where
  ring := .new
  receiver := .idle
  packets := []
  transmitter := .idle
  device := ⟨0, 0, ∅, fun _ => 0⟩

variable (s : BifrostSystem)

/-- The descriptor that the device fills next. -/
def filling : DmaDescriptor ReceiveState := s.ring.receive (entryOf s.device.fillNext)

/-- The descriptor that the device drains next. -/
def draining : DmaDescriptor TransmitState := s.ring.transmit (entryOf s.device.drainNext)

/-- The steps of `try_receive` after the load of the index, and of `drop`. -/
def receiverStep : Option BridgeReply × BifrostSystem :=
  match s.receiver with
  | .idle => (none, s)
  | .loaded index =>
    let d := s.ring.receive (entryOf index)
    if d.state = .ready then
      (none, { s with ring := s.ring.storeReceive index { d with state := .userHeld }
                      receiver := .claimed index })
    else (some (.received (.ok none)), { s with receiver := .idle })
  | .claimed index =>
    let packet : ReceivedPacket := ⟨index, (s.ring.receive (entryOf index)).length.toNat⟩
    if maximumFrameBytes < packet.length then (none, { s with receiver := .emptying index .discard })
    else
      (some (.received (.ok (some (packet.bytes s.ring)))),
        { s with receiver := .idle, packets := s.packets ++ [packet] })
  | .emptying index path =>
    let d := s.ring.receive (entryOf index)
    (none, { s with ring := s.ring.storeReceive index { d with length := 0 }
                    receiver := .releasing index path })
  | .releasing index path =>
    let d := s.ring.receive (entryOf index)
    (none, { s with ring := s.ring.storeReceive index { d with state := .deviceOwned }
                    receiver := .advancing index path })
  | .advancing index path =>
    let reply := match path with
      | .drop => BridgeReply.dropped
      | .discard => .received (.error .invalidHardwareLength)
    (some reply, { s with ring := { s.ring with receiveConsumer := nextIndex index }, receiver := .idle })

/-- The steps of `transmit` after the load of the index, but for the copy. -/
def transmitterStep : Option BridgeReply × BifrostSystem :=
  match s.transmitter with
  | .idle => (none, s)
  | .loaded payload index =>
    let d := s.ring.transmit (entryOf index)
    if d.state = .free then
      (none, { s with ring := s.ring.storeTransmit index { d with state := .building }
                      transmitter := .building payload index (Finset.range payload.length) })
    else (some (.transmitted payload (.error .transmitQueueFull)), { s with transmitter := .idle })
  | .building payload index pending =>
    if pending = ∅ then
      let d := s.ring.transmit (entryOf index)
      (none, { s with
        ring := s.ring.storeTransmit index { d with length := BitVec.ofNat 32 payload.length }
        transmitter := .handing payload index })
    else (none, s)
  | .handing payload index =>
    let d := s.ring.transmit (entryOf index)
    (none, { s with ring := s.ring.storeTransmit index { d with state := .deviceOwned }
                    transmitter := .advancing payload index })
  | .advancing payload index =>
    (some (.transmitted payload (.ok ())),
      { s with ring := { s.ring with transmitProducer := nextIndex index }, transmitter := .idle })

/-- One byte of `copy_from_slice`. -/
def copyByte (i : Fin maximumFrameBytes) : BifrostSystem :=
  match s.transmitter with
  | .building payload index pending =>
    if i.val ∈ pending then
      let d := s.ring.transmit (entryOf index)
      { s with
        ring := s.ring.storeTransmit index { d with buffer := Function.update d.buffer i (payload.getD i 0) }
        transmitter := .building payload index (pending.erase i) }
    else s
  | _ => s

/-- The device stores into the descriptor it fills, while it owns it. -/
def fill (f : DmaDescriptor ReceiveState → DmaDescriptor ReceiveState) : BifrostSystem :=
  if s.filling.state = .deviceOwned then
    { s with ring := s.ring.storeReceive s.device.fillNext (f s.filling) }
  else s

/-- The device marks the descriptor it has filled, and goes on to the next. -/
def fillReady : Option BridgeReply × BifrostSystem :=
  if s.filling.state = .deviceOwned then
    (some (.filled ⟨s.filling.buffer, s.filling.length⟩),
      { s with ring := s.ring.storeReceive s.device.fillNext { s.filling with state := .ready }
               device := { s.device with fillNext := s.device.fillNext + 1 } })
  else (none, s)

/-- The device copies one byte out of the descriptor it drains, while it owns it. -/
def drainByte (i : Fin maximumFrameBytes) : BifrostSystem :=
  if s.draining.state = .deviceOwned then
    { s with device := { s.device with
        copied := insert i.val s.device.copied
        copy := Function.update s.device.copy i (s.draining.buffer i) } }
  else s

/-- The device has copied the whole frame, frees the descriptor and goes on to the next. -/
def drainFree : Option BridgeReply × BifrostSystem :=
  if s.draining.state = .deviceOwned ∧ Finset.range s.draining.length.toNat ⊆ s.device.copied then
    (some (.drained (frame s.device.copy s.draining.length.toNat)),
      { s with ring := s.ring.storeTransmit s.device.drainNext { s.draining with state := .free }
               device := { s.device with drainNext := s.device.drainNext + 1, copied := ∅ } })
  else (none, s)

/-- **One atomic step.** A step that its party is not ready for leaves everything as it is. -/
def step : BridgeAction → Option BridgeReply × BifrostSystem
  | .tryReceive =>
    match s.receiver with
    | .idle => (none, { s with receiver := .loaded (s.ring.receiveConsumer.toNat % ringEntries) })
    | _ => (none, s)
  | .drop n =>
    match s.receiver, s.packets[n]? with
    | .idle, some packet =>
      (none, { s with packets := s.packets.eraseIdx n, receiver := .emptying packet.index .drop })
    | _, _ => (none, s)
  | .receiver => s.receiverStep
  | .transmit payload =>
    match s.transmitter with
    | .idle =>
      if payload = [] ∨ maximumFrameBytes < payload.length then
        (some (.transmitted payload (.error .invalidPayloadLength)), s)
      else
        (none, { s with transmitter := .loaded payload (s.ring.transmitProducer.toNat % ringEntries) })
    | _ => (none, s)
  | .copy i => (none, s.copyByte i)
  | .transmitter => s.transmitterStep
  | .fillByte i byte => (none, s.fill fun d => { d with buffer := Function.update d.buffer i byte })
  | .fillLength length => (none, s.fill fun d => { d with length })
  | .fillReady => s.fillReady
  | .drainByte i => (none, s.drainByte i)
  | .drainFree => s.drainFree

end BifrostSystem

end Slope.Bridge
