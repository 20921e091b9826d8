import Mathlib.Data.Multiset.ZeroCons
import Slope.Bridge.Transmit

/-!
# `Bridge.Moves` — what one access can do, seen by one party

An inversion of `BifrostSystem.step` for each half of the ring, with every guard and everything the step writes in
that half. `Bridge.Receive` and `Bridge.Transmit` follow one user through the steps; here nothing is assumed of the
indices the user works with, so the lemmas hold for a user whose indices others have moved on from.
-/

namespace Slope.Bridge

/-- The position whose descriptor the user holds without a packet. -/
def ReceivePc.held : ReceivePc → List Nat
  | .claimed index => [index]
  | .emptying index _ => [index]
  | .releasing index _ => [index]
  | _ => []

/-- The position whose descriptor the user builds. -/
def TransmitPc.built : TransmitPc → List Nat
  | .building _ index _ => [index]
  | .handing _ index => [index]
  | _ => []

/-- The fill that a descriptor shows. -/
def DmaDescriptor.shows (d : DmaDescriptor ReceiveState) : Fill := ⟨d.buffer, d.length⟩

/-- What `try_receive` makes of a fill. -/
abbrev Outcome := Except BridgeError (List U8)

/-- What a call that gives a descriptor back has yet to answer with. -/
def Release.owes : Release → Multiset Outcome
  | drop => 0
  | discard => {.error .invalidHardwareLength}

/-- What the user has taken off the ring and has yet to answer with. -/
def ReceivePc.owes (ring : BifrostRing) : ReceivePc → Multiset Outcome
  | .claimed index => {(ring.receive (entryOf index)).shows.outcome}
  | .emptying _ path => path.owes
  | .releasing _ path => path.owes
  | .advancing _ path => path.owes
  | _ => 0

/-- The bytes of the packet that `try_receive` returned. -/
def BridgeReply.packet : BridgeReply → Option (List U8)
  | received (.ok (some bytes)) => some bytes
  | _ => none

namespace BifrostSystem

/-! ## Receiving -/

/-- **One access to the receive ring.** -/
inductive ReceiveMove (v : BifrostSystem) : Option BridgeReply → BifrostSystem → Prop where
  | still {reply : Option BridgeReply} {v' : BifrostSystem} (hring : v'.ring.receive = v.ring.receive)
      (hpackets : v'.packets = v.packets) (hheld : v'.receiver.held = v.receiver.held)
      (howes : ∀ ring, v'.receiver.owes ring = v.receiver.owes ring)
      (hfill : reply.bind BridgeReply.fill = none) (hout : reply.bind BridgeReply.outcome = none) :
      ReceiveMove v reply v'
  | claim {index : Nat} (hpc : v.receiver = .loaded index)
      (hs : (v.ring.receive (entryOf index)).state = .ready) :
      ReceiveMove v none { v with
        ring := v.ring.storeReceive index { v.ring.receive (entryOf index) with state := .userHeld }
        receiver := .claimed index }
  | returned {index : Nat} {packet : ReceivedPacket} (hpc : v.receiver = .claimed index)
      (hpacket : packet = ⟨index, (v.ring.receive (entryOf index)).length.toNat⟩)
      (hle : packet.length ≤ maximumFrameBytes) :
      ReceiveMove v (some (.received (.ok (some (packet.bytes v.ring)))))
        { v with receiver := .idle, packets := v.packets ++ [packet] }
  | condemn {index : Nat} (hpc : v.receiver = .claimed index)
      (hlt : maximumFrameBytes < (v.ring.receive (entryOf index)).length.toNat) :
      ReceiveMove v none { v with receiver := .emptying index .discard }
  | drop {n : Nat} {packet : ReceivedPacket} (hpc : v.receiver = .idle) (hpacket : v.packets[n]? = some packet) :
      ReceiveMove v none { v with packets := v.packets.eraseIdx n, receiver := .emptying packet.index .drop }
  | empty {index : Nat} {path : Release} (hpc : v.receiver = .emptying index path) :
      ReceiveMove v none { v with
        ring := v.ring.storeReceive index { v.ring.receive (entryOf index) with length := 0 }
        receiver := .releasing index path }
  | release {index : Nat} {path : Release} (hpc : v.receiver = .releasing index path) :
      ReceiveMove v none { v with
        ring := v.ring.storeReceive index { v.ring.receive (entryOf index) with state := .deviceOwned }
        receiver := .advancing index path }
  | dropped {index : Nat} (hpc : v.receiver = .advancing index .drop) :
      ReceiveMove v (some .dropped)
        { v with ring := { v.ring with receiveConsumer := nextIndex index }, receiver := .idle }
  | discarded {index : Nat} (hpc : v.receiver = .advancing index .discard) :
      ReceiveMove v (some (.received (.error .invalidHardwareLength)))
        { v with ring := { v.ring with receiveConsumer := nextIndex index }, receiver := .idle }
  | fill {d : DmaDescriptor ReceiveState} (hs : v.filling.state = .deviceOwned) (hd : d.state = .deviceOwned) :
      ReceiveMove v none { v with ring := v.ring.storeReceive v.device.fillNext d }
  | ready (hs : v.filling.state = .deviceOwned) :
      ReceiveMove v (some (.filled v.filling.shows)) { v with
        ring := v.ring.storeReceive v.device.fillNext { v.filling with state := .ready }
        device := { v.device with fillNext := v.device.fillNext + 1 } }

section

variable (v : BifrostSystem)

/-- A step that changes nothing of the receive half. -/
theorem ReceiveMove.refl {reply : Option BridgeReply} (hfill : reply.bind BridgeReply.fill = none)
    (hout : reply.bind BridgeReply.outcome = none) : ReceiveMove v reply v :=
  .still rfl rfl rfl (fun _ => rfl) hfill hout

theorem receiveMove_receiver : ReceiveMove v v.receiverStep.1 v.receiverStep.2 := by
  unfold receiverStep
  cases hpc : v.receiver with
  | idle => exact .refl v rfl rfl
  | loaded index =>
      dsimp only
      split
      · next hs => exact .claim hpc hs
      · exact .still rfl rfl (by rw [hpc]; rfl) (fun ring => by rw [hpc]; rfl) rfl rfl
  | claimed index =>
      dsimp only
      split
      · next hlt => exact .condemn hpc hlt
      · next hle => exact .returned hpc rfl (Nat.le_of_not_lt hle)
  | emptying index path => exact .empty hpc
  | releasing index path => exact .release hpc
  | advancing index path =>
      cases path with
      | drop => exact .dropped hpc
      | discard => exact .discarded hpc

theorem receiveMove_transmitter : ReceiveMove v v.transmitterStep.1 v.transmitterStep.2 := by
  unfold transmitterStep
  cases v.transmitter with
  | idle => exact .refl v rfl rfl
  | loaded payload index =>
      dsimp only
      split <;> exact .still rfl rfl rfl (fun _ => rfl) rfl rfl
  | building payload index pending =>
      dsimp only
      split <;> exact .still rfl rfl rfl (fun _ => rfl) rfl rfl
  | handing payload index => exact .still rfl rfl rfl (fun _ => rfl) rfl rfl
  | advancing payload index => exact .still rfl rfl rfl (fun _ => rfl) rfl rfl

/-- A packet is dropped only between two calls. -/
theorem step_drop (n : Nat) : v.step (.drop n) = (none, v) ∨
    ∃ packet, v.receiver = .idle ∧ v.packets[n]? = some packet ∧ v.step (.drop n) = (none, { v with
      packets := v.packets.eraseIdx n, receiver := .emptying packet.index .drop }) := by
  cases hpc : v.receiver with
  | idle =>
      cases hpacket : v.packets[n]? with
      | none =>
          left
          simp only [step, hpc, hpacket]
      | some packet =>
          right
          exact ⟨packet, rfl, rfl, by simp only [step, hpc, hpacket]⟩
  | _ =>
      left
      simp only [step, hpc]

theorem receiveMove_fill {f : DmaDescriptor ReceiveState → DmaDescriptor ReceiveState}
    (hf : ∀ d, (f d).state = d.state) : ReceiveMove v none (v.fill f) := by
  unfold BifrostSystem.fill
  split
  · next hs => exact .fill hs ((hf _).trans hs)
  · exact .refl v rfl rfl

/-- **Inversion of a step**, for the receive half. -/
theorem receiveMove_step (a : BridgeAction) : ReceiveMove v (v.step a).1 (v.step a).2 := by
  cases a with
  | tryReceive =>
      unfold step
      cases hpc : v.receiver with
      | idle => exact .still rfl rfl (by rw [hpc]; rfl) (fun ring => by rw [hpc]; rfl) rfl rfl
      | _ => exact .refl v rfl rfl
  | drop n =>
      rcases step_drop v n with hstep | ⟨packet, hpc, hpacket, hstep⟩
      · rw [hstep]
        exact .refl v rfl rfl
      · rw [hstep]
        exact .drop hpc hpacket
  | receiver => exact receiveMove_receiver v
  | transmit payload =>
      unfold step
      cases v.transmitter with
      | idle =>
          dsimp only
          split <;> exact .still rfl rfl rfl (fun _ => rfl) rfl rfl
      | _ => exact .refl v rfl rfl
  | copy i =>
      show ReceiveMove v none (v.copyByte i)
      unfold copyByte
      cases v.transmitter with
      | building payload index pending =>
          dsimp only
          split <;> exact .still rfl rfl rfl (fun _ => rfl) rfl rfl
      | _ => exact .refl v rfl rfl
  | transmitter => exact receiveMove_transmitter v
  | fillByte i byte =>
      exact receiveMove_fill v (f := fun d => { d with buffer := Function.update d.buffer i byte }) fun _ => rfl
  | fillLength length => exact receiveMove_fill v (f := fun d => { d with length }) fun _ => rfl
  | fillReady =>
      show ReceiveMove v v.fillReady.1 v.fillReady.2
      unfold fillReady
      split
      · next hs => exact .ready hs
      · exact .refl v rfl rfl
  | drainByte i =>
      show ReceiveMove v none (v.drainByte i)
      unfold drainByte
      split <;> exact .still rfl rfl rfl (fun _ => rfl) rfl rfl
  | drainFree =>
      show ReceiveMove v v.drainFree.1 v.drainFree.2
      unfold drainFree
      split <;> exact .still rfl rfl rfl (fun _ => rfl) rfl rfl

end

/-! ## Transmitting -/

/-- **One access to the transmit ring.** -/
inductive TransmitMove (v : BifrostSystem) : Option BridgeReply → BifrostSystem → Prop where
  | still {reply : Option BridgeReply} {v' : BifrostSystem} (hring : v'.ring.transmit = v.ring.transmit)
      (hpc : v'.transmitter = v.transmitter) (hnext : v'.device.drainNext = v.device.drainNext)
      (hcopied : v'.device.copied = v.device.copied) (hcopy : v'.device.copy = v.device.copy)
      (hsent : reply.bind BridgeReply.sent = none) (hframe : reply.bind BridgeReply.frame = none) :
      TransmitMove v reply v'
  | begin {payload : List U8} {index : Nat} (hpc : v.transmitter = .idle)
      (hle : payload.length ≤ maximumFrameBytes) :
      TransmitMove v none { v with transmitter := .loaded payload index }
  | full {payload : List U8} {index : Nat} (hpc : v.transmitter = .loaded payload index) :
      TransmitMove v (some (.transmitted payload (.error .transmitQueueFull))) { v with transmitter := .idle }
  | claim {payload : List U8} {index : Nat} (hpc : v.transmitter = .loaded payload index)
      (hs : (v.ring.transmit (entryOf index)).state = .free) :
      TransmitMove v none { v with
        ring := v.ring.storeTransmit index { v.ring.transmit (entryOf index) with state := .building }
        transmitter := .building payload index (Finset.range payload.length) }
  | copy {payload : List U8} {index : Nat} {pending : Finset Nat} {i : Fin maximumFrameBytes}
      (hpc : v.transmitter = .building payload index pending) :
      TransmitMove v none { v with
        ring := v.ring.storeTransmit index { v.ring.transmit (entryOf index) with
          buffer := Function.update (v.ring.transmit (entryOf index)).buffer i (payload.getD i 0) }
        transmitter := .building payload index (pending.erase i) }
  | length {payload : List U8} {index : Nat} (hpc : v.transmitter = .building payload index ∅) :
      TransmitMove v none { v with
        ring := v.ring.storeTransmit index { v.ring.transmit (entryOf index) with
          length := BitVec.ofNat 32 payload.length }
        transmitter := .handing payload index }
  | hand {payload : List U8} {index : Nat} (hpc : v.transmitter = .handing payload index) :
      TransmitMove v none { v with
        ring := v.ring.storeTransmit index { v.ring.transmit (entryOf index) with state := .deviceOwned }
        transmitter := .advancing payload index }
  | advance {payload : List U8} {index : Nat} (hpc : v.transmitter = .advancing payload index) :
      TransmitMove v (some (.transmitted payload (.ok ())))
        { v with ring := { v.ring with transmitProducer := nextIndex index }, transmitter := .idle }
  | drainByte {i : Fin maximumFrameBytes} (hs : v.draining.state = .deviceOwned) :
      TransmitMove v none { v with device := { v.device with
        copied := insert i.val v.device.copied
        copy := Function.update v.device.copy i (v.draining.buffer i) } }
  | drainFree (hs : v.draining.state = .deviceOwned)
      (hall : Finset.range v.draining.length.toNat ⊆ v.device.copied) :
      TransmitMove v (some (.drained (frame v.device.copy v.draining.length.toNat))) { v with
        ring := v.ring.storeTransmit v.device.drainNext { v.draining with state := .free }
        device := { v.device with drainNext := v.device.drainNext + 1, copied := ∅ } }

section

variable (v : BifrostSystem)

/-- A step that changes nothing of the transmit half. -/
theorem TransmitMove.refl {reply : Option BridgeReply} (hsent : reply.bind BridgeReply.sent = none)
    (hframe : reply.bind BridgeReply.frame = none) : TransmitMove v reply v :=
  .still rfl rfl rfl rfl rfl hsent hframe

theorem transmitMove_receiver : TransmitMove v v.receiverStep.1 v.receiverStep.2 := by
  unfold receiverStep
  cases v.receiver with
  | idle => exact .refl v rfl rfl
  | loaded index =>
      dsimp only
      split <;> exact .still rfl rfl rfl rfl rfl rfl rfl
  | claimed index =>
      dsimp only
      split <;> exact .still rfl rfl rfl rfl rfl rfl rfl
  | emptying index path => exact .still rfl rfl rfl rfl rfl rfl rfl
  | releasing index path => exact .still rfl rfl rfl rfl rfl rfl rfl
  | advancing index path =>
      cases path with
      | drop => exact .still rfl rfl rfl rfl rfl rfl rfl
      | discard => exact .still rfl rfl rfl rfl rfl rfl rfl

theorem transmitMove_transmitter : TransmitMove v v.transmitterStep.1 v.transmitterStep.2 := by
  unfold transmitterStep
  cases hpc : v.transmitter with
  | idle => exact .refl v rfl rfl
  | loaded payload index =>
      dsimp only
      split
      · next hs => exact .claim hpc hs
      · exact .full hpc
  | building payload index pending =>
      dsimp only
      split
      · next hempty =>
        subst hempty
        exact .length hpc
      · exact .refl v rfl rfl
  | handing payload index => exact .hand hpc
  | advancing payload index => exact .advance hpc

theorem transmitMove_fill {f : DmaDescriptor ReceiveState → DmaDescriptor ReceiveState} :
    TransmitMove v none (v.fill f) := by
  unfold BifrostSystem.fill
  split <;> exact .still rfl rfl rfl rfl rfl rfl rfl

/-- **Inversion of a step**, for the transmit half. -/
theorem transmitMove_step (a : BridgeAction) : TransmitMove v (v.step a).1 (v.step a).2 := by
  cases a with
  | tryReceive =>
      unfold step
      cases v.receiver <;> exact .still rfl rfl rfl rfl rfl rfl rfl
  | drop n =>
      rcases step_drop v n with hstep | ⟨packet, -, -, hstep⟩
      · rw [hstep]
        exact .refl v rfl rfl
      · rw [hstep]
        exact .still rfl rfl rfl rfl rfl rfl rfl
  | receiver => exact transmitMove_receiver v
  | transmit payload =>
      unfold step
      cases hpc : v.transmitter with
      | idle =>
          dsimp only
          split
          · exact .refl v rfl rfl
          · next hfits => exact .begin hpc (Nat.le_of_not_lt fun hlt => hfits (.inr hlt))
      | _ => exact .refl v rfl rfl
  | copy i =>
      show TransmitMove v none (v.copyByte i)
      unfold copyByte
      cases hpc : v.transmitter with
      | building payload index pending =>
          dsimp only
          split
          · exact .copy hpc
          · exact .refl v rfl rfl
      | _ => exact .refl v rfl rfl
  | transmitter => exact transmitMove_transmitter v
  | fillByte i byte =>
      exact transmitMove_fill v (f := fun d => { d with buffer := Function.update d.buffer i byte })
  | fillLength length => exact transmitMove_fill v (f := fun d => { d with length })
  | fillReady =>
      show TransmitMove v v.fillReady.1 v.fillReady.2
      unfold fillReady
      split <;> exact .still rfl rfl rfl rfl rfl rfl rfl
  | drainByte i =>
      show TransmitMove v none (v.drainByte i)
      unfold drainByte
      split
      · next hs => exact .drainByte hs
      · exact .refl v rfl rfl
  | drainFree =>
      show TransmitMove v v.drainFree.1 v.drainFree.2
      unfold drainFree
      split
      · next hs => exact .drainFree hs.1 hs.2
      · exact .refl v rfl rfl

end

end BifrostSystem

end Slope.Bridge
