import Slope.Crest.Records
import Slope.Lib.Bytes
import Slope.Lib.Mixer

/-!
# `Crest.Seal` — keyed roots of the page's records

Each record that crosses the page can be sealed: its `root` becomes a 64-bit digest of the record under a
secret, and `verify` recomputes the digest. A digest starts from `domain`, absorbs the covered fields one word
at a time and ends in `avalanche`. The nested records have an absorption routine of their own, shared by every
digest that contains them.

The second half brings the primitives under the library's mixer: `absorb` is injective in the state it extends
and in the word it absorbs, and an eight-byte chunk determines the word it is read as.
-/

namespace Slope.Crest

/-! ## The mixing primitives -/

def avalanche (value : U64) : U64 :=
  let value := value ^^^ (value >>> 30)
  let value := value * 0xbf58476d1ce4e5b9
  let value := value ^^^ (value >>> 27)
  let value := value * 0x94d049bb133111eb
  value ^^^ (value >>> 31)

def domain (secret tag : U64) : U64 := avalanche (secret ^^^ tag.rotateLeft 23)

def absorb (state word : U64) : U64 := avalanche (state ^^^ word * 0x9e3779b97f4a7c15)

/-- The chunks this is called with have at most eight bytes, so the copy into `word` never faults. -/
def bytesWord (bytes : List U8) : U64 := fromLeBytes (pad 8 bytes).toList

/-! ## Absorbing the nested records -/

def absorbGpu (state : U64) (gpu : QuantumGpuState) : U64 :=
  let state := absorb state (gpu.vendorId.setWidth 64)
  let state := absorb state (gpu.deviceId.setWidth 64)
  let state := absorb state (gpu.revision.setWidth 64)
  let state := absorb state (gpu.gspWireMajor.setWidth 64)
  let state := absorb state (gpu.gspWireMinor.setWidth 64)
  let state := absorb state (gpu.gspEpoch.setWidth 64)
  let state := absorb state gpu.negotiatedFeatures
  let state := absorb state gpu.firmwareVersion
  -- the `i32` readings are widened as `u32`, without sign extension
  let state := absorb state (gpu.temperatureQ16.setWidth 64)
  let state := absorb state (gpu.pressureQ16.setWidth 64)
  let state := absorb state (gpu.correctedFaults.setWidth 64)
  absorb state (gpu.fatalFaults.setWidth 64)

def absorbBlacklab (state : U64) (blacklab : QuantumBlackLabState) : U64 :=
  let state := absorb state blacklab.policyEpoch
  let state := absorb state (blacklab.risk.setWidth 64)
  let state := absorb state (blacklab.severity.setWidth 64)
  let state := absorb state (blacklab.action.setWidth 64)
  let state := absorb state (blacklab.temporalViolations.setWidth 64)
  let state := absorb state (blacklab.evidenceVotes.setWidth 64)
  let state := absorb state (blacklab.planSteps.setWidth 64)
  let state := absorb state (blacklab.requiredQuorum.setWidth 64)
  let state := absorb state blacklab.ledgerEpoch
  let state := absorb state blacklab.ledgerRoot
  let state := absorb state blacklab.evidenceRoot
  let state := absorb state blacklab.planRoot
  absorb state blacklab.forecastTick

def absorbDisplay (state : U64) (display : QuantumDisplayState) : U64 :=
  let state := absorb state (display.width.setWidth 64)
  let state := absorb state (display.height.setWidth 64)
  let state := absorb state (display.pitch.setWidth 64)
  let state := absorb state (display.format.setWidth 64)
  let state := absorb state (display.refreshMillihertz.setWidth 64)
  let state := absorb state (display.beamPosition.setWidth 64)
  let state := absorb state display.presentSequence
  let state := absorb state display.frameBudgetTicks
  let state := absorb state display.predictedRenderTicks
  let state := absorb state (display.damageTiles.setWidth 64)
  absorb state (display.totalTiles.setWidth 64)

/-- The certificate's own `root` is not absorbed: this is also what that root is computed from. -/
def absorbFrame (state : U64) (frame : QuantumFrameCertificate) : U64 :=
  let state := absorb state frame.frameSequence
  let state := absorb state frame.snapshotSequence
  let state := absorb state frame.sceneEpoch
  let state := absorb state frame.damageRoot
  let state := absorb state frame.sceneRoot
  let state := absorb state frame.presentTick
  let state := absorb state (frame.renderedTiles.setWidth 64)
  let state := absorb state (frame.skippedTiles.setWidth 64)
  absorb state (frame.laneVotes.setWidth 64)

/-! ## Roots -/

def snapshotRoot (secret : U64) (snapshot : QuantumSystemSnapshot) : U64 :=
  let state := domain secret 0x534e415053484f54
  let state := absorb state (snapshot.abiVersion.setWidth 64)
  let state := absorb state snapshot.sequence
  let state := absorb state snapshot.epoch
  let state := absorb state snapshot.logicalTick
  let state := absorb state snapshot.topologyEpoch
  let state := absorb state snapshot.capabilityEpoch
  let state := absorb state snapshot.flags
  let state := absorbGpu state snapshot.gpu
  let state := absorbBlacklab state snapshot.blacklab
  let state := absorbDisplay state snapshot.display
  let state := absorb state snapshot.desktopRights
  let state := absorb state snapshot.desktopSession
  let state := absorb state (snapshot.desktopGeneration.setWidth 64)
  avalanche (state ^^^ secret.rotateLeft 17)

def commandRoot (secret : U64) (command : QuantumDesktopCommand) : U64 :=
  let state := domain secret 0x434f4d4d414e4421
  let state := absorb state (command.abiVersion.setWidth 64)
  let state := absorb state command.sequence
  let state := absorb state command.epoch
  let state := absorb state command.session
  let state := absorb state (command.generation.setWidth 64)
  let state := absorb state (command.opcode.setWidth 64)
  let state := absorb state command.flags
  let state := absorb state command.object
  let state := absorb state command.deadlineTick
  let state := command.arguments.toList.foldl absorb state
  let state := absorb state (command.payloadLength.setWidth 64)
  let state := (chunks 8 command.payload.toList).foldl (fun state chunk => absorb state (bytesWord chunk)) state
  avalanche (state ^^^ secret.rotateRight 9)

def replyRoot (secret : U64) (reply : QuantumDesktopReply) : U64 :=
  let state := domain secret 0x5245504c59212121
  let state := absorb state (reply.abiVersion.setWidth 64)
  let state := absorb state reply.commandSequence
  let state := absorb state reply.snapshotSequence
  let state := absorb state (reply.status.setWidth 64)
  let state := absorb state (reply.flags.setWidth 64)
  let state := reply.outputs.toList.foldl absorb state
  let state := absorbFrame state reply.frame
  avalanche (state ^^^ secret.rotateLeft 31)

/-! ## Sealing and verifying -/

def QuantumSystemSnapshot.seal (snapshot : QuantumSystemSnapshot) (secret : U64) : QuantumSystemSnapshot :=
  let snapshot := { snapshot with root := 0 }
  { snapshot with root := snapshotRoot secret snapshot }

def QuantumSystemSnapshot.verify (snapshot : QuantumSystemSnapshot) (secret : U64) : Bool :=
  snapshot.abiVersion >>> 16 == quantumCrestAbiMajor
    && decide (256 ≤ snapshot.structSize.toNat)
    && snapshot.sequence != 0
    && snapshot.epoch != 0
    && snapshot.desktopSession != 0
    && snapshot.desktopGeneration != 0
    && snapshot.root == snapshotRoot secret snapshot

def QuantumDesktopCommand.seal (command : QuantumDesktopCommand) (secret : U64) : QuantumDesktopCommand :=
  let command := { command with root := 0 }
  { command with root := commandRoot secret command }

def QuantumDesktopCommand.verify (command : QuantumDesktopCommand) (secret : U64) : Bool :=
  command.abiVersion >>> 16 == quantumCrestAbiMajor
    && decide (272 ≤ command.structSize.toNat)
    && command.sequence != 0
    && command.epoch != 0
    && command.session != 0
    && command.generation != 0
    && command.opcode != 0
    && decide (command.payloadLength.toNat ≤ quantumCrestPayloadBytes)
    && command.root == commandRoot secret command

def QuantumDesktopReply.seal (reply : QuantumDesktopReply) (secret : U64) : QuantumDesktopReply :=
  let reply := { reply with root := 0 }
  { reply with root := replyRoot secret reply }

def QuantumDesktopReply.verify (reply : QuantumDesktopReply) (secret : U64) : Bool :=
  reply.abiVersion >>> 16 == quantumCrestAbiMajor
    && decide (176 ≤ reply.structSize.toNat)
    && reply.commandSequence != 0
    && reply.root == replyRoot secret reply

/-! ## The primitives lose nothing -/

theorem avalanche_injective : Function.Injective avalanche := Mixer.finalizer.injective

theorem absorb_eq : absorb = Mixer.xorMulMix Mixer.finalizer 0x9e3779b97f4a7c15 := rfl

theorem absorb_injective_state (word : U64) : Function.Injective (absorb · word) := by
  rw [absorb_eq]
  exact Mixer.xorMulMix_injective_state Mixer.finalizer _ word

theorem absorb_injective_word (state : U64) : Function.Injective (absorb state) := by
  have hunit : (0x9e3779b97f4a7c15 : U64) * 0xf1de83e19937733d = 1 := by decide
  rw [absorb_eq]
  exact Mixer.xorMulMix_injective_word Mixer.finalizer _ hunit state

/-- The last step of a root separates different states. -/
theorem avalanche_xor_injective (key : U64) : Function.Injective fun state => avalanche (state ^^^ key) := by
  intro state state' h
  have hxor := avalanche_injective h
  rw [Mixer.xor_eq_iff, BitVec.xor_assoc, BitVec.xor_self, BitVec.xor_zero] at hxor
  exact hxor

/-- Widening an unsigned field keeps its values apart. -/
theorem widen_inj {w : Nat} (hw : w ≤ 64) {a b : BitVec w} : a.setWidth 64 = b.setWidth 64 ↔ a = b := by
  constructor
  · intro h
    have hval := congrArg BitVec.toNat h
    rw [Word.toNat_zext hw, Word.toNat_zext hw] at hval
    exact BitVec.eq_of_toNat_eq hval
  · rintro rfl
    rfl

/-- A full chunk determines the word it is absorbed as. -/
theorem bytesWord_inj {xs ys : List U8} (hx : xs.length = 8) (hy : ys.length = 8) :
    bytesWord xs = bytesWord ys ↔ xs = ys := by
  constructor
  · intro h
    have hpad := fromLeBytes_injective (by simp) (by simp) h
    have htake := congrArg (List.take 8) hpad
    have htakex : (pad 8 xs).toList.take xs.length = xs := take_pad (by omega)
    have htakey : (pad 8 ys).toList.take ys.length = ys := take_pad (by omega)
    rw [hx] at htakex
    rw [hy] at htakey
    rwa [htakex, htakey] at htake
  · rintro rfl
    rfl

end Slope.Crest
