import Slope.Lib.Word

/-!
# `Crest.Records` — the records that cross the Quantum Crest page

The three fixed-layout records the kernel and the desktop exchange: system snapshots, desktop commands and
desktop replies. Every field is kept, the reserved ones included, because a mailbox moves whole records.
`i32` fields are two's-complement words; each `structSize` is the size of the C layout in bytes.
-/

namespace Slope.Crest

def quantumCrestAbiMajor : U32 := 1
def quantumCrestAbiMinor : U32 := 0
def quantumCrestAbiVersion : U32 := (quantumCrestAbiMajor <<< 16) ||| quantumCrestAbiMinor

def quantumCrestPayloadBytes : Nat := 128
def quantumCrestArguments : Nat := 8

def snapshotFlagHermesOnline : U64 := 1 <<< 0
def snapshotFlagQuarantineActive : U64 := 1 <<< 3
def snapshotFlagDmaRevoked : U64 := 1 <<< 4
def snapshotFlagRecoveryPending : U64 := 1 <<< 5

def statusInvalid : U32 := -1

/-! ## System snapshot -/

structure QuantumGpuState where
  vendorId : U16
  deviceId : U16
  revision : U8
  gspWireMajor : U8
  gspWireMinor : U16
  gspEpoch : U32
  negotiatedFeatures : U64
  firmwareVersion : U64
  temperatureQ16 : U32
  pressureQ16 : U32
  correctedFaults : U32
  fatalFaults : U32
deriving DecidableEq

def QuantumGpuState.zero : QuantumGpuState where
  vendorId := 0
  deviceId := 0
  revision := 0
  gspWireMajor := 0
  gspWireMinor := 0
  gspEpoch := 0
  negotiatedFeatures := 0
  firmwareVersion := 0
  temperatureQ16 := 0
  pressureQ16 := 0
  correctedFaults := 0
  fatalFaults := 0

structure QuantumBlackLabState where
  policyEpoch : U64
  risk : U16
  severity : U8
  action : U8
  temporalViolations : U16
  evidenceVotes : U16
  planSteps : U16
  requiredQuorum : U8
  reserved0 : U8
  ledgerEpoch : U64
  ledgerRoot : U64
  evidenceRoot : U64
  planRoot : U64
  forecastTick : U64
deriving DecidableEq

def QuantumBlackLabState.zero : QuantumBlackLabState where
  policyEpoch := 0
  risk := 0
  severity := 0
  action := 0
  temporalViolations := 0
  evidenceVotes := 0
  planSteps := 0
  requiredQuorum := 0
  reserved0 := 0
  ledgerEpoch := 0
  ledgerRoot := 0
  evidenceRoot := 0
  planRoot := 0
  forecastTick := 0

structure QuantumDisplayState where
  width : U32
  height : U32
  pitch : U32
  format : U32
  refreshMillihertz : U32
  beamPosition : U32
  presentSequence : U64
  frameBudgetTicks : U64
  predictedRenderTicks : U64
  damageTiles : U32
  totalTiles : U32
deriving DecidableEq

def QuantumDisplayState.zero : QuantumDisplayState where
  width := 0
  height := 0
  pitch := 0
  format := 0
  refreshMillihertz := 0
  beamPosition := 0
  presentSequence := 0
  frameBudgetTicks := 0
  predictedRenderTicks := 0
  damageTiles := 0
  totalTiles := 0

structure QuantumSystemSnapshot where
  abiVersion : U32
  structSize : U32
  sequence : U64
  epoch : U64
  logicalTick : U64
  topologyEpoch : U64
  capabilityEpoch : U64
  flags : U64
  gpu : QuantumGpuState
  blacklab : QuantumBlackLabState
  display : QuantumDisplayState
  desktopRights : U64
  desktopSession : U64
  desktopGeneration : U32
  reserved0 : U32
  root : U64
deriving DecidableEq

def QuantumSystemSnapshot.empty : QuantumSystemSnapshot where
  abiVersion := quantumCrestAbiVersion
  structSize := 256
  sequence := 0
  epoch := 0
  logicalTick := 0
  topologyEpoch := 0
  capabilityEpoch := 0
  flags := 0
  gpu := .zero
  blacklab := .zero
  display := .zero
  desktopRights := 0
  desktopSession := 0
  desktopGeneration := 0
  reserved0 := 0
  root := 0

/-- An otherwise empty snapshot with the given sequence number and epoch. -/
def QuantumSystemSnapshot.stamped (sequence epoch : U64) : QuantumSystemSnapshot :=
  { QuantumSystemSnapshot.empty with sequence, epoch }

/-! ## Desktop command -/

structure QuantumDesktopCommand where
  abiVersion : U32
  structSize : U32
  sequence : U64
  epoch : U64
  session : U64
  generation : U32
  opcode : U32
  flags : U64
  object : U64
  deadlineTick : U64
  arguments : Vector U64 quantumCrestArguments
  payloadLength : U16
  reserved : Vector U8 6
  payload : Vector U8 quantumCrestPayloadBytes
  root : U64
deriving DecidableEq

def QuantumDesktopCommand.empty : QuantumDesktopCommand where
  abiVersion := quantumCrestAbiVersion
  structSize := 272
  sequence := 0
  epoch := 0
  session := 0
  generation := 0
  opcode := 0
  flags := 0
  object := 0
  deadlineTick := 0
  arguments := Vector.replicate quantumCrestArguments 0
  payloadLength := 0
  reserved := Vector.replicate 6 0
  payload := Vector.replicate quantumCrestPayloadBytes 0
  root := 0

/-! ## Desktop reply -/

structure QuantumFrameCertificate where
  frameSequence : U64
  snapshotSequence : U64
  sceneEpoch : U64
  damageRoot : U64
  sceneRoot : U64
  presentTick : U64
  renderedTiles : U32
  skippedTiles : U32
  laneVotes : U8
  reserved : Vector U8 7
  root : U64
deriving DecidableEq

def QuantumFrameCertificate.zero : QuantumFrameCertificate where
  frameSequence := 0
  snapshotSequence := 0
  sceneEpoch := 0
  damageRoot := 0
  sceneRoot := 0
  presentTick := 0
  renderedTiles := 0
  skippedTiles := 0
  laneVotes := 0
  reserved := Vector.replicate 7 0
  root := 0

structure QuantumDesktopReply where
  abiVersion : U32
  structSize : U32
  commandSequence : U64
  snapshotSequence : U64
  status : U32
  flags : U32
  outputs : Vector U64 quantumCrestArguments
  frame : QuantumFrameCertificate
  root : U64
deriving DecidableEq

def QuantumDesktopReply.empty : QuantumDesktopReply where
  abiVersion := quantumCrestAbiVersion
  structSize := 176
  commandSequence := 0
  snapshotSequence := 0
  status := statusInvalid
  flags := 0
  outputs := Vector.replicate quantumCrestArguments 0
  frame := .zero
  root := 0

end Slope.Crest
