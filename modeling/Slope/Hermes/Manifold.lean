import Slope.Crest.Records
import Slope.Lib.Run

/-!
# `Hermes.Manifold` — the Hermes phase manifold

The OS-wide phase machine: callers publish evidence, and each transition advances the phase only when every
gate it names holds. Methods that take `&mut self` return the manifold they leave together with their result,
so what a *failing* call leaves behind is part of the model.
-/

namespace Slope.Hermes

/-! ## Phases -/

inductive HermesPhase where
  | offline
  | probed
  | firmwared
  | queued
  | negotiated
  | online
  | recovering
  | quarantined
deriving DecidableEq

namespace HermesPhase

def asU8 : HermesPhase → U8
  | offline => 0
  | probed => 1
  | firmwared => 2
  | queued => 3
  | negotiated => 4
  | online => 5
  | recovering => 6
  | quarantined => 7

/-- The derived order of the source: by discriminant. -/
instance : LE HermesPhase := ⟨fun p q => p.asU8 ≤ q.asU8⟩

instance (p q : HermesPhase) : Decidable (p ≤ q) := inferInstanceAs (Decidable (p.asU8 ≤ q.asU8))

def isLive : HermesPhase → Bool
  | online => true
  | _ => false

end HermesPhase

/-! ## The feature lattice -/

namespace Feature

def bootRpc : U64 := 1 <<< 0
def commandRing : U64 := 1 <<< 1
def eventRing : U64 := 1 <<< 2
def display : U64 := 1 <<< 4
def compute : U64 := 1 <<< 5
def telemetry : U64 := 1 <<< 7
def power : U64 := 1 <<< 8
def memoryManagement : U64 := 1 <<< 9

/-- Display needs the command ring, compute needs memory management, power needs telemetry, and anything at
    all needs boot RPC. -/
def wellFormed (bits : U64) : Bool :=
  if bits = 0 then true
  else if bits &&& bootRpc = 0 then false
  else if bits &&& (commandRing ||| eventRing) ≠ 0
      ∧ (bits &&& commandRing = 0 ∨ bits &&& eventRing = 0) then false
  else if bits &&& display ≠ 0 ∧ bits &&& commandRing = 0 then false
  else if bits &&& compute ≠ 0 ∧ bits &&& memoryManagement = 0 then false
  else if bits &&& power ≠ 0 ∧ bits &&& telemetry = 0 then false
  else true

end Feature

inductive ManifoldFault where
  | invalidPhaseJump
  | missingPci
  | missingFirmware
  | missingIommu
  | missingDomain
  | missingWpr
  | missingMailbox
  | missingReadyQueue
  | emptyFeatures
  | illFormedFeatures
  | generationMismatch
  | certificateMissing
deriving DecidableEq

/-! ## Evidence and certificate -/

/-- Evidence required before Online may be published. -/
structure HermesEvidence where
  pciMatched : Bool
  firmwareMeasured : Bool
  iommuIsolated : Bool
  dmaDomain : U32
  wprLocked : Bool
  bootMailboxOk : Bool
  readyQueueObserved : Bool
  negotiatedFeatures : U64
deriving DecidableEq

namespace HermesEvidence

def empty : HermesEvidence where
  pciMatched := false
  firmwareMeasured := false
  iommuIsolated := false
  dmaDomain := 0
  wprLocked := false
  bootMailboxOk := false
  readyQueueObserved := false
  negotiatedFeatures := 0

def onlineReady (e : HermesEvidence) : Except ManifoldFault Unit :=
  if !e.pciMatched then .error .missingPci
  else if !e.firmwareMeasured then .error .missingFirmware
  else if !e.iommuIsolated then .error .missingIommu
  else if e.dmaDomain = 0 then .error .missingDomain
  else if !e.wprLocked then .error .missingWpr
  else if !e.bootMailboxOk then .error .missingMailbox
  else if !e.readyQueueObserved then .error .missingReadyQueue
  else if e.negotiatedFeatures = 0 then .error .emptyFeatures
  else if !Feature.wellFormed e.negotiatedFeatures then .error .illFormedFeatures
  else .ok ()

end HermesEvidence

/-- Sealed online certificate bound to one generation. -/
structure OnlineCertificate where
  generation : U32
  dmaDomain : U32
  negotiatedFeatures : U64
  root : U64
deriving DecidableEq

namespace OnlineCertificate

def sealMultiplier : U64 := 0x9e3779b185ebca87

/-- `seal` in the source, a reserved word here. -/
def sealFor (generation : U32) (evidence : HermesEvidence) : Except ManifoldFault OnlineCertificate :=
  match evidence.onlineReady with
  | .error fault => .error fault
  | .ok () =>
    let state : U64 := 0x4845524d45534d4e
    let state := state ^^^ (generation.setWidth 64).rotateLeft 7
    let state := state * sealMultiplier
    let state := state ^^^ (evidence.dmaDomain.setWidth 64).rotateLeft 13
    let state := state * sealMultiplier
    let state := state ^^^ evidence.negotiatedFeatures.rotateLeft 19
    let state := state * sealMultiplier
    .ok { generation, dmaDomain := evidence.dmaDomain,
          negotiatedFeatures := evidence.negotiatedFeatures,
          root := if state = 0 then 1 else state }

end OnlineCertificate

/-! ## The manifold -/

/-- Phase, evidence and optional online certificate. All fields are public in the source. -/
structure HermesManifold where
  generation : U32
  phase : HermesPhase
  evidence : HermesEvidence
  certificate : Option OnlineCertificate
  correctedFaults : U32
  fatalFaults : U32
deriving DecidableEq

namespace HermesManifold

def dark (generation : U32) : HermesManifold where
  generation
  phase := .offline
  evidence := .empty
  certificate := none
  correctedFaults := 0
  fatalFaults := 0

def isOnline (m : HermesManifold) : Bool := m.phase.isLive && m.certificate.isSome

/-- Snapshot flag contribution for Quantum Crest publication. -/
def snapshotFlags (m : HermesManifold) : U64 :=
  let flags : U64 := 0
  let flags := if m.isOnline then flags ||| Crest.snapshotFlagHermesOnline else flags
  let flags := if m.phase = .recovering then flags ||| Crest.snapshotFlagRecoveryPending else flags
  if m.phase = .quarantined then
    flags ||| (Crest.snapshotFlagQuarantineActive ||| Crest.snapshotFlagDmaRevoked)
  else flags

/-- What a `&mut self` transition returns and leaves behind. -/
abbrev Outcome := Except ManifoldFault Unit × HermesManifold

def observeProbe (m : HermesManifold) (pciMatched : Bool) : Outcome :=
  if m.phase ≠ .offline then (.error .invalidPhaseJump, m)
  else if !pciMatched then (.error .missingPci, m)
  else (.ok (), { m with evidence := { m.evidence with pciMatched := true }, phase := .probed })

def observeFirmware (m : HermesManifold) (measured : Bool) : Outcome :=
  if m.phase ≠ .probed then (.error .invalidPhaseJump, m)
  else if !measured then (.error .missingFirmware, m)
  else
    (.ok (), { m with evidence := { m.evidence with firmwareMeasured := true }, phase := .firmwared })

def armQueues (m : HermesManifold) (iommu : Bool) (domain : U32) : Outcome :=
  if m.phase ≠ .firmwared then (.error .invalidPhaseJump, m)
  else if !iommu then (.error .missingIommu, m)
  else if domain = 0 then (.error .missingDomain, m)
  else
    (.ok (), { m with evidence := { m.evidence with iommuIsolated := true, dmaDomain := domain }
                      phase := .queued })

def negotiate (m : HermesManifold) (features : U64) : Outcome :=
  if m.phase ≠ .queued then (.error .invalidPhaseJump, m)
  else if features = 0 then (.error .emptyFeatures, m)
  else if !Feature.wellFormed features then (.error .illFormedFeatures, m)
  else
    (.ok (), { m with evidence := { m.evidence with negotiatedFeatures := features }
                      phase := .negotiated })

def ignite (m : HermesManifold) (wpr mailbox ready : Bool) : Outcome :=
  if m.phase ≠ .negotiated then (.error .invalidPhaseJump, m)
  else
    -- the three observations are recorded before the seal, which may still refuse
    let m := { m with evidence := { m.evidence with
      wprLocked := wpr, bootMailboxOk := mailbox, readyQueueObserved := ready } }
    match OnlineCertificate.sealFor m.generation m.evidence with
    | .error fault => (.error fault, m)
    | .ok certificate => (.ok (), { m with certificate := some certificate, phase := .online })

def detectFault (m : HermesManifold) (fatal : Bool) : Outcome :=
  if m.phase ≠ .online then (.error .invalidPhaseJump, m)
  else if m.certificate.isNone then (.error .certificateMissing, m)
  else
    let m :=
      if fatal then { m with fatalFaults := Word.saturatingAdd m.fatalFaults 1 }
      else { m with correctedFaults := Word.saturatingAdd m.correctedFaults 1 }
    (.ok (), { m with phase := .recovering })

def restore (m : HermesManifold) : Outcome :=
  if m.phase ≠ .recovering then (.error .invalidPhaseJump, m)
  else if m.certificate.isNone then (.error .certificateMissing, m)
  else (.ok (), { m with phase := .online })

def contain (m : HermesManifold) : Outcome :=
  if m.phase ≠ .recovering then (.error .invalidPhaseJump, m)
  else (.ok (), { m with phase := .quarantined })

def release (m : HermesManifold) : Outcome :=
  if m.phase ≠ .quarantined then (.error .invalidPhaseJump, m)
  else (.ok (), dark (m.generation + 1))

/-! ## Calls -/

/-- One transition call with its arguments. -/
inductive Call where
  | observeProbe (pciMatched : Bool)
  | observeFirmware (measured : Bool)
  | armQueues (iommu : Bool) (domain : U32)
  | negotiate (features : U64)
  | ignite (wpr mailbox ready : Bool)
  | detectFault (fatal : Bool)
  | restore
  | contain
  | release
deriving DecidableEq

def step (m : HermesManifold) : Call → Outcome
  | .observeProbe pciMatched => m.observeProbe pciMatched
  | .observeFirmware measured => m.observeFirmware measured
  | .armQueues iommu domain => m.armQueues iommu domain
  | .negotiate features => m.negotiate features
  | .ignite wpr mailbox ready => m.ignite wpr mailbox ready
  | .detectFault fatal => m.detectFault fatal
  | .restore => m.restore
  | .contain => m.contain
  | .release => m.release

/-- Runs of the manifold from `dark g`, under any calls whatever. -/
abbrev ManifoldRun (g : U32) := Run step (fun _ _ => True) (dark g)

end HermesManifold

end Slope.Hermes
