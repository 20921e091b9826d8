import Slope.Crest.Seal

/-!
# `Crest.Tamper` — which alterations a root detects

A root is a fold of `absorb` over the words of the covered fields, in a fixed order. A `Transcript` describes
a record in these terms: its fields, the list of those that are absorbed, and the word each one is absorbed as,
which loses nothing of the field. Each of the source's absorption routines is shown to be the fold of its
transcript (`absorbGpu_eq`, …, `commandRoot_eq`), and `Transcript.absorb_ne` is then the one argument every
detection result rests on: changing exactly one absorbed field changes the state.
-/

namespace Slope.Crest

/-- A record as a sequence of absorbed words. `Differs r r' f` says that `r` and `r'` disagree in field `f`. -/
structure Transcript (ρ φ : Type) where
  fields : List φ
  nodup : fields.Nodup
  word : ρ → φ → U64
  Differs : ρ → ρ → φ → Prop
  word_ne : ∀ r r', ∀ f ∈ fields, word r f ≠ word r' f ↔ Differs r r' f

namespace Transcript

variable {ρ φ : Type} (t : Transcript ρ φ) {r r' : ρ} {f : φ}

def absorb (state : U64) (r : ρ) : U64 := (t.fields.map (t.word r)).foldl Crest.absorb state

theorem absorb_of_word_eq (h : t.word r = t.word r') (state : U64) : t.absorb state r = t.absorb state r' := by
  rw [absorb, absorb, h]

/-- Records that agree in every absorbed field are absorbed alike. -/
theorem absorb_congr (hsame : ∀ g ∈ t.fields, ¬ t.Differs r r' g) (state : U64) :
    t.absorb state r = t.absorb state r' := by
  have hwords : t.fields.map (t.word r) = t.fields.map (t.word r') := by
    apply List.map_congr_left
    intro g hg
    exact not_not.mp (mt (t.word_ne r r' g hg).mp (hsame g hg))
  rw [absorb, absorb, hwords]

/-- **Detection.** Records that differ in exactly one absorbed field are absorbed differently. -/
theorem absorb_ne (hf : f ∈ t.fields) (hdiff : t.Differs r r' f)
    (hsame : ∀ g ∈ t.fields, g ≠ f → ¬ t.Differs r r' g) (state : U64) :
    t.absorb state r ≠ t.absorb state r' := by
  refine Mixer.foldl_ne_of_one absorb_injective_state absorb_injective_word t.nodup hf ?_ ?_ state
  · exact (t.word_ne r r' f hf).mpr hdiff
  · intro g hg hgf
    exact not_not.mp (mt (t.word_ne r r' g hg).mp (hsame g hg hgf))

end Transcript

/-! ## The nested records -/

inductive GpuField where
  | vendorId | deviceId | revision | gspWireMajor | gspWireMinor | gspEpoch | negotiatedFeatures
  | firmwareVersion | temperatureQ16 | pressureQ16 | correctedFaults | fatalFaults
deriving DecidableEq

namespace GpuField

def all : List GpuField :=
  [vendorId, deviceId, revision, gspWireMajor, gspWireMinor, gspEpoch, negotiatedFeatures, firmwareVersion,
    temperatureQ16, pressureQ16, correctedFaults, fatalFaults]

def Differs (g g' : QuantumGpuState) : GpuField → Prop
  | vendorId => g.vendorId ≠ g'.vendorId
  | deviceId => g.deviceId ≠ g'.deviceId
  | revision => g.revision ≠ g'.revision
  | gspWireMajor => g.gspWireMajor ≠ g'.gspWireMajor
  | gspWireMinor => g.gspWireMinor ≠ g'.gspWireMinor
  | gspEpoch => g.gspEpoch ≠ g'.gspEpoch
  | negotiatedFeatures => g.negotiatedFeatures ≠ g'.negotiatedFeatures
  | firmwareVersion => g.firmwareVersion ≠ g'.firmwareVersion
  | temperatureQ16 => g.temperatureQ16 ≠ g'.temperatureQ16
  | pressureQ16 => g.pressureQ16 ≠ g'.pressureQ16
  | correctedFaults => g.correctedFaults ≠ g'.correctedFaults
  | fatalFaults => g.fatalFaults ≠ g'.fatalFaults

def word (g : QuantumGpuState) : GpuField → U64
  | vendorId => g.vendorId.setWidth 64
  | deviceId => g.deviceId.setWidth 64
  | revision => g.revision.setWidth 64
  | gspWireMajor => g.gspWireMajor.setWidth 64
  | gspWireMinor => g.gspWireMinor.setWidth 64
  | gspEpoch => g.gspEpoch.setWidth 64
  | negotiatedFeatures => g.negotiatedFeatures
  | firmwareVersion => g.firmwareVersion
  | temperatureQ16 => g.temperatureQ16.setWidth 64
  | pressureQ16 => g.pressureQ16.setWidth 64
  | correctedFaults => g.correctedFaults.setWidth 64
  | fatalFaults => g.fatalFaults.setWidth 64

theorem mem_all (f : GpuField) : f ∈ all := by
  cases f <;> decide

theorem word_ne (g g' : QuantumGpuState) (f : GpuField) : f.word g ≠ f.word g' ↔ f.Differs g g' := by
  cases f <;> simp [word, Differs, widen_inj]

end GpuField

theorem absorbGpu_eq (state : U64) (gpu : QuantumGpuState) :
    absorbGpu state gpu = (GpuField.all.map (GpuField.word gpu)).foldl absorb state := rfl

inductive BlackLabField where
  | policyEpoch | risk | severity | action | temporalViolations | evidenceVotes | planSteps | requiredQuorum
  | ledgerEpoch | ledgerRoot | evidenceRoot | planRoot | forecastTick
deriving DecidableEq

namespace BlackLabField

def all : List BlackLabField :=
  [policyEpoch, risk, severity, action, temporalViolations, evidenceVotes, planSteps, requiredQuorum,
    ledgerEpoch, ledgerRoot, evidenceRoot, planRoot, forecastTick]

def Differs (b b' : QuantumBlackLabState) : BlackLabField → Prop
  | policyEpoch => b.policyEpoch ≠ b'.policyEpoch
  | risk => b.risk ≠ b'.risk
  | severity => b.severity ≠ b'.severity
  | action => b.action ≠ b'.action
  | temporalViolations => b.temporalViolations ≠ b'.temporalViolations
  | evidenceVotes => b.evidenceVotes ≠ b'.evidenceVotes
  | planSteps => b.planSteps ≠ b'.planSteps
  | requiredQuorum => b.requiredQuorum ≠ b'.requiredQuorum
  | ledgerEpoch => b.ledgerEpoch ≠ b'.ledgerEpoch
  | ledgerRoot => b.ledgerRoot ≠ b'.ledgerRoot
  | evidenceRoot => b.evidenceRoot ≠ b'.evidenceRoot
  | planRoot => b.planRoot ≠ b'.planRoot
  | forecastTick => b.forecastTick ≠ b'.forecastTick

def word (b : QuantumBlackLabState) : BlackLabField → U64
  | policyEpoch => b.policyEpoch
  | risk => b.risk.setWidth 64
  | severity => b.severity.setWidth 64
  | action => b.action.setWidth 64
  | temporalViolations => b.temporalViolations.setWidth 64
  | evidenceVotes => b.evidenceVotes.setWidth 64
  | planSteps => b.planSteps.setWidth 64
  | requiredQuorum => b.requiredQuorum.setWidth 64
  | ledgerEpoch => b.ledgerEpoch
  | ledgerRoot => b.ledgerRoot
  | evidenceRoot => b.evidenceRoot
  | planRoot => b.planRoot
  | forecastTick => b.forecastTick

theorem mem_all (f : BlackLabField) : f ∈ all := by
  cases f <;> decide

theorem word_ne (b b' : QuantumBlackLabState) (f : BlackLabField) : f.word b ≠ f.word b' ↔ f.Differs b b' := by
  cases f <;> simp [word, Differs, widen_inj]

end BlackLabField

theorem absorbBlacklab_eq (state : U64) (blacklab : QuantumBlackLabState) :
    absorbBlacklab state blacklab = (BlackLabField.all.map (BlackLabField.word blacklab)).foldl absorb state := rfl

inductive DisplayField where
  | width | height | pitch | format | refreshMillihertz | beamPosition | presentSequence | frameBudgetTicks
  | predictedRenderTicks | damageTiles | totalTiles
deriving DecidableEq

namespace DisplayField

def all : List DisplayField :=
  [width, height, pitch, format, refreshMillihertz, beamPosition, presentSequence, frameBudgetTicks,
    predictedRenderTicks, damageTiles, totalTiles]

def Differs (d d' : QuantumDisplayState) : DisplayField → Prop
  | width => d.width ≠ d'.width
  | height => d.height ≠ d'.height
  | pitch => d.pitch ≠ d'.pitch
  | format => d.format ≠ d'.format
  | refreshMillihertz => d.refreshMillihertz ≠ d'.refreshMillihertz
  | beamPosition => d.beamPosition ≠ d'.beamPosition
  | presentSequence => d.presentSequence ≠ d'.presentSequence
  | frameBudgetTicks => d.frameBudgetTicks ≠ d'.frameBudgetTicks
  | predictedRenderTicks => d.predictedRenderTicks ≠ d'.predictedRenderTicks
  | damageTiles => d.damageTiles ≠ d'.damageTiles
  | totalTiles => d.totalTiles ≠ d'.totalTiles

def word (d : QuantumDisplayState) : DisplayField → U64
  | width => d.width.setWidth 64
  | height => d.height.setWidth 64
  | pitch => d.pitch.setWidth 64
  | format => d.format.setWidth 64
  | refreshMillihertz => d.refreshMillihertz.setWidth 64
  | beamPosition => d.beamPosition.setWidth 64
  | presentSequence => d.presentSequence
  | frameBudgetTicks => d.frameBudgetTicks
  | predictedRenderTicks => d.predictedRenderTicks
  | damageTiles => d.damageTiles.setWidth 64
  | totalTiles => d.totalTiles.setWidth 64

theorem mem_all (f : DisplayField) : f ∈ all := by
  cases f <;> decide

theorem word_ne (d d' : QuantumDisplayState) (f : DisplayField) : f.word d ≠ f.word d' ↔ f.Differs d d' := by
  cases f <;> simp [word, Differs, widen_inj]

end DisplayField

theorem absorbDisplay_eq (state : U64) (display : QuantumDisplayState) :
    absorbDisplay state display = (DisplayField.all.map (DisplayField.word display)).foldl absorb state := rfl

/-! ## Snapshots -/

/-- The covered fields of a snapshot: all but `structSize`, the reserved ones and `root`. -/
inductive SnapshotField where
  | abiVersion | sequence | epoch | logicalTick | topologyEpoch | capabilityEpoch | flags
  | gpu (f : GpuField)
  | blacklab (f : BlackLabField)
  | display (f : DisplayField)
  | desktopRights | desktopSession | desktopGeneration
deriving DecidableEq

namespace SnapshotField

def all : List SnapshotField :=
  [abiVersion, sequence, epoch, logicalTick, topologyEpoch, capabilityEpoch, flags]
    ++ GpuField.all.map gpu ++ BlackLabField.all.map blacklab ++ DisplayField.all.map display
    ++ [desktopRights, desktopSession, desktopGeneration]

def Differs (s s' : QuantumSystemSnapshot) : SnapshotField → Prop
  | abiVersion => s.abiVersion ≠ s'.abiVersion
  | sequence => s.sequence ≠ s'.sequence
  | epoch => s.epoch ≠ s'.epoch
  | logicalTick => s.logicalTick ≠ s'.logicalTick
  | topologyEpoch => s.topologyEpoch ≠ s'.topologyEpoch
  | capabilityEpoch => s.capabilityEpoch ≠ s'.capabilityEpoch
  | flags => s.flags ≠ s'.flags
  | gpu f => f.Differs s.gpu s'.gpu
  | blacklab f => f.Differs s.blacklab s'.blacklab
  | display f => f.Differs s.display s'.display
  | desktopRights => s.desktopRights ≠ s'.desktopRights
  | desktopSession => s.desktopSession ≠ s'.desktopSession
  | desktopGeneration => s.desktopGeneration ≠ s'.desktopGeneration

def word (s : QuantumSystemSnapshot) : SnapshotField → U64
  | abiVersion => s.abiVersion.setWidth 64
  | sequence => s.sequence
  | epoch => s.epoch
  | logicalTick => s.logicalTick
  | topologyEpoch => s.topologyEpoch
  | capabilityEpoch => s.capabilityEpoch
  | flags => s.flags
  | gpu f => f.word s.gpu
  | blacklab f => f.word s.blacklab
  | display f => f.word s.display
  | desktopRights => s.desktopRights
  | desktopSession => s.desktopSession
  | desktopGeneration => s.desktopGeneration.setWidth 64

theorem mem_all (f : SnapshotField) : f ∈ all := by
  cases f with
  | gpu f => simp [all, GpuField.mem_all f]
  | blacklab f => simp [all, BlackLabField.mem_all f]
  | display f => simp [all, DisplayField.mem_all f]
  | _ => simp [all]

theorem word_ne (s s' : QuantumSystemSnapshot) (f : SnapshotField) : f.word s ≠ f.word s' ↔ f.Differs s s' := by
  cases f with
  | gpu f => exact f.word_ne s.gpu s'.gpu
  | blacklab f => exact f.word_ne s.blacklab s'.blacklab
  | display f => exact f.word_ne s.display s'.display
  | _ => simp [word, Differs, widen_inj]

end SnapshotField

def snapshotTranscript : Transcript QuantumSystemSnapshot SnapshotField where
  fields := SnapshotField.all
  nodup := by decide
  word := SnapshotField.word
  Differs := SnapshotField.Differs
  word_ne s s' f _ := f.word_ne s s'

theorem snapshotRoot_eq (secret : U64) (s : QuantumSystemSnapshot) :
    snapshotRoot secret s
      = avalanche (snapshotTranscript.absorb (domain secret 0x534e415053484f54) s ^^^ secret.rotateLeft 17) := by
  simp only [snapshotRoot, absorbGpu_eq, absorbBlacklab_eq, absorbDisplay_eq]
  simp only [Transcript.absorb, snapshotTranscript, SnapshotField.all, List.map_append, List.foldl_append,
    List.map_map]
  rfl

/-- Changing one covered field of a snapshot changes its root. -/
theorem snapshotRoot_ne (secret : U64) {s s' : QuantumSystemSnapshot}
    (hone : ∃! f : SnapshotField, f.Differs s s') : snapshotRoot secret s ≠ snapshotRoot secret s' := by
  obtain ⟨f, hdiff, honly⟩ := hone
  rw [snapshotRoot_eq, snapshotRoot_eq]
  intro h
  refine snapshotTranscript.absorb_ne (f.mem_all) hdiff ?_ _ (avalanche_xor_injective _ h)
  intro g _ hgf hg
  exact hgf (honly g hg)

/-- A snapshot that verifies carries the root of its contents. -/
theorem QuantumSystemSnapshot.root_of_verify {s : QuantumSystemSnapshot} {secret : U64}
    (h : s.verify secret = true) : s.root = snapshotRoot secret s := by
  simp only [QuantumSystemSnapshot.verify, Bool.and_eq_true, beq_iff_eq] at h
  exact h.2

theorem QuantumSystemSnapshot.seal_root (s : QuantumSystemSnapshot) (secret : U64) :
    (s.seal secret).root = snapshotRoot secret (s.seal secret) := by
  -- stated for any value of the field, so that no root has to be evaluated
  have hset : ∀ x : U64, ({ s with root := x } : QuantumSystemSnapshot).root = x := fun _ => rfl
  have hwords : ∀ x : U64, SnapshotField.word { s with root := 0 } = SnapshotField.word { s with root := x } := by
    intro x
    funext f
    cases f <;> rfl
  have hroot : ∀ x : U64, snapshotRoot secret { s with root := 0 } = snapshotRoot secret { s with root := x } := by
    intro x
    rw [snapshotRoot_eq, snapshotRoot_eq, snapshotTranscript.absorb_of_word_eq (hwords x)]
  have hseal : s.seal secret = { s with root := snapshotRoot secret { s with root := 0 } } := rfl
  rw [hseal, hset]
  exact hroot _

/-! ## Commands -/

/-- The covered fields of a command: all but `structSize`, `reserved` and `root`. The payload is absorbed in
    aligned chunks of eight bytes, and each chunk counts as a field. -/
inductive CommandField where
  | abiVersion | sequence | epoch | session | generation | opcode | flags | object | deadlineTick
  | argument (i : Fin 8)
  | payloadLength
  | payloadChunk (i : Fin 16)
deriving DecidableEq

/-- The bytes of the `i`-th aligned chunk. -/
def QuantumDesktopCommand.payloadChunk (c : QuantumDesktopCommand) (i : Fin 16) : List U8 :=
  (c.payload.toList.drop (8 * i.val)).take 8

namespace CommandField

def all : List CommandField :=
  [abiVersion, sequence, epoch, session, generation, opcode, flags, object, deadlineTick]
    ++ (List.finRange 8).map argument ++ [payloadLength] ++ (List.finRange 16).map payloadChunk

def Differs (c c' : QuantumDesktopCommand) : CommandField → Prop
  | abiVersion => c.abiVersion ≠ c'.abiVersion
  | sequence => c.sequence ≠ c'.sequence
  | epoch => c.epoch ≠ c'.epoch
  | session => c.session ≠ c'.session
  | generation => c.generation ≠ c'.generation
  | opcode => c.opcode ≠ c'.opcode
  | flags => c.flags ≠ c'.flags
  | object => c.object ≠ c'.object
  | deadlineTick => c.deadlineTick ≠ c'.deadlineTick
  | argument i => c.arguments.get i ≠ c'.arguments.get i
  | payloadLength => c.payloadLength ≠ c'.payloadLength
  | payloadChunk i => c.payloadChunk i ≠ c'.payloadChunk i

def word (c : QuantumDesktopCommand) : CommandField → U64
  | abiVersion => c.abiVersion.setWidth 64
  | sequence => c.sequence
  | epoch => c.epoch
  | session => c.session
  | generation => c.generation.setWidth 64
  | opcode => c.opcode.setWidth 64
  | flags => c.flags
  | object => c.object
  | deadlineTick => c.deadlineTick
  | argument i => c.arguments.get i
  | payloadLength => c.payloadLength.setWidth 64
  | payloadChunk i => bytesWord (c.payloadChunk i)

theorem mem_all (f : CommandField) : f ∈ all := by
  cases f <;> simp [all]

theorem length_payload (c : QuantumDesktopCommand) : c.payload.toList.length = 8 * 16 := Vector.length_toList

theorem length_payloadChunk (c : QuantumDesktopCommand) (i : Fin 16) : (c.payloadChunk i).length = 8 := by
  have hi := i.isLt
  rw [QuantumDesktopCommand.payloadChunk, List.length_take, List.length_drop, length_payload]
  omega

theorem word_ne (c c' : QuantumDesktopCommand) (f : CommandField) : f.word c ≠ f.word c' ↔ f.Differs c c' := by
  cases f with
  | payloadChunk i =>
      exact not_congr (bytesWord_inj (length_payloadChunk c i) (length_payloadChunk c' i))
  | _ => simp [word, Differs, widen_inj]

end CommandField

def commandTranscript : Transcript QuantumDesktopCommand CommandField where
  fields := CommandField.all
  nodup := by decide
  word := CommandField.word
  Differs := CommandField.Differs
  word_ne c c' f _ := f.word_ne c c'

theorem toList_eq_map_finRange {α : Type} {n : Nat} (v : Vector α n) : v.toList = (List.finRange n).map v.get := by
  apply List.ext_getElem
  · simp
  · intro i h₁ h₂
    simp [Vector.get]

theorem commandRoot_eq (secret : U64) (c : QuantumDesktopCommand) :
    commandRoot secret c
      = avalanche (commandTranscript.absorb (domain secret 0x434f4d4d414e4421) c ^^^ secret.rotateRight 9) := by
  simp only [commandRoot, toList_eq_map_finRange c.arguments,
    chunks_of_length_mul (by decide) (CommandField.length_payload c)]
  simp only [Transcript.absorb, commandTranscript, CommandField.all, List.map_append, List.foldl_append,
    List.map_map, List.foldl_map]
  rfl

/-- Changing one covered field of a command changes its root. -/
theorem commandRoot_ne (secret : U64) {c c' : QuantumDesktopCommand}
    (hone : ∃! f : CommandField, f.Differs c c') : commandRoot secret c ≠ commandRoot secret c' := by
  obtain ⟨f, hdiff, honly⟩ := hone
  rw [commandRoot_eq, commandRoot_eq]
  intro h
  refine commandTranscript.absorb_ne (f.mem_all) hdiff ?_ _ (avalanche_xor_injective _ h)
  intro g _ hgf hg
  exact hgf (honly g hg)

/-- A command that verifies carries the root of its contents. -/
theorem QuantumDesktopCommand.root_of_verify {c : QuantumDesktopCommand} {secret : U64}
    (h : c.verify secret = true) : c.root = commandRoot secret c := by
  simp only [QuantumDesktopCommand.verify, Bool.and_eq_true, beq_iff_eq] at h
  exact h.2

theorem QuantumDesktopCommand.seal_root (c : QuantumDesktopCommand) (secret : U64) :
    (c.seal secret).root = commandRoot secret (c.seal secret) := by
  have hset : ∀ x : U64, ({ c with root := x } : QuantumDesktopCommand).root = x := fun _ => rfl
  have hwords : ∀ x : U64, CommandField.word { c with root := 0 } = CommandField.word { c with root := x } := by
    intro x
    funext f
    cases f <;> rfl
  have hroot : ∀ x : U64, commandRoot secret { c with root := 0 } = commandRoot secret { c with root := x } := by
    intro x
    rw [commandRoot_eq, commandRoot_eq, commandTranscript.absorb_of_word_eq (hwords x)]
  have hseal : c.seal secret = { c with root := commandRoot secret { c with root := 0 } } := rfl
  rw [hseal, hset]
  exact hroot _

/-- **Single-field alterations of commands and snapshots are detected.** Under every secret, two commands that
    differ in exactly one covered field have different roots, so a sealed command altered in one such field
    with its root kept does not verify; and the same for snapshots. -/
theorem single_alteration_never_verifies (secret : U64) :
    ((∀ c c' : QuantumDesktopCommand, (∃! f : CommandField, f.Differs c c') →
        commandRoot secret c ≠ commandRoot secret c') ∧
      ∀ c c' : QuantumDesktopCommand, (∃! f : CommandField, f.Differs (c.seal secret) c') →
        c'.root = (c.seal secret).root → c'.verify secret = false) ∧
    (∀ s s' : QuantumSystemSnapshot, (∃! f : SnapshotField, f.Differs s s') →
        snapshotRoot secret s ≠ snapshotRoot secret s') ∧
      ∀ s s' : QuantumSystemSnapshot, (∃! f : SnapshotField, f.Differs (s.seal secret) s') →
        s'.root = (s.seal secret).root → s'.verify secret = false := by
  refine ⟨⟨fun c c' => commandRoot_ne secret, ?_⟩, fun s s' => snapshotRoot_ne secret, ?_⟩
  · intro c c' hone hroot
    rw [Bool.eq_false_iff]
    intro hverify
    apply commandRoot_ne secret hone
    rw [← QuantumDesktopCommand.seal_root, ← hroot, QuantumDesktopCommand.root_of_verify hverify]
  · intro s s' hone hroot
    rw [Bool.eq_false_iff]
    intro hverify
    apply snapshotRoot_ne secret hone
    rw [← QuantumSystemSnapshot.seal_root, ← hroot, QuantumSystemSnapshot.root_of_verify hverify]

def captureCommand : QuantumDesktopCommand :=
  { QuantumDesktopCommand.empty with
    sequence := 1
    epoch := 1
    session := 1
    generation := 1
    opcode := 3 }

def firstSnapshot : QuantumSystemSnapshot :=
  { QuantumSystemSnapshot.empty with
    sequence := 1
    epoch := 1
    desktopSession := 1
    desktopGeneration := 1 }

/-- A sealed command redirected to another opcode, and a sealed snapshot with its GPU temperature changed. -/
theorem altered_opcode_and_temperature_rejected :
    ((captureCommand.seal 7).verify 7 = true ∧ { captureCommand.seal 7 with opcode := 4 }.verify 7 = false) ∧
    (firstSnapshot.seal 7).verify 7 = true ∧
      { firstSnapshot.seal 7 with gpu := { QuantumGpuState.zero with temperatureQ16 := 1 } }.verify 7 = false := by
  refine ⟨⟨by decide +kernel,
      (single_alteration_never_verifies 7).1.2 captureCommand _ ⟨.opcode, ?_, ?_⟩ rfl⟩,
    by decide +kernel,
      (single_alteration_never_verifies 7).2.2 firstSnapshot _ ⟨.gpu .temperatureQ16, ?_, ?_⟩ rfl⟩
  · show (3 : U32) ≠ 4
    decide
  · intro f hf
    cases f with
    | opcode => rfl
    | _ => exact absurd rfl hf
  · show (0 : U32) ≠ 1
    decide
  · intro f hf
    cases f with
    | gpu f =>
        cases f with
        | temperatureQ16 => rfl
        | _ => exact absurd rfl hf
    | blacklab f => cases f <;> exact absurd rfl hf
    | display f => cases f <;> exact absurd rfl hf
    | _ => exact absurd rfl hf

/-! ## Replies -/

/-- Every field of a frame certificate. -/
inductive FrameField where
  | frameSequence | snapshotSequence | sceneEpoch | damageRoot | sceneRoot | presentTick | renderedTiles
  | skippedTiles | laneVotes | reserved | root
deriving DecidableEq

/-- Every field of a reply, the elements of `outputs` and the fields of `frame` one by one. -/
inductive ReplyField where
  | abiVersion | structSize | commandSequence | snapshotSequence | status | flags
  | output (i : Fin 8)
  | frame (f : FrameField)
  | root
deriving DecidableEq

namespace FrameField

/-- The fields `absorbFrame` reads. -/
def absorbed : List FrameField :=
  [frameSequence, snapshotSequence, sceneEpoch, damageRoot, sceneRoot, presentTick, renderedTiles, skippedTiles,
    laneVotes]

def Differs (q q' : QuantumFrameCertificate) : FrameField → Prop
  | frameSequence => q.frameSequence ≠ q'.frameSequence
  | snapshotSequence => q.snapshotSequence ≠ q'.snapshotSequence
  | sceneEpoch => q.sceneEpoch ≠ q'.sceneEpoch
  | damageRoot => q.damageRoot ≠ q'.damageRoot
  | sceneRoot => q.sceneRoot ≠ q'.sceneRoot
  | presentTick => q.presentTick ≠ q'.presentTick
  | renderedTiles => q.renderedTiles ≠ q'.renderedTiles
  | skippedTiles => q.skippedTiles ≠ q'.skippedTiles
  | laneVotes => q.laneVotes ≠ q'.laneVotes
  | reserved => q.reserved ≠ q'.reserved
  | root => q.root ≠ q'.root

def word (q : QuantumFrameCertificate) : FrameField → U64
  | frameSequence => q.frameSequence
  | snapshotSequence => q.snapshotSequence
  | sceneEpoch => q.sceneEpoch
  | damageRoot => q.damageRoot
  | sceneRoot => q.sceneRoot
  | presentTick => q.presentTick
  | renderedTiles => q.renderedTiles.setWidth 64
  | skippedTiles => q.skippedTiles.setWidth 64
  | laneVotes => q.laneVotes.setWidth 64
  | reserved => bytesWord q.reserved.toList
  | root => q.root

theorem word_ne (q q' : QuantumFrameCertificate) (f : FrameField) (hf : f ∈ absorbed) :
    f.word q ≠ f.word q' ↔ f.Differs q q' := by
  cases f with
  | reserved => exact absurd hf (by decide)
  | _ => simp [word, Differs, widen_inj]

end FrameField

theorem absorbFrame_eq (state : U64) (frame : QuantumFrameCertificate) :
    absorbFrame state frame = (FrameField.absorbed.map (FrameField.word frame)).foldl absorb state := rfl

namespace ReplyField

/-- The fields `replyRoot` reads. -/
def absorbed : List ReplyField :=
  [abiVersion, commandSequence, snapshotSequence, status, flags] ++ (List.finRange 8).map output
    ++ FrameField.absorbed.map frame

def Differs (r r' : QuantumDesktopReply) : ReplyField → Prop
  | abiVersion => r.abiVersion ≠ r'.abiVersion
  | structSize => r.structSize ≠ r'.structSize
  | commandSequence => r.commandSequence ≠ r'.commandSequence
  | snapshotSequence => r.snapshotSequence ≠ r'.snapshotSequence
  | status => r.status ≠ r'.status
  | flags => r.flags ≠ r'.flags
  | output i => r.outputs.get i ≠ r'.outputs.get i
  | frame f => f.Differs r.frame r'.frame
  | root => r.root ≠ r'.root

def word (r : QuantumDesktopReply) : ReplyField → U64
  | abiVersion => r.abiVersion.setWidth 64
  | structSize => r.structSize.setWidth 64
  | commandSequence => r.commandSequence
  | snapshotSequence => r.snapshotSequence
  | status => r.status.setWidth 64
  | flags => r.flags.setWidth 64
  | output i => r.outputs.get i
  | frame f => f.word r.frame
  | root => r.root

theorem word_ne (r r' : QuantumDesktopReply) (f : ReplyField) (hf : f ∈ absorbed) :
    f.word r ≠ f.word r' ↔ f.Differs r r' := by
  cases f with
  | frame f => exact f.word_ne r.frame r'.frame (by simpa [absorbed] using hf)
  | _ => simp [word, Differs, widen_inj]

/-- What the root of a reply leaves out. -/
theorem absorbed_or (f : ReplyField) :
    f ∈ absorbed ∨ f = structSize ∨ f = frame .reserved ∨ f = frame .root ∨ f = root := by
  cases f with
  | frame f => cases f <;> simp [absorbed, FrameField.absorbed]
  | _ => simp [absorbed]

end ReplyField

def replyTranscript : Transcript QuantumDesktopReply ReplyField where
  fields := ReplyField.absorbed
  nodup := by decide
  word := ReplyField.word
  Differs := ReplyField.Differs
  word_ne r r' f hf := f.word_ne r r' hf

theorem replyRoot_eq (secret : U64) (r : QuantumDesktopReply) :
    replyRoot secret r
      = avalanche (replyTranscript.absorb (domain secret 0x5245504c59212121) r ^^^ secret.rotateLeft 31) := by
  simp only [replyRoot, toList_eq_map_finRange r.outputs, absorbFrame_eq]
  simp only [Transcript.absorb, replyTranscript, ReplyField.absorbed, List.map_append, List.foldl_append,
    List.map_map]
  rfl

/-- Changing one absorbed field of a reply changes its root. -/
theorem replyRoot_ne (secret : U64) {r r' : QuantumDesktopReply} {f : ReplyField} (hf : f ∈ ReplyField.absorbed)
    (hone : ∀ g : ReplyField, g.Differs r r' ↔ g = f) : replyRoot secret r ≠ replyRoot secret r' := by
  rw [replyRoot_eq, replyRoot_eq]
  intro h
  refine replyTranscript.absorb_ne hf ((hone f).mpr rfl) ?_ _ (avalanche_xor_injective _ h)
  intro g _ hgf hg
  exact hgf ((hone g).mp hg)

/-- Changing a field that is not absorbed leaves the root of a reply as it was. -/
theorem replyRoot_congr (secret : U64) {r r' : QuantumDesktopReply} {f : ReplyField}
    (hf : f ∉ ReplyField.absorbed) (hone : ∀ g : ReplyField, g.Differs r r' ↔ g = f) :
    replyRoot secret r = replyRoot secret r' := by
  rw [replyRoot_eq, replyRoot_eq, replyTranscript.absorb_congr]
  intro g hg hdiff
  rw [(hone g).mp hdiff] at hg
  exact hf hg

namespace QuantumDesktopReply

theorem verify_eq_true {r : QuantumDesktopReply} {secret : U64} :
    r.verify secret = true ↔ r.abiVersion >>> 16 = quantumCrestAbiMajor ∧ 176 ≤ r.structSize.toNat ∧
      r.commandSequence ≠ 0 ∧ r.root = replyRoot secret r := by
  simp [QuantumDesktopReply.verify, and_assoc]

end QuantumDesktopReply

/-- **What a verifying reply is bound to.** Alter exactly one field of a reply that verifies, any field but
    `structSize` and the padding: the altered reply fails to verify just when the field is not the root of the
    embedded frame certificate, which no root of a reply absorbs. -/
theorem reply_alteration_detected_iff {secret : U64} {r r' : QuantumDesktopReply} {f : ReplyField}
    (hverify : r.verify secret = true) (hone : ∀ g : ReplyField, g.Differs r r' ↔ g = f)
    (hsize : f ≠ .structSize) (hpad : f ≠ .frame .reserved) :
    r'.verify secret = false ↔ f ≠ .frame .root := by
  obtain ⟨habi, hlen, hseq, hroot⟩ := QuantumDesktopReply.verify_eq_true.mp hverify
  have hkeep : ∀ g : ReplyField, g ≠ f → ¬ g.Differs r r' := fun g hg h => hg ((hone g).mp h)
  constructor
  · rintro hfails rfl
    have habi' : r.abiVersion = r'.abiVersion := not_not.mp (hkeep .abiVersion (by decide))
    have hlen' : r.structSize = r'.structSize := not_not.mp (hkeep .structSize (by decide))
    have hseq' : r.commandSequence = r'.commandSequence := not_not.mp (hkeep .commandSequence (by decide))
    have hroot' : r.root = r'.root := not_not.mp (hkeep .root (by decide))
    rw [replyRoot_congr secret (by decide) hone] at hroot
    have hpasses := QuantumDesktopReply.verify_eq_true.mpr
      ⟨habi' ▸ habi, hlen' ▸ hlen, hseq' ▸ hseq, hroot' ▸ hroot⟩
    rw [hfails] at hpasses
    cases hpasses
  · intro hframe
    rw [Bool.eq_false_iff]
    intro hpasses
    obtain ⟨-, -, -, hroot'⟩ := QuantumDesktopReply.verify_eq_true.mp hpasses
    obtain hf | hf | hf | hf | rfl := f.absorbed_or
    · have hsame : r.root = r'.root := not_not.mp (hkeep .root (by rintro rfl; exact absurd hf (by decide)))
      apply replyRoot_ne secret hf hone
      rw [← hroot, ← hroot', hsame]
    · exact hsize hf
    · exact hpad hf
    · exact hframe hf
    · -- the stored root changed while the recomputed one did not
      apply (hone .root).mpr rfl
      rw [hroot, hroot', replyRoot_congr secret (by decide) hone]

/-- The reply to command `1`, sealed under the secret `5`. -/
def sealedReply : QuantumDesktopReply := { QuantumDesktopReply.empty with commandSequence := 1 }.seal 5

theorem sealedReply_verify : sealedReply.verify 5 = true := by
  decide +kernel

/-- Turning the status of a sealed reply into success is detected. -/
theorem altered_status_rejected : { sealedReply with status := 0 }.verify 5 = false := by
  refine (reply_alteration_detected_iff (f := .status) sealedReply_verify ?_ (by decide) (by decide)).mpr (by decide)
  intro g
  constructor
  · intro hg
    cases g with
    | status => rfl
    | frame f => cases f <;> exact absurd rfl hg
    | _ => exact absurd rfl hg
  · rintro rfl
    show sealedReply.status ≠ 0
    decide

/-- Replacing the certificate's root in a sealed reply is not detected. -/
theorem altered_frame_root_accepted :
    sealedReply.verify 5 = true ∧
      (∀ g : ReplyField, g.Differs sealedReply { sealedReply with frame := { sealedReply.frame with root := 1 } }
        ↔ g = .frame .root) ∧
      { sealedReply with frame := { sealedReply.frame with root := 1 } }.verify 5 = true := by
  refine ⟨sealedReply_verify, ?_, by decide +kernel⟩
  intro g
  constructor
  · intro hg
    cases g with
    | frame f =>
        cases f with
        | root => rfl
        | _ => exact absurd rfl hg
    | _ => exact absurd rfl hg
  · rintro rfl
    show sealedReply.frame.root ≠ 1
    decide

end Slope.Crest
