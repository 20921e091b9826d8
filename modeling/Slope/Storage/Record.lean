import Mathlib.Data.List.Basic
import Slope.Lib.Word

/-!
# `Storage.Record` — submitting the blocks of a hologram record

`inscribe_hologram` and `recall_hologram` check the lengths of a record first and its addresses one by one,
each just before its block is submitted. The backend is whatever implements the trait, so what it was asked is
observed by running the drive over a `Recorder` of it: a backend that answers the same and keeps the calls.

The two functions differ in the request they submit only, and are one loop here (`transferLoop`). A record
whose addresses all fit is submitted in order up to the first refusal (`transferLoop_spec`); one that runs past
the last address is refused too late, with its first blocks already submitted (`received_ne_nil`).
-/

namespace Slope.Storage

open Word

def maximumRecordBlocks : Nat := 64

inductive StorageError where
  | invalidRecord | outputTooSmall | codecFailure | capabilityRevoked | queueFull | backendUnavailable
deriving DecidableEq

/-- A broker handle; `from_kernel` is the only way to one, and refuses zero. -/
structure StorageCapability where
  raw : U64
  raw_ne_zero : raw ≠ 0
deriving DecidableEq

def StorageCapability.fromKernel (raw : U64) : Option StorageCapability :=
  if h : raw = 0 then none else some ⟨raw, h⟩

/-- A pinned block and the generation of its mapping, neither of them zero. -/
structure DmaBlockLease where
  raw : U64
  generation : U32
  raw_ne_zero : raw ≠ 0
  generation_ne_zero : generation ≠ 0
deriving DecidableEq

def DmaBlockLease.fromKernel (raw : U64) (generation : U32) : Option DmaBlockLease :=
  if h : raw = 0 ∨ generation = 0 then none
  else some ⟨raw, generation, fun hr => h (Or.inl hr), fun hg => h (Or.inr hg)⟩

structure StorageCompletion where
  token : U64
deriving DecidableEq

abbrev Answer := Except StorageError StorageCompletion

/-- The `NvmeBackend` trait: a call may change the backend, whatever it answers. -/
class NvmeBackend (B : Type*) where
  submitWrite : B → StorageCapability → DmaBlockLease → U64 → Answer × B
  submitRead : B → StorageCapability → DmaBlockLease → U64 → Answer × B

inductive Request where
  | write | read
deriving DecidableEq

def submit {B : Type*} [NvmeBackend B] : Request → B → StorageCapability → DmaBlockLease → U64 → Answer × B
  | .write => NvmeBackend.submitWrite
  | .read => NvmeBackend.submitRead

structure AkashicDrive (B : Type*) where
  capability : StorageCapability
  backend : B

/-! ## The two operations -/

section

variable {B : Type*} [NvmeBackend B]

/-- The submission loop from block `index` on: the address is checked just before its block is submitted. -/
def transferLoop (request : Request) (capability : StorageCapability) (firstLogicalBlock : U64) :
    Nat → List DmaBlockLease → List StorageCompletion → B →
      Except StorageError Unit × List StorageCompletion × B
  | _, [], completions, backend => (.ok (), completions, backend)
  | index, block :: blocks, completions, backend =>
    match checkedAdd firstLogicalBlock (BitVec.ofNat 64 index) with
    | none => (.error .invalidRecord, completions, backend)
    | some lba =>
      match submit request backend capability block lba with
      | (.error fault, backend) => (.error fault, completions, backend)
      | (.ok completion, backend) =>
        transferLoop request capability firstLogicalBlock (index + 1) blocks
          (completions.set index completion) backend

/-- The result, the completion buffer and the drive after a transfer. -/
structure Transfer (B : Type*) where
  result : Except StorageError Nat
  completions : List StorageCompletion
  drive : AkashicDrive B

namespace AkashicDrive

def transfer (request : Request) (drive : AkashicDrive B) (firstLogicalBlock : U64)
    (blocks : List DmaBlockLease) (completions : List StorageCompletion) : Transfer B :=
  if blocks = [] ∨ maximumRecordBlocks < blocks.length ∨ completions.length < blocks.length then
    { result := .error .invalidRecord, completions, drive }
  else
    let (result, completions, backend) :=
      transferLoop request drive.capability firstLogicalBlock 0 blocks completions drive.backend
    { result := result.map fun _ => blocks.length, completions, drive := { drive with backend } }

def inscribeHologram (drive : AkashicDrive B) (firstLogicalBlock : U64) (blocks : List DmaBlockLease)
    (completions : List StorageCompletion) : Transfer B :=
  drive.transfer .write firstLogicalBlock blocks completions

def recallHologram (drive : AkashicDrive B) (firstLogicalBlock : U64) (blocks : List DmaBlockLease)
    (completions : List StorageCompletion) : Transfer B :=
  drive.transfer .read firstLogicalBlock blocks completions

end AkashicDrive

end

/-! ## Observing a backend -/

/-- One call of the backend, with its answer. -/
structure Submission where
  request : Request
  capability : StorageCapability
  block : DmaBlockLease
  logicalBlock : U64
  answer : Answer

/-- A backend together with the calls it has received, oldest first. -/
structure Recorder (B : Type*) where
  backend : B
  log : List Submission

section

variable {B : Type*} [NvmeBackend B]

def Recorder.keep (r : Recorder B) (backend : B) (call : Submission) : Recorder B :=
  { backend, log := r.log ++ [call] }

def Recorder.submit (request : Request) (r : Recorder B) (capability : StorageCapability)
    (block : DmaBlockLease) (logicalBlock : U64) : Answer × Recorder B :=
  let (answer, backend) := Storage.submit request r.backend capability block logicalBlock
  (answer, r.keep backend { request, capability, block, logicalBlock, answer })

instance : NvmeBackend (Recorder B) where
  submitWrite := Recorder.submit .write
  submitRead := Recorder.submit .read

/-- The same drive, with its calls observed from now on. -/
def AkashicDrive.observed (drive : AkashicDrive B) : AkashicDrive (Recorder B) where
  capability := drive.capability
  backend := { backend := drive.backend, log := [] }

/-- A recorder answers what its backend answers, and keeps the call. -/
theorem submit_recorder {request : Request} {r : Recorder B} {capability : StorageCapability}
    {block : DmaBlockLease} {lba : U64} {answer : Answer} {backend : B}
    (h : submit request r.backend capability block lba = (answer, backend)) :
    submit request r capability block lba
      = (answer, r.keep backend { request, capability, block, logicalBlock := lba, answer }) := by
  have hrec : submit request r capability block lba = Recorder.submit request r capability block lba := by
    cases request with
    | write => rfl
    | read => rfl
  rw [hrec, Recorder.submit, h]

end

/-! ## One block of the loop -/

section

variable {B : Type*} [NvmeBackend B] {request : Request} {capability : StorageCapability} {first lba : U64}
  {index : Nat} {block : DmaBlockLease} {blocks : List DmaBlockLease} {completions : List StorageCompletion}
  {backend backend' : B}

theorem transferLoop_past_end (ha : checkedAdd first (BitVec.ofNat 64 index) = none) :
    transferLoop request capability first index (block :: blocks) completions backend
      = (.error .invalidRecord, completions, backend) := by
  unfold transferLoop
  rw [ha]

theorem transferLoop_refused (ha : checkedAdd first (BitVec.ofNat 64 index) = some lba) {fault : StorageError}
    (hs : submit request backend capability block lba = (.error fault, backend')) :
    transferLoop request capability first index (block :: blocks) completions backend
      = (.error fault, completions, backend') := by
  unfold transferLoop
  rw [ha]
  dsimp only
  rw [hs]

theorem transferLoop_next (ha : checkedAdd first (BitVec.ofNat 64 index) = some lba)
    {completion : StorageCompletion}
    (hs : submit request backend capability block lba = (.ok completion, backend')) :
    transferLoop request capability first index (block :: blocks) completions backend
      = transferLoop request capability first (index + 1) blocks (completions.set index completion)
          backend' := by
  conv_lhs => unfold transferLoop
  rw [ha]
  dsimp only
  rw [hs]

end

/-! ## Whole transfers -/

section

variable {B : Type*} [NvmeBackend B] (request : Request) (capability : StorageCapability) (first : U64)

/-- Observing changes nothing that the loop returns, and nothing of the backend. -/
theorem transferLoop_recorder (blocks : List DmaBlockLease) (index : Nat)
    (completions : List StorageCompletion) (r : Recorder B) :
    transferLoop request capability first index blocks completions r.backend
      = ((transferLoop request capability first index blocks completions r).1,
         (transferLoop request capability first index blocks completions r).2.1,
         (transferLoop request capability first index blocks completions r).2.2.backend) := by
  induction blocks generalizing index completions r with
  | nil => rfl
  | cons block blocks ih =>
      cases ha : checkedAdd first (BitVec.ofNat 64 index) with
      | none => rw [transferLoop_past_end ha, transferLoop_past_end ha]
      | some lba =>
          rcases hs : submit request r.backend capability block lba with ⟨fault | completion, backend⟩
          · rw [transferLoop_refused ha hs, transferLoop_refused ha (submit_recorder hs)]
            rfl
          · rw [transferLoop_next ha hs, transferLoop_next ha (submit_recorder hs)]
            exact ih (index + 1) (completions.set index completion) (r.keep backend _)

/-- The log only grows. -/
theorem log_prefix_transferLoop (blocks : List DmaBlockLease) (index : Nat)
    (completions : List StorageCompletion) (r : Recorder B) :
    r.log <+: (transferLoop request capability first index blocks completions r).2.2.log := by
  induction blocks generalizing index completions r with
  | nil => exact List.prefix_rfl
  | cons block blocks ih =>
      cases ha : checkedAdd first (BitVec.ofNat 64 index) with
      | none => simp only [transferLoop_past_end ha, List.prefix_rfl]
      | some lba =>
          rcases hs : submit request r.backend capability block lba with ⟨fault | completion, backend⟩
          · rw [transferLoop_refused ha (submit_recorder hs)]
            exact List.prefix_append _ _
          · rw [transferLoop_next ha (submit_recorder hs)]
            exact (List.prefix_append _ _).trans
              (ih (index + 1) (completions.set index completion) (r.keep backend _))

/-- `InOrder request capability plan calls done result`: the blocks of `plan` are submitted one after another at
    their addresses, up to the first refusal; `done` are the completions and `result` how it ended. -/
inductive InOrder (request : Request) (capability : StorageCapability) :
    List (DmaBlockLease × Nat) → List Submission → List StorageCompletion → Except StorageError Unit →
      Prop where
  | finished : InOrder request capability [] [] [] (.ok ())
  | refused {plan : List (DmaBlockLease × Nat)} {block : DmaBlockLease} {lba : U64} {fault : StorageError} :
      InOrder request capability ((block, lba.toNat) :: plan)
        [{ request, capability, block, logicalBlock := lba, answer := .error fault }] [] (.error fault)
  | next {plan : List (DmaBlockLease × Nat)} {block : DmaBlockLease} {lba : U64} {c : StorageCompletion}
      {calls : List Submission} {done : List StorageCompletion} {result : Except StorageError Unit}
      (hrest : InOrder request capability plan calls done result) :
      InOrder request capability ((block, lba.toNat) :: plan)
        ({ request, capability, block, logicalBlock := lba, answer := .ok c } :: calls) (c :: done) result

/-- When everything succeeds, there is one completion a block. -/
theorem InOrder.length_done {request : Request} {capability : StorageCapability}
    {plan : List (DmaBlockLease × Nat)} {calls : List Submission} {done : List StorageCompletion}
    {result : Except StorageError Unit} (h : InOrder request capability plan calls done result) :
    done.length ≤ plan.length ∧ (result = .ok () → done.length = plan.length) := by
  induction h with
  | finished => exact ⟨Nat.le_refl _, fun _ => rfl⟩
  | refused => exact ⟨Nat.zero_le _, fun h => nomatch h⟩
  | next _ ih =>
      simp only [List.length_cons]
      exact ⟨by omega, fun h => by have := ih.2 h; omega⟩

/-- **The loop, while the addresses fit.** `front` holds the completions of the blocks before `index`. -/
theorem transferLoop_spec (blocks : List DmaBlockLease) (front back : List StorageCompletion)
    (r : Recorder B) (hfit : first.toNat + (front.length + blocks.length) ≤ 2 ^ 64)
    (hroom : blocks.length ≤ back.length) :
    ∃ calls done,
      (transferLoop request capability first front.length blocks (front ++ back) r).2.2.log = r.log ++ calls ∧
      (transferLoop request capability first front.length blocks (front ++ back) r).2.1
        = front ++ done ++ back.drop done.length ∧
      InOrder request capability (blocks.zipIdx (first.toNat + front.length)) calls done
        (transferLoop request capability first front.length blocks (front ++ back) r).1 := by
  induction blocks generalizing front back r with
  | nil => exact ⟨[], [], by simp [transferLoop], by simp [transferLoop], .finished⟩
  | cons block blocks ih =>
      rw [List.length_cons] at hfit hroom
      -- the address of this block fits, so the check passes and yields it
      have hindex : (BitVec.ofNat 64 front.length).toNat = front.length := by
        rw [BitVec.toNat_ofNat, Nat.mod_eq_of_lt (by omega)]
      obtain ⟨lba, ha⟩ : ∃ lba, checkedAdd first (BitVec.ofNat 64 front.length) = some lba :=
        ⟨_, checkedAdd_of_lt (by rw [hindex]; omega)⟩
      have hlba : lba.toNat = first.toNat + front.length := by
        rw [checkedAdd_eq_some.mp ha, hindex]
      rw [List.zipIdx_cons, ← hlba]
      rcases hs : submit request r.backend capability block lba with ⟨fault | completion, backend⟩
      · rw [transferLoop_refused ha (submit_recorder hs)]
        exact ⟨_, [], rfl, by simp, .refused⟩
      · -- the completion closes the front, and the rest of the record goes behind it
        obtain ⟨c, back, rfl⟩ := List.exists_cons_of_length_pos (show 0 < back.length by omega)
        rw [List.length_cons] at hroom
        rw [transferLoop_next ha (submit_recorder hs), List.set_append_right _ _ (Nat.le_refl _),
          Nat.sub_self, List.set_cons_zero, List.append_cons]
        have hlen : front.length + 1 = (front ++ [completion]).length := by simp
        rw [hlen]
        let call : Submission :=
          { request, capability, block, logicalBlock := lba, answer := .ok completion }
        obtain ⟨calls, done, hlog, hdone, horder⟩ := ih (front ++ [completion]) back (r.keep backend call)
          (by rw [← hlen]; omega) (by omega)
        refine ⟨call :: calls, completion :: done, ?_, ?_, ?_⟩
        · rw [hlog]
          exact List.append_assoc _ _ _
        · rw [hdone]; simp
        · have hnext : first.toNat + (front ++ [completion]).length = lba.toNat + 1 := by
            rw [← hlen, hlba, Nat.add_assoc]
          rw [hnext] at horder
          exact horder.next

/-! ## Refused records -/

/-- The record is refused for its length. -/
def LengthRefused (blocks : List DmaBlockLease) (completions : List StorageCompletion) : Prop :=
  blocks = [] ∨ maximumRecordBlocks < blocks.length ∨ completions.length < blocks.length

/-- Some block of the record would lie past the last logical address. -/
def RunsPastEnd (first : U64) (blocks : List DmaBlockLease) : Prop :=
  ∃ p ∈ blocks.zipIdx first.toNat, 2 ^ 64 ≤ p.2

theorem runsPastEnd_iff {first : U64} {blocks : List DmaBlockLease} (h : blocks ≠ []) :
    RunsPastEnd first blocks ↔ 2 ^ 64 ≤ first.toNat + (blocks.length - 1) := by
  have hpos : 0 < blocks.length := List.length_pos_iff.mpr h
  constructor
  · rintro ⟨⟨block, lba⟩, hmem, hlba⟩
    obtain ⟨-, hlt, -⟩ := List.mem_zipIdx hmem
    have hlba : 2 ^ 64 ≤ lba := hlba
    omega
  · intro hlast
    refine ⟨(blocks[blocks.length - 1], first.toNat + (blocks.length - 1)), ?_, hlast⟩
    rw [List.mk_add_mem_zipIdx_iff_getElem?]
    exact List.getElem?_eq_getElem _

namespace AkashicDrive

variable {request : Request} {first : U64} {drive : AkashicDrive B} {blocks : List DmaBlockLease}
  {completions : List StorageCompletion}

/-- The calls the backend has received. -/
def received (drive : AkashicDrive (Recorder B)) : List Submission := drive.backend.log

/-- **What a transfer should do**, given how it ended and the calls the backend received. A record that is
    refused, for its length or for an address past the end, leaves the buffer and the drive alone and reaches no
    backend; any other is submitted in order up to the first refusal of the backend, and its completions fill the
    front of the buffer. -/
structure Meets (request : Request) (drive : AkashicDrive B) (first : U64) (blocks : List DmaBlockLease)
    (completions : List StorageCompletion) (run : Transfer B) (calls : List Submission) : Prop where
  refuses : LengthRefused blocks completions ∨ RunsPastEnd first blocks →
    run = ⟨.error .invalidRecord, completions, drive⟩ ∧ calls = []
  submits : ¬ (LengthRefused blocks completions ∨ RunsPastEnd first blocks) →
    ∃ result done, InOrder request drive.capability (blocks.zipIdx first.toNat) calls done result ∧
      run.result = result.map (fun _ => blocks.length) ∧
      run.completions = done ++ completions.drop done.length ∧
      (result = .ok () → done.length = blocks.length)

theorem transfer_lengthRefused (h : LengthRefused blocks completions) :
    drive.transfer request first blocks completions = ⟨.error .invalidRecord, completions, drive⟩ := by
  unfold LengthRefused at h
  rw [transfer, if_pos h]

/-- Past the length check a transfer is its loop. -/
theorem transfer_loop (h : ¬ LengthRefused blocks completions) :
    drive.transfer request first blocks completions
      = { result := (transferLoop request drive.capability first 0 blocks completions drive.backend).1.map
            fun _ => blocks.length
          completions := (transferLoop request drive.capability first 0 blocks completions drive.backend).2.1
          drive := { drive with
            backend := (transferLoop request drive.capability first 0 blocks completions drive.backend).2.2 } } := by
  unfold LengthRefused at h
  rw [transfer, if_neg h]

theorem received_loop (h : ¬ LengthRefused blocks completions) :
    (drive.observed.transfer request first blocks completions).drive.received
      = (transferLoop request drive.capability first 0 blocks completions drive.observed.backend).2.2.log := by
  rw [transfer_loop h]
  rfl

/-- **A record of acceptable length always reaches the backend**: its first block is submitted before any other
    address is looked at. -/
theorem received_ne_nil (h : ¬ LengthRefused blocks completions) :
    (drive.observed.transfer request first blocks completions).drive.received ≠ [] := by
  rw [received_loop h]
  obtain ⟨block, blocks, rfl⟩ := List.exists_cons_of_ne_nil (fun hnil => h (Or.inl hnil))
  have ha : checkedAdd first (BitVec.ofNat 64 0) = some first := by
    rw [checkedAdd_eq_some]
    rfl
  rcases hs : submit request drive.observed.backend.backend drive.capability block first
    with ⟨fault | completion, backend⟩
  · rw [transferLoop_refused ha (submit_recorder hs)]
    exact List.append_ne_nil_of_right_ne_nil _ (List.cons_ne_nil _ _)
  · rw [transferLoop_next ha (submit_recorder hs)]
    have hgrow := log_prefix_transferLoop request drive.capability first blocks 1
      (completions.set 0 completion) (drive.observed.backend.keep backend
        { request, capability := drive.capability, block, logicalBlock := first, answer := .ok completion })
    intro hnil
    rw [hnil] at hgrow
    exact List.append_ne_nil_of_right_ne_nil _ (List.cons_ne_nil _ _) (List.prefix_nil.mp hgrow)

/-- A record that fits is submitted in order. -/
theorem transfer_submits (hlen : ¬ LengthRefused blocks completions)
    (hfit : first.toNat + (blocks.length - 1) < 2 ^ 64) :
    ∃ result done, InOrder request drive.capability (blocks.zipIdx first.toNat)
        (drive.observed.transfer request first blocks completions).drive.received done result ∧
      (drive.transfer request first blocks completions).result = result.map (fun _ => blocks.length) ∧
      (drive.transfer request first blocks completions).completions = done ++ completions.drop done.length ∧
      (result = .ok () → done.length = blocks.length) := by
  have hpos : 0 < blocks.length := List.length_pos_iff.mpr fun hnil => hlen (Or.inl hnil)
  have hroom : blocks.length ≤ completions.length := by
    by_contra hshort
    exact hlen (Or.inr (Or.inr (Nat.lt_of_not_le hshort)))
  obtain ⟨calls, done, hlog, hdone, horder⟩ := transferLoop_spec request drive.capability first blocks []
    completions drive.observed.backend (by simp only [List.length_nil]; omega) hroom
  simp only [List.length_nil, List.nil_append, Nat.add_zero] at hlog hdone horder
  -- the drive itself runs as the observed one does
  have hplain : transferLoop request drive.capability first 0 blocks completions drive.backend = _ :=
    transferLoop_recorder request drive.capability first blocks 0 completions drive.observed.backend
  refine ⟨(transferLoop request drive.capability first 0 blocks completions drive.observed.backend).1, done,
    ?_, ?_, ?_, ?_⟩
  · rw [received_loop hlen, hlog]
    exact horder
  · rw [transfer_loop hlen, hplain]
  · rw [transfer_loop hlen, hplain]
    exact hdone
  · intro hend
    rw [horder.length_done.2 hend, List.length_zipIdx]

theorem transfer_meets_iff (request : Request) (drive : AkashicDrive B) (first : U64)
    (blocks : List DmaBlockLease) (completions : List StorageCompletion) :
    Meets request drive first blocks completions (drive.transfer request first blocks completions)
        (drive.observed.transfer request first blocks completions).drive.received ↔
      LengthRefused blocks completions ∨ first.toNat + (blocks.length - 1) < 2 ^ 64 := by
  by_cases hlen : LengthRefused blocks completions
  · refine ⟨fun _ => Or.inl hlen, fun _ => ⟨?_, fun hok => absurd (Or.inl hlen) hok⟩⟩
    intro _
    refine ⟨transfer_lengthRefused hlen, ?_⟩
    rw [transfer_lengthRefused hlen]
    rfl
  · have hend : RunsPastEnd first blocks ↔ 2 ^ 64 ≤ first.toNat + (blocks.length - 1) :=
      runsPastEnd_iff fun hnil => hlen (Or.inl hnil)
    constructor
    · intro hm
      right
      by_contra hpast
      have hruns := hend.mpr (Nat.le_of_not_lt hpast)
      exact received_ne_nil hlen (hm.refuses (Or.inr hruns)).2
    · intro hcond
      have hfit := hcond.resolve_left hlen
      refine ⟨?_, fun _ => transfer_submits hlen hfit⟩
      rintro (h | hruns)
      · exact absurd h hlen
      · have hpast := hend.mp hruns
        omega

/-- **Records and the end of the address range.** For every backend, `inscribe_hologram` and `recall_hologram`
    do what they should exactly when the record is refused for its length or its last block has an address. -/
theorem hologram_transfers_iff (drive : AkashicDrive B) (first : U64) (blocks : List DmaBlockLease)
    (completions : List StorageCompletion) :
    (Meets .write drive first blocks completions (drive.inscribeHologram first blocks completions)
        (drive.observed.inscribeHologram first blocks completions).drive.received ↔
      LengthRefused blocks completions ∨ first.toNat + (blocks.length - 1) < 2 ^ 64) ∧
    (Meets .read drive first blocks completions (drive.recallHologram first blocks completions)
        (drive.observed.recallHologram first blocks completions).drive.received ↔
      LengthRefused blocks completions ∨ first.toNat + (blocks.length - 1) < 2 ^ 64) :=
  ⟨transfer_meets_iff .write drive first blocks completions,
    transfer_meets_iff .read drive first blocks completions⟩

end AkashicDrive

end

/-! ### A torn record

The backend of the source's tests answers every request with its address. -/

structure EchoBackend where

instance : NvmeBackend EchoBackend where
  submitWrite backend _ _ logicalBlock := (.ok { token := logicalBlock }, backend)
  submitRead backend _ _ logicalBlock := (.ok { token := logicalBlock }, backend)

def echoDrive : AkashicDrive EchoBackend where
  capability := { raw := 1, raw_ne_zero := by decide }
  backend := {}

def sampleLease : DmaBlockLease where
  raw := 2
  generation := 1
  raw_ne_zero := by decide
  generation_ne_zero := by decide

/-- **A refused record has been written in part.** Two blocks from the last address on: the call returns
    `InvalidRecord` with the first block submitted and its completion in the buffer. -/
theorem refused_record_is_torn :
    RunsPastEnd 0xffffffffffffffff [sampleLease, sampleLease] ∧
    (echoDrive.inscribeHologram 0xffffffffffffffff [sampleLease, sampleLease] [⟨0⟩, ⟨0⟩]).result
      = .error .invalidRecord ∧
    (echoDrive.inscribeHologram 0xffffffffffffffff [sampleLease, sampleLease] [⟨0⟩, ⟨0⟩]).completions
      = [⟨0xffffffffffffffff⟩, ⟨0⟩] ∧
    ((echoDrive.observed.inscribeHologram 0xffffffffffffffff [sampleLease, sampleLease]
      [⟨0⟩, ⟨0⟩]).drive.received.map (·.logicalBlock)) = [0xffffffffffffffff] := by
  refine ⟨⟨(sampleLease, 2 ^ 64), ?_, Nat.le_refl _⟩, by decide, by decide, by decide⟩
  decide

end Slope.Storage
