import Slope.Lib.Field
import Slope.Kairos.Affinity
import Slope.Kairos.Query
import Slope.Env.Snapshot

/-!
# `Kairos.Boot` — from the entry stack to a running process

`ProcessRuntime::initialize` negotiates the ABI, queries the topology, and derives from it where the process
should run and how its work is divided. `Env.Stack` has its part that reads the stack, over a `KairosApi`;
here that interface is the real one. The kernel is a parameter: it answers the negotiation and the query as it
likes, and the process comes up exactly when the answers pass every check on the way.

The boot record holds its topology by reference. So a process that came up is the record together with the query
slot behind that reference, and what is derived from the topology is read through it.
-/

namespace Slope.Kairos

open Slope Sync TopologySnapshot Word

/-! ## The ABI negotiation -/

/-- The constants of the external crates that the code below uses. -/
structure AbiConstants where
  abiMagic : U64
  abiVersion : U64
  requestSize : U16
  abiKindNative : U8
  syscallBasic : U64
  smp : U32

structure AbiRequest where
  magic : U64
  version : U64
  structureSize : U16
  endian : U8
  wordBits : U8
  pointerBits : U8
  abiKind : U8
  pageSize : U32
  syscallStyle : U8
  objectBits : U8
  featuresLoReq : U64
  featuresHiReq : U64
  featuresLoOpt : U64
  featuresHiOpt : U64
deriving DecidableEq

structure AbiReply where
  status : U64
  featuresLoGranted : U64
  featuresHiGranted : U64
  featuresLoUnavailable : U64
  featuresHiUnavailable : U64
deriving DecidableEq

structure NegotiatedFeatures where
  grantedLo : U64
  grantedHi : U64
  unavailableLo : U64
  unavailableHi : U64
deriving DecidableEq

inductive AbiError where
  | syscall (e : SyscallError)
  | invalidReply
  | requiredFeatureMissing (missingLo missingHi : U64)
deriving DecidableEq

structure AbiNegotiator where
  requiredLo : U64
  requiredHi : U64
  optionalLo : U64
  optionalHi : U64
  abiKind : U8
deriving DecidableEq

namespace AbiNegotiator

def native (c : AbiConstants) : AbiNegotiator where
  requiredLo := c.syscallBasic
  requiredHi := 0
  optionalLo := 0
  optionalHi := 0
  abiKind := c.abiKindNative

def require (n : AbiNegotiator) (feature : U64) : AbiNegotiator :=
  { n with requiredLo := n.requiredLo ||| feature }

def want (n : AbiNegotiator) (feature : U64) : AbiNegotiator :=
  { n with optionalLo := n.optionalLo ||| feature }

/-- The request on the little-endian 64-bit target. -/
def request (c : AbiConstants) (n : AbiNegotiator) : AbiRequest where
  magic := c.abiMagic
  version := c.abiVersion
  structureSize := c.requestSize
  endian := 1
  wordBits := 64
  pointerBits := 64
  abiKind := n.abiKind
  pageSize := 4096
  syscallStyle := 1
  objectBits := 64
  featuresLoReq := n.requiredLo
  featuresHiReq := n.requiredHi
  featuresLoOpt := n.optionalLo
  featuresHiOpt := n.optionalHi

/-- The checks on the kernel's reply, in their order. -/
def settle (n : AbiNegotiator) (reply : AbiReply) : Except AbiError NegotiatedFeatures :=
  if reply.status ≠ 0
      ∨ reply.featuresLoGranted &&& ~~~(n.requiredLo ||| n.optionalLo) ≠ 0
      ∨ reply.featuresHiGranted &&& ~~~(n.requiredHi ||| n.optionalHi) ≠ 0 then .error .invalidReply
  else
    let missingLo := n.requiredLo &&& ~~~reply.featuresLoGranted
    let missingHi := n.requiredHi &&& ~~~reply.featuresHiGranted
    if missingLo ≠ 0 ∨ missingHi ≠ 0 then .error (.requiredFeatureMissing missingLo missingHi)
    else
      .ok
        { grantedLo := reply.featuresLoGranted
          grantedHi := reply.featuresHiGranted
          unavailableLo := reply.featuresLoUnavailable
          unavailableHi := reply.featuresHiUnavailable }

/-- `abi` is the kernel: the word in `rax`, and the reply record after the call. -/
def negotiate (c : AbiConstants) (abi : AbiRequest → U64 × AbiReply) (n : AbiNegotiator) :
    Except AbiError NegotiatedFeatures :=
  let (rax, reply) := abi (n.request c)
  match syscallResult rax with
  | .error e => .error (.syscall e)
  | .ok _ => n.settle reply

end AbiNegotiator

/-! ## The boot sequence -/

variable {nc nd nm : Nat}

/-- `TopologySnapshot::query_ref` of a process with a single thread, with the slot it leaves. -/
def queryRef (slot : SpookyCell (QuerySlot nc nd nm)) (a : KernelAnswer nc nd nm) :
    QueryReply nc nd nm × SpookyCell (QuerySlot nc nd nm) :=
  match slot.tryMutate () fun data _ =>
      let (reply, data) := (QueryCall.queryRef.operation a).apply data
      (reply, data, ()) with
  | (.ok reply, slot, _) => (reply, slot)
  | (.error .busy, slot, _) => (.error (.failed .busy), slot)

inductive KairosBootError where
  | abi (e : AbiError)
  | topology (e : KairosError)
deriving DecidableEq

structure KairosInit (nc nd nm : Nat) where
  topology : QueryValue nc nd nm
  features : NegotiatedFeatures

/-- The kernel's side of the boot. -/
structure BootKernel (nc nd nm : Nat) where
  abi : AbiRequest → U64 × AbiReply
  topology : KernelAnswer nc nd nm

namespace KairosInit

variable (c : AbiConstants) (kernel : BootKernel nc nd nm) (slot : SpookyCell (QuerySlot nc nd nm))

def runWith (negotiator : AbiNegotiator) (requiredFeatures optionalFeatures : U64) :
    Except (Fault KairosBootError) (KairosInit nc nd nm) × SpookyCell (QuerySlot nc nd nm) :=
  match ((negotiator.require requiredFeatures).want optionalFeatures).negotiate c kernel.abi with
  | .error e => (.error (.failed (.abi e)), slot)
  | .ok features =>
    match queryRef slot kernel.topology with
    | (.error (.failed e), slot) => (.error (.failed (.topology e)), slot)
    | (.error .outOfRange, slot) => (.error .outOfRange, slot)
    | (.ok topology, slot) => (.ok { topology, features }, slot)

def run (requiredFeatures optionalFeatures : U64) :
    Except (Fault KairosBootError) (KairosInit nc nd nm) × SpookyCell (QuerySlot nc nd nm) :=
  runWith c kernel slot (.native c) requiredFeatures optionalFeatures

end KairosInit

/-- A boot record, and the query slot of its process. -/
structure Booted (nc nd nm : Nat) where
  init : KairosInit nc nd nm
  slot : SpookyCell (QuerySlot nc nd nm)

/-- What a boot leaves, as one value when it succeeds. -/
def Booted.ofRun : Except (Fault KairosBootError) (KairosInit nc nd nm) × SpookyCell (QuerySlot nc nd nm) →
    Except (Fault KairosBootError) (Booted nc nd nm)
  | (.error e, _) => .error e
  | (.ok init, slot) => .ok { init, slot }

/-- What the topology reference of the record shows; there is nothing to show in storage never written. -/
def Booted.topology (b : Booted nc nd nm) : Option (TopologySnapshot nc nd nm) :=
  b.init.topology.shows b.slot.data.storage

/-- What `ProcessRuntime` uses of this module. A panic of a derived value shows as its `Fault`. -/
def kairosApi (c : AbiConstants) (kernel : BootKernel nc nd nm) (slot : SpookyCell (QuerySlot nc nd nm)) :
    Env.KairosApi where
  BootError := Fault KairosBootError
  Init := Booted nc nd nm
  Workload := WorkloadClass
  Affinity := Option (Except (Fault Empty) CpuAffinityHint)
  Partition := Option (Arith (WorkPartition nd))
  run requiredFeatures optionalFeatures :=
    Booted.ofRun (KairosInit.run c kernel slot requiredFeatures optionalFeatures)
  computeAffinity booted workload := booted.topology.map fun topology => topology.computeAffinity c.smp workload
  partitionWork booted total := booted.topology.map fun topology => topology.partitionWork total

/-! ## What a negotiation accepts -/

namespace AbiNegotiator

variable {n : AbiNegotiator} {reply : AbiReply}

/-- The reply grants what is required, nothing that was not asked for, and reports no failure. -/
structure Grants (n : AbiNegotiator) (reply : AbiReply) : Prop where
  status : reply.status = 0
  asked_lo : Within reply.featuresLoGranted (n.requiredLo ||| n.optionalLo)
  asked_hi : Within reply.featuresHiGranted (n.requiredHi ||| n.optionalHi)
  required_lo : Within n.requiredLo reply.featuresLoGranted
  required_hi : Within n.requiredHi reply.featuresHiGranted

theorem settle_ok {features : NegotiatedFeatures} :
    n.settle reply = .ok features ↔ n.Grants reply ∧
      features = ⟨reply.featuresLoGranted, reply.featuresHiGranted, reply.featuresLoUnavailable,
        reply.featuresHiUnavailable⟩ := by
  unfold settle
  dsimp only
  split
  next hbad =>
    refine ⟨fun h => (by cases h), fun ⟨hgrants, _⟩ => ?_⟩
    rcases hbad with hstatus | hlo | hhi
    · exact absurd hgrants.status hstatus
    · exact absurd (and_not_eq_zero.mpr hgrants.asked_lo) hlo
    · exact absurd (and_not_eq_zero.mpr hgrants.asked_hi) hhi
  next hgood =>
    obtain ⟨hstatus, hlo, hhi⟩ : reply.status = 0 ∧
        reply.featuresLoGranted &&& ~~~(n.requiredLo ||| n.optionalLo) = 0 ∧
        reply.featuresHiGranted &&& ~~~(n.requiredHi ||| n.optionalHi) = 0 := by
      simpa only [ne_eq, not_or, not_not] using hgood
    split
    next hmissing =>
      refine ⟨fun h => (by cases h), fun ⟨hgrants, _⟩ => ?_⟩
      rcases hmissing with hmiss | hmiss
      · exact absurd (and_not_eq_zero.mpr hgrants.required_lo) hmiss
      · exact absurd (and_not_eq_zero.mpr hgrants.required_hi) hmiss
    next hmet =>
      obtain ⟨hmetlo, hmethi⟩ : n.requiredLo &&& ~~~reply.featuresLoGranted = 0 ∧
          n.requiredHi &&& ~~~reply.featuresHiGranted = 0 := by
        simpa only [ne_eq, not_or, not_not] using hmet
      have hgrants : n.Grants reply :=
        ⟨hstatus, and_not_eq_zero.mp hlo, and_not_eq_zero.mp hhi, and_not_eq_zero.mp hmetlo,
          and_not_eq_zero.mp hmethi⟩
      exact ⟨fun h => ⟨hgrants, (Except.ok.inj h).symm⟩, fun h => by rw [h.2]⟩

theorem negotiate_ok {c : AbiConstants} {abi : AbiRequest → U64 × AbiReply} {features : NegotiatedFeatures} :
    n.negotiate c abi = .ok features ↔ (∃ r, syscallResult (abi (n.request c)).1 = .ok r) ∧
      n.settle (abi (n.request c)).2 = .ok features := by
  unfold negotiate
  obtain ⟨rax, reply⟩ := abi (n.request c)
  dsimp only
  cases syscallResult rax with
  | error e => exact ⟨fun h => (by cases h), fun ⟨⟨r, hr⟩, _⟩ => by cases hr⟩
  | ok r => exact ⟨fun h => ⟨⟨r, rfl⟩, h⟩, fun h => h.2⟩

end AbiNegotiator

/-! ## What a boot accepts -/

theorem outcome_ok {a : KernelAnswer nc nd nm} {reply : RawTopologyReply nc nd nm} {s : TopologySnapshot nc nd nm} :
    a.outcome reply = .ok s ↔ (∃ r, syscallResult a.rax = .ok r) ∧ WellFormedReply (a.overlay reply) ∧
      s = decodedReply (a.overlay reply) := by
  unfold KernelAnswer.outcome
  cases hres : syscallResult a.rax with
  | error e => exact ⟨fun h => (by cases h), fun ⟨⟨r, hr⟩, _⟩ => by cases hr⟩
  | ok r => exact ⟨fun h => ⟨⟨r, rfl⟩, fromRaw_ok.mp h⟩, fun h => fromRaw_ok.mpr h.2⟩

/-- A query of a process with one thread finds the slot free, or is refused. -/
theorem queryRef_eq (slot : SpookyCell (QuerySlot nc nd nm)) (a : KernelAnswer nc nd nm) :
    queryRef slot a =
      if slot.locked then (.error (.failed .busy), slot)
      else ((a.outcome slot.data.reply).map QueryCall.queryRef.value,
        ⟨false, a.overlay slot.data.reply,
          QueryCall.queryRef.stored (a.outcome slot.data.reply) slot.data.storage⟩) := by
  unfold queryRef SpookyCell.tryMutate
  cases slot.locked with
  | true => rfl
  | false => simp [QueryCall.operation_apply]

/-- A reference is returned exactly when the slot is free and the kernel's answer is well formed, and then the
    snapshot is behind it. -/
theorem queryRef_ok {slot slot' : SpookyCell (QuerySlot nc nd nm)} {a : KernelAnswer nc nd nm}
    {v : QueryValue nc nd nm} :
    queryRef slot a = (.ok v, slot') ↔ slot.locked = false ∧ (∃ r, syscallResult a.rax = .ok r) ∧
      WellFormedReply (a.overlay slot.data.reply) ∧ v = .reference ∧
      slot' = ⟨false, a.overlay slot.data.reply, some (decodedReply (a.overlay slot.data.reply))⟩ := by
  rw [queryRef_eq]
  cases slot.locked with
  | true =>
      constructor
      · intro h
        cases h
      · rintro ⟨hfree, -⟩
        cases hfree
  | false =>
      cases houtcome : a.outcome slot.data.reply with
      | error e =>
          constructor
          · intro h
            cases h
          · rintro ⟨-, hres, hwf, -⟩
            cases houtcome.symm.trans (outcome_ok.mpr ⟨hres, hwf, rfl⟩)
      | ok s =>
          obtain ⟨hres, hwf, rfl⟩ := outcome_ok.mp houtcome
          constructor
          · intro h
            obtain ⟨hv, hslot⟩ := Prod.mk.inj h
            exact ⟨rfl, hres, hwf, (Except.ok.inj hv).symm, hslot.symm⟩
          · rintro ⟨-, -, -, rfl, rfl⟩
            rfl

theorem queryRef_no_fault (slot : SpookyCell (QuerySlot nc nd nm)) (a : KernelAnswer nc nd nm) :
    (queryRef slot a).1 ≠ .error .outOfRange := by
  rw [queryRef_eq]
  cases slot.locked with
  | true => exact fun h => by cases h
  | false =>
      unfold KernelAnswer.outcome
      cases syscallResult a.rax with
      | error e => exact fun h => by cases h
      | ok r =>
          rcases fromRaw_cases (a.overlay slot.data.reply) with ⟨-, hok⟩ | ⟨-, hbad⟩
          · simp only [hok]
            exact fun h => by cases h
          · simp only [hbad]
            exact fun h => by cases h

/-- **When a process comes up**, as conditions on what the kernel answers. -/
structure Boots (c : AbiConstants) (kernel : BootKernel nc nd nm) (slot : SpookyCell (QuerySlot nc nd nm))
    (n : AbiNegotiator) : Prop where
  negotiated : ∃ r, syscallResult (kernel.abi (n.request c)).1 = .ok r
  grants : n.Grants (kernel.abi (n.request c)).2
  unclaimed : slot.locked = false
  queried : ∃ r, syscallResult kernel.topology.rax = .ok r
  wellFormed : WellFormedReply (kernel.topology.overlay slot.data.reply)

section

variable {c : AbiConstants} {kernel : BootKernel nc nd nm} {slot : SpookyCell (QuerySlot nc nd nm)}
  {n : AbiNegotiator} {required optional : U64}

theorem runWith_ok {init : KairosInit nc nd nm} {slot' : SpookyCell (QuerySlot nc nd nm)} :
    KairosInit.runWith c kernel slot n required optional = (.ok init, slot') ↔
      Boots c kernel slot ((n.require required).want optional) ∧ init.topology = .reference ∧
        slot' = ⟨false, kernel.topology.overlay slot.data.reply,
          some (decodedReply (kernel.topology.overlay slot.data.reply))⟩ ∧
        ((n.require required).want optional).settle
          (kernel.abi (((n.require required).want optional).request c)).2 = .ok init.features := by
  generalize hasked : (n.require required).want optional = asked
  unfold KairosInit.runWith
  rw [hasked]
  constructor
  · intro h
    cases hneg : asked.negotiate c kernel.abi with
    | error e => rw [hneg] at h; cases h
    | ok features =>
        rw [hneg] at h
        rcases hquery : queryRef slot kernel.topology with ⟨e | topology, slot₁⟩
        · rw [hquery] at h; cases e <;> cases h
        · rw [hquery] at h
          cases h
          obtain ⟨hres, hsettle⟩ := AbiNegotiator.negotiate_ok.mp hneg
          obtain ⟨hfree, hqueried, hwf, hreference, hslot⟩ := queryRef_ok.mp hquery
          exact ⟨⟨hres, (AbiNegotiator.settle_ok.mp hsettle).1, hfree, hqueried, hwf⟩, hreference, hslot,
            hsettle⟩
  · rintro ⟨hboots, hreference, hslot, hsettle⟩
    rw [AbiNegotiator.negotiate_ok.mpr ⟨hboots.negotiated, hsettle⟩]
    dsimp only
    rw [queryRef_ok.mpr ⟨hboots.unclaimed, hboots.queried, hboots.wellFormed, hreference, hslot⟩]

theorem runWith_no_fault :
    (KairosInit.runWith c kernel slot n required optional).1 ≠ .error .outOfRange := by
  unfold KairosInit.runWith
  split
  · exact fun h => by cases h
  · split
    · exact fun h => by cases h
    next hquery => exact absurd (congrArg Prod.fst hquery) (queryRef_no_fault slot kernel.topology)
    · exact fun h => by cases h

end

/-! ## Slices that cover the work -/

/-- The slices lie end to end from 0 to `total`. -/
structure Covers (total : Nat) (slices : List WorkSlice) : Prop where
  first : slices.head?.map WorkSlice.start = some 0
  contiguous : ∀ i a b, slices[i]? = some a → slices[i + 1]? = some b → b.start = a.stop
  last : slices.getLast?.map WorkSlice.stop = some total

theorem partition_covers {s : TopologySnapshot nc nd nm} (hs : s.Fits) (hpos : 1 ≤ nd) (hnd : nd ≤ 65535)
    (hnm : nm ≤ 65535) {total : Nat} (htotal : total < 2 ^ 64) :
    ∃ p slices, s.partitionWork total = .ok p ∧ p.iter = .ok slices ∧ Covers total slices := by
  rcases Nat.eq_zero_or_pos (s.weighted.map Prod.snd).sum with hzero | hsum
  · refine ⟨_, [⟨0, 0, total⟩], partitionWork_unweighted hs hpos hnd hnm total hzero, iter_pad hpos, rfl, ?_, rfl⟩
    intro i a b _ hb
    simp at hb
  · have hlen : (endToEnd 0 (sharePairs total s.weighted)).length = s.weighted.length := by
      rw [length_endToEnd, length_sharePairs]
    have hpartition := partitionWork_eq hs hnd hnm htotal hsum
    rw [← hlen] at hpartition
    have hprop : Proportional total s.weighted _ := proportional_endToEnd hsum
    refine ⟨_, _, hpartition, iter_pad ?_, hprop.first, ?_, hprop.last⟩
    · rw [hlen]
      exact (weighted_small s hnd hnm).2.1
    · intro i a b ha hb
      obtain ⟨hi, rfl⟩ := List.getElem?_eq_some_iff.mp ha
      obtain ⟨hi', rfl⟩ := List.getElem?_eq_some_iff.mp hb
      exact hprop.contiguous i hi'

/-! ## The whole start -/

/-- What a process that came up can rely on. -/
structure Ready (c : AbiConstants) (kernel : BootKernel nc nd nm) (slot : SpookyCell (QuerySlot nc nd nm))
    (required optional : U64) (workload : WorkloadClass) (workUnits : Nat)
    (rt : Env.ProcessRuntime (kairosApi c kernel slot)) : Prop where
  required_granted : Within (c.syscallBasic ||| required) rt.kairos.init.features.grantedLo
  granted_asked : Within rt.kairos.init.features.grantedLo (c.syscallBasic ||| required ||| optional)
  granted_hi : rt.kairos.init.features.grantedHi = 0
  topology : ∃ s, rt.kairos.topology = some s ∧ DecodesReply (kernel.topology.overlay slot.data.reply) s
  placed : ∃ hint p slices, rt.affinity = some (.ok hint) ∧ rt.partition = some (.ok p) ∧ p.iter = .ok slices ∧
    Covers workUnits slices ∧
    (hint = .any ∨ workload = .offload ∨ ∃ slice ∈ slices, slice.domainId = hint.domainId)

section

variable {c : AbiConstants} {kernel : BootKernel nc nd nm} {slot : SpookyCell (QuerySlot nc nd nm)}
  {required optional : U64} {mem : Memory} {fuel stackPtr : Nat}

/-- Where the work of an accepted topology goes. -/
theorem placed_of_fromRaw (hnd : nd ≤ 65535) (hnm : nm ≤ 65535) {reply : RawTopologyReply nc nd nm}
    {s : TopologySnapshot nc nd nm} (hs : fromRaw reply = .ok s) (smp : U32) (workload : WorkloadClass)
    {workUnits : Nat} (hunits : workUnits < 2 ^ 64) :
    ∃ hint p slices, s.computeAffinity (ε := Empty) smp workload = .ok hint ∧ s.partitionWork workUnits = .ok p ∧
      p.iter = .ok slices ∧ Covers workUnits slices ∧
      (hint = .any ∨ workload = .offload ∨ ∃ slice ∈ slices, slice.domainId = hint.domainId) := by
  have hfits := fits_of_fromRaw hs
  have hcount := (fromRaw_ok.mp hs).1.domain_count
  obtain ⟨p, slices, hp, hiter, hcovers⟩ := partition_covers hfits (hcount.1.trans hcount.2) hnd hnm hunits
  cases hkind : preferred workload with
  | none =>
      refine ⟨.any, p, slices, ?_, hp, hiter, hcovers, .inl rfl⟩
      rw [computeAffinity, hkind]
      rfl
  | some kind =>
      rw [computeAffinity_eq hfits hkind]
      cases hfind : s.domainList.find? fun d => decide (Considered workload d ∧ s.Serves kind d) with
      | none => exact ⟨.any, p, slices, rfl, hp, hiter, hcovers, .inl rfl⟩
      | some d =>
          obtain ⟨hcons, hserves⟩ : Considered workload d ∧ s.Serves kind d := by
            simpa using List.find?_some hfind
          refine ⟨_, p, slices, rfl, hp, hiter, hcovers, .inr ?_⟩
          rcases hcons with hoff | hnuma
          · exact .inl hoff
          · obtain ⟨p', slices', hp', hiter', hslice⟩ := slice_of_enabled hfits hnd hnm hunits
              (List.mem_of_find?_eq_some hfind) hnuma (enabledMembers_pos hserves)
            obtain rfl := Except.ok.inj (hp.symm.trans hp')
            obtain rfl := Except.ok.inj (hiter.symm.trans hiter')
            exact .inr hslice

/-- A boot that succeeded leaves a process that is ready. -/
theorem ready_of_run (hnd : nd ≤ 65535) (hnm : nm ≤ 65535) (workload : WorkloadClass) {workUnits : Nat}
    (hunits : workUnits < 2 ^ 64) {booted : Booted nc nd nm}
    (hrun : KairosInit.run c kernel slot required optional = (.ok booted.init, booted.slot))
    (argv : Env.QuantumArgv) (environment : Env.EnvSnapshot) :
    Ready c kernel slot required optional workload workUnits
      ⟨argv, environment, booted, (kairosApi c kernel slot).computeAffinity booted workload,
        (kairosApi c kernel slot).partitionWork booted workUnits⟩ := by
  obtain ⟨hboots, hreference, hslot, hsettle⟩ := runWith_ok.mp hrun
  obtain ⟨hgrants, hfeatures⟩ := AbiNegotiator.settle_ok.mp hsettle
  -- the reference shows what the query has just stored
  have hshows : booted.topology = some (decodedReply (kernel.topology.overlay slot.data.reply)) := by
    rw [Booted.topology, hreference, hslot]
    rfl
  refine ⟨?_, ?_, ?_, ⟨_, hshows, decodesReply hboots.wellFormed⟩, ?_⟩
  · rw [hfeatures]
    exact hgrants.required_lo
  · rw [hfeatures]
    have hasked : Within _ (c.syscallBasic ||| required ||| (0#64 ||| optional)) := hgrants.asked_lo
    rwa [BitVec.zero_or] at hasked
  · rw [hfeatures]
    have hasked : Within _ (0#64 ||| 0#64) := hgrants.asked_hi
    rw [BitVec.zero_or] at hasked
    exact within_zero.mp hasked
  · obtain ⟨hint, p, slices, hhint, hp, hplaced⟩ :=
      placed_of_fromRaw hnd hnm (fromRaw_ok.mpr ⟨hboots.wellFormed, rfl⟩) c.smp workload hunits
    refine ⟨hint, p, slices, ?_, ?_, hplaced⟩
    · exact (congrArg (Option.map _) hshows).trans (congrArg some hhint)
    · exact (congrArg (Option.map _) hshows).trans (congrArg some hp)

theorem ofRun_ok {run : Except (Fault KairosBootError) (KairosInit nc nd nm) × SpookyCell (QuerySlot nc nd nm)}
    {booted : Booted nc nd nm} : Booted.ofRun run = .ok booted ↔ run = (.ok booted.init, booted.slot) := by
  obtain ⟨e | init, slot⟩ := run
  · exact ⟨fun h => (by cases h), fun h => (by cases h)⟩
  · constructor
    · intro h
      cases h
      rfl
    · intro h
      cases h
      rfl

/-- The boot as `ProcessRuntime` sees it. -/
theorem kairosApi_run_ok {booted : Booted nc nd nm} :
    (kairosApi c kernel slot).run required optional = .ok booted ↔
      KairosInit.run c kernel slot required optional = (.ok booted.init, booted.slot) := ofRun_ok

theorem kairosApi_run_no_fault : (kairosApi c kernel slot).run required optional ≠ .error Fault.outOfRange := by
  intro hfault
  have hrun : (KairosInit.run c kernel slot required optional).1 ≠ .error .outOfRange := runWith_no_fault
  replace hfault : Booted.ofRun (KairosInit.run c kernel slot required optional) = .error .outOfRange := hfault
  rcases hres : KairosInit.run c kernel slot required optional with ⟨e | init, slot'⟩
  · rw [hres] at hfault hrun
    cases hfault
    exact hrun rfl
  · rw [hres] at hfault
    cases hfault

/-- **A process comes up exactly when the kernel's answers pass every check, and then it is ready.** For every
    kernel, every entry stack whose environment can be read to its end, all features, workloads and amounts of
    work: `initialize` returns a runtime if and only if the negotiation and the query both return, the reply
    grants what is required and nothing that was not asked for, the query slot is free and the topology is well
    formed. The features of the runtime then lie between the required and the requested ones, its topology
    reference shows the kernel's reply decoded field by field, its slices cover the work, and unless the class
    is `Offload` or the hint is `any()`, the domain that the hint names has one of them. No answer of the kernel
    makes it panic. -/
theorem runtime_ready_iff (hnd : nd ≤ 65535) (hnm : nm ≤ 65535) (c : AbiConstants) (kernel : BootKernel nc nd nm)
    (slot : SpookyCell (QuerySlot nc nd nm)) (required optional : U64) (workload : WorkloadClass) {workUnits : Nat}
    (hunits : workUnits < 2 ^ 64) {environment : Env.EnvSnapshot}
    (henv : Env.EnvSnapshot.collapse mem fuel (.fromPtr (Env.QuantumArgv.fromStack mem stackPtr).envpBase)
      = some environment) :
    ∃ result, Env.ProcessRuntime.initializeAt (kairosApi c kernel slot) mem fuel stackPtr required optional
        workload workUnits = some result ∧
      ((∃ rt, result = .ok rt) ↔ Boots c kernel slot (((AbiNegotiator.native c).require required).want optional)) ∧
      (∀ rt, result = .ok rt → rt.environment = environment ∧
        Ready c kernel slot required optional workload workUnits rt) ∧
      result ≠ .error Fault.outOfRange := by
  unfold Env.ProcessRuntime.initializeAt
  simp only [henv, Option.bind_eq_bind, Option.bind_some]
  refine ⟨_, rfl, ?_, ?_, ?_⟩
  · constructor
    · rintro ⟨rt, hrt⟩
      cases hrun : (kairosApi c kernel slot).run required optional with
      | error e => rw [hrun] at hrt; cases hrt
      | ok booted => exact (runWith_ok.mp (kairosApi_run_ok.mp hrun)).1
    · intro hboots
      have hrun : (kairosApi c kernel slot).run required optional = .ok ⟨⟨.reference, _⟩, _⟩ :=
        kairosApi_run_ok.mpr (runWith_ok.mpr
          ⟨hboots, rfl, rfl, AbiNegotiator.settle_ok.mpr ⟨hboots.grants, rfl⟩⟩)
      exact ⟨_, congrArg (Except.map _) hrun⟩
  · intro rt hrt
    cases hrun : (kairosApi c kernel slot).run required optional with
    | error e => rw [hrun] at hrt; cases hrt
    | ok booted =>
        rw [hrun] at hrt
        cases hrt
        exact ⟨rfl, ready_of_run hnd hnm workload hunits (kairosApi_run_ok.mp hrun) _ environment⟩
  · intro hfault
    cases hrun : (kairosApi c kernel slot).run required optional with
    | error e =>
        rw [hrun] at hfault
        cases hfault
        exact kairosApi_run_no_fault hrun
    | ok booted => rw [hrun] at hfault; cases hfault

end

/-- Constants for the sample boot. -/
def sampleConstants : AbiConstants := ⟨0, 1, 72, 0, 1, 1⟩

/-- A kernel that grants what is required and sends the sample topology. -/
def sampleKernel : BootKernel 2 2 2 :=
  ⟨fun r => (0, ⟨0, r.featuresLoReq, r.featuresHiReq, 0, 0⟩), sampleAnswer 3⟩

theorem boots_sample :
    Boots sampleConstants sampleKernel (.new sampleSlot)
      (((AbiNegotiator.native sampleConstants).require 4).want 8) where
  negotiated := ⟨0, rfl⟩
  grants := ⟨rfl, and_not_eq_zero.mp (by decide), and_not_eq_zero.mp (by decide), fun _ h => h, fun _ h => h⟩
  unclaimed := rfl
  queried := ⟨0, rfl⟩
  wellFormed := (fromRaw_ok.mp fromRaw_sampleReply).1

/-- A process with one argument and four environment strings comes up on that kernel; three of the strings are
    variables. -/
theorem runtime_ready_sample :
    ∃ rt, Env.ProcessRuntime.initializeAt (kairosApi sampleConstants sampleKernel (.new sampleSlot))
        (Env.variablesMemory Env.launchWords) 20 0 4 8 WorkloadClass.compute 10 = some (.ok rt) ∧
      rt.environment.live.length = 3 ∧
      Ready sampleConstants sampleKernel (.new sampleSlot) 4 8 .compute 10 rt := by
  obtain ⟨environment, henv, hpairs⟩ := Env.collapse_block Env.launch_block (show _ < 20 by decide) (by decide)
  obtain ⟨result, heq, hiff, hready, -⟩ := runtime_ready_iff (by decide) (by decide) sampleConstants sampleKernel
    (.new sampleSlot) 4 8 .compute (show 10 < 2 ^ 64 by decide)
    (show Env.EnvSnapshot.collapse _ 20 (.fromPtr (Env.QuantumArgv.fromStack _ 0).envpBase) = _ from henv)
  obtain ⟨rt, rfl⟩ := hiff.mpr boots_sample
  obtain ⟨henvironment, hrt⟩ := hready rt rfl
  refine ⟨rt, heq, ?_, hrt⟩
  rw [henvironment, ← List.length_map (Env.EnvEntry.keyValue (Env.variablesMemory Env.launchWords)), hpairs]
  rfl

end Slope.Kairos
