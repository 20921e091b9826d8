import Slope.Kairos.Partition

/-!
# `Kairos.Affinity` — where a workload should run

`compute_affinity` walks the domains of a snapshot and stops at the first one that has an enabled CPU of the
kind the workload prefers. Its answer is only worth something together with `partition_work`: the domain that a
compute or I/O workload is sent to should be one that gets a slice of the work.
-/

namespace Slope.Kairos

open Slope

inductive WorkloadClass where
  | compute | io | offload | any
deriving DecidableEq

structure CpuAffinityHint where
  domainId : U16
  preferredKind : CpuKind
  smpEligible : Bool
deriving DecidableEq

def CpuAffinityHint.any : CpuAffinityHint where
  domainId := 0
  preferredKind := .symmetric
  smpEligible := true

variable {nc nd nm : Nat} {ε : Type}

namespace TopologySnapshot

def hasTrait (s : TopologySnapshot nc nd nm) (flag : U32) : Bool := s.traitFlags &&& flag != 0

/-- `smp` is `trait_flags::SMP`, a constant of the external crate. -/
def isSmp (smp : U32) (s : TopologySnapshot nc nd nm) : Bool := s.hasTrait smp

def domainHasEnabledKind (s : TopologySnapshot nc nd nm) (domain : DomainDescriptor nm) (kind : CpuKind) :
    Except (Fault ε) Bool := do
  let members ← domain.memberSlice
  let cpus ← s.cpuSlice
  pure (members.any fun logicalId =>
    cpus.any fun cpu => cpu.logicalId == logicalId && cpu.enabled && cpu.kind == kind)

/-- The loop of `compute_affinity`. -/
def findAffinity (smp : U32) (s : TopologySnapshot nc nd nm) (cls : WorkloadClass) (preferredKind : CpuKind) :
    List (DomainDescriptor nm) → Except (Fault ε) CpuAffinityHint
  | [] => .ok .any
  | domain :: rest => do
    if cls ≠ .offload ∧ domain.kind ≠ .numa then s.findAffinity smp cls preferredKind rest
    else if ← s.domainHasEnabledKind domain preferredKind then
      pure
        { domainId := domain.id
          preferredKind
          smpEligible := cls != .offload && (cls == .io || s.isSmp smp) }
    else s.findAffinity smp cls preferredKind rest

/-- The kind of CPU a workload prefers. -/
def preferred : WorkloadClass → Option CpuKind
  | .compute => some .performance
  | .io => some .efficiency
  | .offload => some .offload
  | .any => none

def computeAffinity (smp : U32) (s : TopologySnapshot nc nd nm) (cls : WorkloadClass) :
    Except (Fault ε) CpuAffinityHint := do
  match preferred cls with
  | none => pure .any
  | some preferredKind =>
    let domains ← s.domainSlice
    s.findAffinity smp cls preferredKind domains

/-! ## The loop in closed form -/

/-- An enabled CPU of the given kind is among the members of the domain. -/
def Serves (s : TopologySnapshot nc nd nm) (kind : CpuKind) (d : DomainDescriptor nm) : Prop :=
  ∃ id ∈ d.members.toList.take d.memberCount, ∃ cpu ∈ s.cpuList,
    cpu.logicalId = id ∧ cpu.enabled = true ∧ cpu.kind = kind

instance (s : TopologySnapshot nc nd nm) (kind : CpuKind) (d : DomainDescriptor nm) : Decidable (s.Serves kind d) :=
  inferInstanceAs (Decidable (∃ id ∈ _, ∃ cpu ∈ _, _))

/-- The loop considers the domain at all. -/
def Considered (cls : WorkloadClass) (d : DomainDescriptor nm) : Prop := cls = .offload ∨ d.kind = .numa

instance (cls : WorkloadClass) (d : DomainDescriptor nm) : Decidable (Considered cls d) :=
  inferInstanceAs (Decidable (_ ∨ _))

/-- The hint for a domain. -/
def hintFor (smp : U32) (s : TopologySnapshot nc nd nm) (cls : WorkloadClass) (kind : CpuKind)
    (d : DomainDescriptor nm) : CpuAffinityHint where
  domainId := d.id
  preferredKind := kind
  smpEligible := cls != .offload && (cls == .io || s.isSmp smp)

theorem domainHasEnabledKind_eq {s : TopologySnapshot nc nd nm} (hs : s.cpuCount ≤ nc) {d : DomainDescriptor nm}
    (hd : d.memberCount ≤ nm) (kind : CpuKind) :
    s.domainHasEnabledKind (ε := ε) d kind = .ok (decide (s.Serves kind d)) := by
  have hmembers : d.memberSlice (ε := ε) = .ok (d.members.toList.take d.memberCount) :=
    sliceTo_eq (by simpa using hd)
  have hcpus : s.cpuSlice (ε := ε) = .ok s.cpuList := sliceTo_eq (by simpa using hs)
  rw [domainHasEnabledKind, hmembers, hcpus]
  refine congrArg Except.ok ?_
  rw [Bool.eq_iff_iff, decide_eq_true_iff]
  simp only [List.any_eq_true, Bool.and_eq_true, beq_iff_eq, and_assoc]
  rfl

/-- The loop stops at the first domain that is considered and serves. -/
theorem findAffinity_eq {smp : U32} {s : TopologySnapshot nc nd nm} (hs : s.cpuCount ≤ nc) (cls : WorkloadClass)
    (kind : CpuKind) {ds : List (DomainDescriptor nm)} (hds : ∀ d ∈ ds, d.memberCount ≤ nm) :
    s.findAffinity (ε := ε) smp cls kind ds
      = .ok (((ds.find? fun d => decide (Considered cls d ∧ s.Serves kind d)).map (s.hintFor smp cls kind)).getD
          .any) := by
  induction ds with
  | nil => rfl
  | cons d ds ih =>
      have hrest := ih fun d' hd' => hds d' (List.mem_cons_of_mem _ hd')
      rw [findAffinity]
      by_cases hskip : cls ≠ .offload ∧ d.kind ≠ .numa
      · have hnot : ¬ (Considered cls d ∧ s.Serves kind d) := by
          rintro ⟨hoff | hnuma, -⟩
          · exact hskip.1 hoff
          · exact hskip.2 hnuma
        rw [if_pos hskip, hrest, List.find?_cons_of_neg (by simpa using hnot)]
      · have hcons : Considered cls d := by
          by_contra hnot
          exact hskip ⟨fun h => hnot (.inl h), fun h => hnot (.inr h)⟩
        rw [if_neg hskip, domainHasEnabledKind_eq hs (hds d List.mem_cons_self)]
        by_cases hserves : s.Serves kind d
        · rw [List.find?_cons_of_pos (by simpa using ⟨hcons, hserves⟩), decide_eq_true hserves]
          rfl
        · rw [List.find?_cons_of_neg (by simpa using fun _ => hserves), decide_eq_false hserves, ← hrest]
          rfl

theorem computeAffinity_eq {smp : U32} {s : TopologySnapshot nc nd nm} (hs : s.Fits) {cls : WorkloadClass}
    {kind : CpuKind} (hkind : preferred cls = some kind) :
    s.computeAffinity (ε := ε) smp cls
      = .ok (((s.domainList.find? fun d => decide (Considered cls d ∧ s.Serves kind d)).map
          (s.hintFor smp cls kind)).getD .any) := by
  have hdomains : s.domainSlice (ε := ε) = .ok s.domainList :=
    sliceTo_eq (by rw [Vector.length_toList]; exact hs.domains)
  rw [computeAffinity, hkind, ← findAffinity_eq hs.cpus cls kind hs.members]
  show (s.domainSlice >>= fun domains => s.findAffinity smp cls kind domains) = _
  rw [hdomains]
  rfl

/-! ## The hint and the work -/

/-- A domain that serves has an enabled member. -/
theorem enabledMembers_pos {s : TopologySnapshot nc nd nm} {kind : CpuKind} {d : DomainDescriptor nm}
    (h : s.Serves kind d) : 0 < s.enabledMembers d := by
  obtain ⟨id, hid, cpu, hcpu, hlogical, henabled, -⟩ := h
  rw [enabledMembers, List.length_pos_iff_exists_mem]
  refine ⟨id, List.mem_filter.mpr ⟨hid, ?_⟩⟩
  rw [List.any_eq_true]
  exact ⟨cpu, hcpu, by simp [hlogical, henabled]⟩

/-- A NUMA domain with an enabled member gets a slice of every total. -/
theorem slice_of_enabled {s : TopologySnapshot nc nd nm} (hs : s.Fits) (hnd : nd ≤ 65535) (hnm : nm ≤ 65535)
    {total : Nat} (htotal : total < 2 ^ 64) {d : DomainDescriptor nm} (hd : d ∈ s.domainList)
    (hnuma : d.kind = .numa) (hpos : 0 < s.enabledMembers d) :
    ∃ p slices, s.partitionWork total = .ok p ∧ p.iter = .ok slices ∧ ∃ slice ∈ slices, slice.domainId = d.id := by
  have hmem : (d.id, s.enabledMembers d) ∈ s.weighted := by
    refine List.mem_filter.mpr ⟨List.mem_map.mpr ⟨d, List.mem_filter.mpr ⟨hd, ?_⟩, rfl⟩, by simpa using hpos⟩
    rw [hnuma]
    rfl
  have hsum : 0 < (s.weighted.map Prod.snd).sum :=
    hpos.trans_le (List.le_sum_of_mem (List.mem_map.mpr ⟨_, hmem, rfl⟩))
  have hlen : (endToEnd 0 (sharePairs total s.weighted)).length = s.weighted.length := by
    rw [length_endToEnd, length_sharePairs]
  have hpartition := partitionWork_eq hs hnd hnm htotal hsum
  rw [← hlen] at hpartition
  refine ⟨_, _, hpartition, iter_pad ?_, ?_⟩
  · rw [hlen]
    exact (weighted_small s hnd hnm).2.1
  · have hid : d.id ∈ (endToEnd 0 (sharePairs total s.weighted)).map WorkSlice.domainId := by
      rw [map_domainId_endToEnd, map_fst_sharePairs]
      exact List.mem_map.mpr ⟨_, hmem, rfl⟩
    obtain ⟨slice, hslice, heq⟩ := List.mem_map.mp hid
    exact ⟨slice, hslice, heq⟩

/-- The ids of an accepted topology's domains tell them apart. -/
theorem domainList_nodup {reply : RawTopologyReply nc nd nm} {s : TopologySnapshot nc nd nm}
    (hs : fromRaw reply = .ok s) : (s.domainList.map DomainDescriptor.id).Nodup := by
  obtain ⟨hok, rfl⟩ := fromRaw_ok.mp hs
  have hslice : (decodedReply reply).domainSlice (ε := Empty) = .ok (decodedReply reply).domainList :=
    sliceTo_eq (by rw [Vector.length_toList]; exact hok.domain_count.2)
  rw [domainSlice_decodedReply hok.domain_count.2] at hslice
  rw [← Except.ok.inj hslice, List.map_map]
  exact hok.domains_distinct

/-- **Work is sent where work is given.** For every topology that `from_raw` accepts, every class and every
    total: `compute_affinity` neither indexes out of range nor answers at random. It names the first domain that
    has an enabled CPU of the preferred kind, among the NUMA domains (among all for offloading), and that
    domain is the only one with the id in the hint; if it is a NUMA domain, `partition_work` gives it a slice;
    and it answers `any()` only for the class `Any` or if there is no such domain. -/
theorem affinity_follows_work (hnd : nd ≤ 65535) (hnm : nm ≤ 65535) {reply : RawTopologyReply nc nd nm}
    {s : TopologySnapshot nc nd nm} (hs : fromRaw reply = .ok s) (smp : U32) (cls : WorkloadClass) {total : Nat}
    (htotal : total < 2 ^ 64) :
    ∃ hint, s.computeAffinity (ε := ε) smp cls = .ok hint ∧
      ((hint = .any ∧ ∀ kind, preferred cls = some kind →
          ∀ d ∈ s.domainList, Considered cls d → ¬ s.Serves kind d) ∨
        ∃ kind before d after, preferred cls = some kind ∧ s.domainList = before ++ d :: after ∧
          (∀ d' ∈ before, Considered cls d' → ¬ s.Serves kind d') ∧ Considered cls d ∧ s.Serves kind d ∧
          hint = s.hintFor smp cls kind d ∧ (∀ d' ∈ s.domainList, d'.id = hint.domainId → d' = d) ∧
          (d.kind = .numa → ∃ p slices, s.partitionWork total = .ok p ∧ p.iter = .ok slices ∧
            ∃ slice ∈ slices, slice.domainId = hint.domainId)) := by
  have hfits := fits_of_fromRaw hs
  cases hkind : preferred cls with
  | none =>
      refine ⟨.any, ?_, .inl ⟨rfl, fun kind hk => by cases hk⟩⟩
      rw [computeAffinity, hkind]
      rfl
  | some kind =>
      rw [computeAffinity_eq hfits hkind]
      cases hfind : s.domainList.find? fun d => decide (Considered cls d ∧ s.Serves kind d) with
      | none =>
          refine ⟨.any, rfl, .inl ⟨rfl, fun kind' hk d hd hcons hserves => ?_⟩⟩
          cases hk
          rw [List.find?_eq_none] at hfind
          exact hfind d hd (by simpa using ⟨hcons, hserves⟩)
      | some d =>
          obtain ⟨hd, before, after, hsplit, hbefore⟩ := List.find?_eq_some_iff_append.mp hfind
          obtain ⟨hcons, hserves⟩ := of_decide_eq_true hd
          have hmem : d ∈ s.domainList := by
            rw [hsplit]
            simp
          refine ⟨_, rfl, .inr ⟨kind, before, d, after, rfl, hsplit, ?_, hcons, hserves, rfl, ?_, ?_⟩⟩
          · intro d' hd' hcons' hserves'
            have hnot := hbefore d' hd'
            simp [hcons', hserves'] at hnot
          · intro d' hd' hid
            exact List.inj_on_of_nodup_map (domainList_nodup hs) hd' hmem hid
          · intro hnuma
            exact slice_of_enabled hfits hnd hnm htotal hmem hnuma (enabledMembers_pos hserves)

theorem fromRaw_sampleReply : fromRaw sampleReply = .ok (decodedReply sampleReply) := by
  rcases fromRaw_cases sampleReply with ⟨-, hok⟩ | ⟨-, hbad⟩
  · exact hok
  · have hgood : (fromRaw sampleReply).toBool = true := by decide +kernel
    rw [hbad] at hgood
    cases hgood

/-- In the sample topology, compute workloads go to domain 1, which gets the work. -/
theorem affinity_sample :
    ∃ hint, (decodedReply sampleReply).computeAffinity (ε := Empty) 1 .compute = .ok hint ∧ hint.domainId = 1 ∧
      ∃ d ∈ (decodedReply sampleReply).domainList, d.id = hint.domainId := by
  obtain ⟨hint, hok, hcases⟩ := affinity_follows_work (ε := Empty) (by decide) (by decide) fromRaw_sampleReply 1
    .compute (show 10 < 2 ^ 64 by decide)
  have heval : (decodedReply sampleReply).computeAffinity (ε := Empty) 1 .compute = .ok ⟨1, .performance, true⟩ := by
    decide +kernel
  obtain rfl : hint = ⟨1, .performance, true⟩ := Except.ok.inj (hok.symm.trans heval)
  refine ⟨_, hok, rfl, ?_⟩
  rcases hcases with ⟨hany, -⟩ | ⟨kind, before, d, after, -, hsplit, -, -, -, hhint, -, -⟩
  · cases hany
  · refine ⟨d, by rw [hsplit]; simp, ?_⟩
    rw [hhint]
    rfl

end TopologySnapshot

end Slope.Kairos
