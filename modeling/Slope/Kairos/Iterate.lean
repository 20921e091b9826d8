import Mathlib.Data.List.Range
import Slope.Kairos.Affinity

/-!
# `Kairos.Iterate` — the CPUs of a NUMA domain, by iteration and by lookup

`numa_local_cpus` steps through the CPUs of a snapshot with an index of its own; `numa_domain_of` looks up one
CPU by its logical id. What the first yields and what the second answers are the same relation, because
`from_raw` accepts no topology in which two CPUs share an id.
-/

namespace Slope.Kairos

open Slope TopologySnapshot

variable {nc nd nm : Nat} {ε : Type}

/-- `self.cpus().iter().find(..).map(|cpu| cpu.numa_domain)` -/
def TopologySnapshot.numaDomainOf (s : TopologySnapshot nc nd nm) (logicalCpuId : U16) :
    Except (Fault ε) (Option U16) := do
  let cpus ← s.cpuSlice
  pure ((cpus.find? fun cpu => cpu.logicalId == logicalCpuId).map CpuDescriptor.numaDomain)

structure NucleusCpuIter (nc nd nm : Nat) where
  snapshot : TopologySnapshot nc nd nm
  domainId : U16
  index : Nat

def TopologySnapshot.numaLocalCpus (s : TopologySnapshot nc nd nm) (domainId : U16) : NucleusCpuIter nc nd nm :=
  ⟨s, domainId, 0⟩

namespace NucleusCpuIter

/-- The loop of `next`, at position `i` with `remaining` positions below `cpu_count`: what it yields, and where
    the index stands then. -/
def seek (it : NucleusCpuIter nc nd nm) : Nat → Nat → Except (Fault ε) (Option CpuDescriptor × Nat)
  | 0, i => .ok (none, i)
  | remaining + 1, i => do
    let cpu ← Slope.index it.snapshot.cpus.toList i
    if cpu.enabled && cpu.numaDomain == it.domainId then pure (some cpu, i + 1)
    else it.seek remaining (i + 1)

def next (it : NucleusCpuIter nc nd nm) : Except (Fault ε) (Option CpuDescriptor × NucleusCpuIter nc nd nm) := do
  let (cpu, index) ← it.seek (it.snapshot.cpuCount - it.index) it.index
  pure (cpu, { it with index })

/-- What `n` calls of `next` give, in order. -/
def pull (it : NucleusCpuIter nc nd nm) : Nat → Except (Fault ε) (List (Option CpuDescriptor))
  | 0 => .ok []
  | n + 1 => do
    let (cpu, it) ← it.next
    let rest ← it.pull n
    pure (cpu :: rest)

/-- The CPUs that are still to come. -/
def pending (it : NucleusCpuIter nc nd nm) : List CpuDescriptor :=
  (it.snapshot.cpuList.drop it.index).filter fun cpu => cpu.enabled && cpu.numaDomain == it.domainId

/-- The loop finds the first CPU that is still to come, and leaves the others. -/
theorem seek_eq {it : NucleusCpuIter nc nd nm} (hfit : it.snapshot.cpuCount ≤ nc) (remaining i : Nat)
    (hi : i + remaining = it.snapshot.cpuCount) :
    ∃ j, it.seek (ε := ε) remaining i = .ok ({ it with index := i }.pending.head?, j) ∧
      j ≤ it.snapshot.cpuCount ∧ { it with index := j }.pending = { it with index := i }.pending.tail := by
  induction remaining generalizing i with
  | zero =>
      have hempty : { it with index := i }.pending = [] := by
        have hdrop : it.snapshot.cpuList.drop i = [] := by
          refine List.drop_eq_nil_of_le ?_
          rw [cpuList, List.length_take]
          omega
        rw [pending, hdrop]
        rfl
      refine ⟨i, ?_, by omega, ?_⟩
      · rw [hempty]
        rfl
      · rw [hempty]
        rfl
  | succ remaining ih =>
      have hlt : i < it.snapshot.cpuList.length := by
        rw [cpuList, List.length_take, Vector.length_toList]
        omega
      have hlen : i < it.snapshot.cpus.toList.length := by
        rw [Vector.length_toList]
        omega
      have hcpu : it.snapshot.cpus.toList[i] = it.snapshot.cpuList[i] := by
        simp only [cpuList, List.getElem_take]
      have hpending : { it with index := i }.pending
          = (it.snapshot.cpuList[i] :: it.snapshot.cpuList.drop (i + 1)).filter fun cpu =>
              cpu.enabled && cpu.numaDomain == it.domainId := by
        rw [← List.drop_eq_getElem_cons hlt]
        rfl
      rw [seek, index_eq hlen, hcpu]
      by_cases hmatch : (it.snapshot.cpuList[i].enabled && it.snapshot.cpuList[i].numaDomain == it.domainId) = true
      · rw [List.filter_cons, if_pos hmatch] at hpending
        refine ⟨i + 1, ?_, by omega, ?_⟩
        · rw [hpending]
          show (if _ then _ else _) = _
          rw [if_pos hmatch]
          rfl
        · rw [hpending]
          rfl
      · obtain ⟨j, hseek, hj, htail⟩ := ih (i + 1) (by omega)
        rw [List.filter_cons, if_neg hmatch] at hpending
        have hsame : { it with index := i }.pending = { it with index := i + 1 }.pending := hpending
        refine ⟨j, ?_, hj, htail.trans (by rw [hsame])⟩
        show (if _ then _ else _) = _
        rw [if_neg hmatch, hseek, hsame]

/-- One call of `next`. -/
theorem next_eq {it : NucleusCpuIter nc nd nm} (hfit : it.snapshot.cpuCount ≤ nc)
    (hindex : it.index ≤ it.snapshot.cpuCount) :
    ∃ it', it.next (ε := ε) = .ok (it.pending.head?, it') ∧ it'.snapshot = it.snapshot ∧
      it'.index ≤ it'.snapshot.cpuCount ∧ it'.pending = it.pending.tail := by
  obtain ⟨j, hseek, hj, htail⟩ := seek_eq (ε := ε) hfit (it.snapshot.cpuCount - it.index) it.index (by omega)
  refine ⟨{ it with index := j }, ?_, rfl, hj, htail⟩
  rw [next, hseek]
  rfl

/-- Any number of calls. -/
theorem pull_eq {it : NucleusCpuIter nc nd nm} (hfit : it.snapshot.cpuCount ≤ nc)
    (hindex : it.index ≤ it.snapshot.cpuCount) (n : Nat) :
    it.pull (ε := ε) n = .ok ((List.range n).map fun k => it.pending[k]?) := by
  induction n generalizing it with
  | zero => rfl
  | succ n ih =>
      obtain ⟨it', hnext, hsnap, hindex', htail⟩ := next_eq (ε := ε) hfit hindex
      rw [pull, hnext]
      show (it'.pull n >>= fun rest => pure (it.pending.head? :: rest)) = _
      rw [ih (by rw [hsnap]; exact hfit) hindex', htail, List.range_succ_eq_map, List.map_cons, List.map_map,
        List.head?_eq_getElem?]
      refine congrArg Except.ok (congrArg _ (List.map_congr_left fun k _ => ?_))
      rw [List.getElem?_tail]
      rfl

end NucleusCpuIter

/-- The logical ids of an accepted topology's CPUs tell them apart. -/
theorem TopologySnapshot.cpuList_nodup {reply : RawTopologyReply nc nd nm} {s : TopologySnapshot nc nd nm}
    (hs : fromRaw reply = .ok s) : (s.cpuList.map CpuDescriptor.logicalId).Nodup := by
  obtain ⟨hok, rfl⟩ := fromRaw_ok.mp hs
  have hslice : (decodedReply reply).cpuSlice (ε := Empty) = .ok (decodedReply reply).cpuList :=
    sliceTo_eq (by rw [Vector.length_toList]; exact hok.cpu_count.2)
  rw [cpuSlice_decodedReply hok.cpu_count.2] at hslice
  rw [← Except.ok.inj hslice, List.map_map]
  exact hok.cpus_distinct

/-- Lookup finds a CPU of an accepted topology by its id. -/
theorem TopologySnapshot.numaDomainOf_eq {reply : RawTopologyReply nc nd nm} {s : TopologySnapshot nc nd nm}
    (hs : fromRaw reply = .ok s) {cpu : CpuDescriptor} (hcpu : cpu ∈ s.cpuList) :
    s.numaDomainOf (ε := ε) cpu.logicalId = .ok (some cpu.numaDomain) := by
  have hcpus : s.cpuSlice (ε := ε) = .ok s.cpuList :=
    sliceTo_eq (by rw [Vector.length_toList]; exact (fits_of_fromRaw hs).cpus)
  have hfind : s.cpuList.find? (fun c => c.logicalId == cpu.logicalId) = some cpu := by
    have hsome : (s.cpuList.find? fun c => c.logicalId == cpu.logicalId).isSome :=
      List.find?_isSome.mpr ⟨cpu, hcpu, beq_self_eq_true cpu.logicalId⟩
    obtain ⟨found, hfound⟩ := Option.isSome_iff_exists.mp hsome
    have hid : found.logicalId = cpu.logicalId := by simpa using List.find?_some hfound
    obtain rfl := List.inj_on_of_nodup_map (cpuList_nodup hs) (List.mem_of_find?_eq_some hfound) hcpu hid
    exact hfound
  rw [numaDomainOf, hcpus]
  show Except.ok ((s.cpuList.find? fun c => c.logicalId == cpu.logicalId).map CpuDescriptor.numaDomain) = _
  rw [hfind]
  rfl

/-- **Iteration and lookup agree.** For every topology that `from_raw` accepts, every domain and any number of
    calls of `next`: they give, in order and without leaving one out or giving one twice, the enabled CPUs that
    `numa_domain_of` places in the domain, and then nothing, however often `next` is called again. -/
theorem local_cpus_agree {reply : RawTopologyReply nc nd nm} {s : TopologySnapshot nc nd nm}
    (hs : fromRaw reply = .ok s) (domainId : U16) (n : Nat) :
    ∃ cpus : List CpuDescriptor,
      (s.numaLocalCpus domainId).pull (ε := ε) n = .ok ((List.range n).map fun k => cpus[k]?) ∧
      cpus.Sublist s.cpuList ∧ cpus.Nodup ∧
      ∀ cpu, cpu ∈ cpus ↔ cpu ∈ s.cpuList ∧ cpu.enabled = true ∧
        s.numaDomainOf (ε := ε) cpu.logicalId = .ok (some domainId) := by
  refine ⟨(s.numaLocalCpus domainId).pending, NucleusCpuIter.pull_eq (fits_of_fromRaw hs).cpus (Nat.zero_le _) n, ?_⟩
  have hpending : (s.numaLocalCpus domainId).pending
      = s.cpuList.filter fun cpu => cpu.enabled && cpu.numaDomain == domainId := by
    rw [NucleusCpuIter.pending]
    rfl
  rw [hpending]
  refine ⟨List.filter_sublist, (List.Nodup.of_map _ (cpuList_nodup hs)).filter _, fun cpu => ?_⟩
  rw [List.mem_filter, Bool.and_eq_true, beq_iff_eq]
  refine and_congr_right fun hcpu => and_congr_right fun _ => ?_
  rw [numaDomainOf_eq hs hcpu]
  exact ⟨fun h => by rw [h], fun h => Option.some.inj (Except.ok.inj h)⟩

/-- The sample topology has one enabled CPU in domain 0, and the lookup places it there. -/
theorem local_cpus_sample :
    ((decodedReply sampleReply).numaLocalCpus 0).pull (ε := Empty) 3
        = .ok [some ⟨7, 70, 0, 0, 0, 0, .performance, true⟩, none, none] ∧
      (decodedReply sampleReply).numaDomainOf (ε := Empty) 7 = .ok (some 0) := by
  obtain ⟨cpus, hpull, -, -, hmem⟩ := local_cpus_agree (ε := Empty) fromRaw_sampleReply 0 3
  have heval : ((decodedReply sampleReply).numaLocalCpus 0).pull (ε := Empty) 3
      = .ok [some ⟨7, 70, 0, 0, 0, 0, .performance, true⟩, none, none] := by decide +kernel
  have hfirst : cpus[0]? = some ⟨7, 70, 0, 0, 0, 0, .performance, true⟩ :=
    (List.cons.inj (Except.ok.inj (hpull.symm.trans heval))).1
  exact ⟨heval, ((hmem _).mp (List.mem_of_getElem? hfirst)).2.2⟩

end Slope.Kairos
