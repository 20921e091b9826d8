import Slope.Kairos.Decode
import Slope.Lib.Apportion

/-!
# `Kairos.Partition` — dividing work among NUMA domains

`partition_work` gives every NUMA domain a share of the work in proportion to its enabled CPUs. It works in
fixed arrays and machine arithmetic: the weights are gathered, the floors of the shares are computed from the
quotient and the residual of the total so that no product gets too large, the leftover is handed out in domain
order, and the shares are laid end to end.

Each of the four loops has a closed form over padded lists; together they are the apportionment of
`Lib.Apportion`, and no step of them can overflow or leave its array.
-/

namespace Slope.Kairos

open Slope TopologySnapshot

variable {nc nd nm : Nat}

structure WorkSlice where
  domainId : U16
  start : Nat
  stop : Nat
deriving DecidableEq

structure WorkPartition (nd : Nat) where
  slices : Vector (Option WorkSlice) nd
  count : Nat
deriving DecidableEq

namespace WorkPartition

def empty : WorkPartition nd where
  slices := Vector.replicate nd none
  count := 0

/-- The slices that `iter()` yields. -/
def iter (p : WorkPartition nd) : Except (Fault Overflow) (List WorkSlice) := do
  let live ← sliceTo p.slices.toList p.count
  pure (live.filterMap id)

end WorkPartition

/-! ## `partition_work` -/

abbrev Arith (α : Type) := Except (Fault Overflow) α

namespace TopologySnapshot

def enabledMemberCount (s : TopologySnapshot nc nd nm) (domain : DomainDescriptor nm) : Arith Nat := do
  let members ← domain.memberSlice
  let cpus ← s.cpuSlice
  pure (members.filter fun logicalId => cpus.any fun cpu => cpu.logicalId == logicalId && cpu.enabled).length

/-- The local variables of the gathering loop. -/
structure Gathered (nd : Nat) where
  domainIds : Vector U16 nd
  weights : Vector Nat nd
  domainCount : Nat
  enabledTotal : Nat

/-- The gathering loop over the NUMA domains. -/
def gather (s : TopologySnapshot nc nd nm) : List (DomainDescriptor nm) → Gathered nd → Arith (Gathered nd)
  | [], g => .ok g
  | domain :: rest, g => do
    let weight ← s.enabledMemberCount domain
    if weight = 0 then s.gather rest g
    else
      let domainIds ← storeAt g.domainIds g.domainCount domain.id
      let weights ← storeAt g.weights g.domainCount weight
      let domainCount ← usizeAdd g.domainCount 1
      let enabledTotal ← usizeAdd g.enabledTotal weight
      s.gather rest { domainIds, weights, domainCount, enabledTotal }

/-- The loop that computes the floors, from position `i` on. -/
def computeChunks (g : Gathered nd) (quotient residual : Nat) (chunks : Vector Nat nd) (allocated i : Nat) :
    Nat → Arith (Vector Nat nd × Nat)
  | 0 => .ok (chunks, allocated)
  | remaining + 1 => do
    let weight ← index g.weights.toList i
    -- `total * weight` itself need not fit
    let whole ← usizeMul quotient weight
    let scaled ← usizeMul residual weight
    let chunk ← usizeAdd whole (scaled / g.enabledTotal)
    let chunks ← storeAt chunks i chunk
    let allocated ← usizeAdd allocated chunk
    computeChunks g quotient residual chunks allocated (i + 1) remaining

/-- The loop that hands out the leftover, from position `i` on. -/
def bumpChunks (chunks : Vector Nat nd) (i : Nat) : Nat → Arith (Vector Nat nd)
  | 0 => .ok chunks
  | remaining + 1 => do
    let chunk ← index chunks.toList i
    let more ← usizeAdd chunk 1
    let chunks ← storeAt chunks i more
    bumpChunks chunks (i + 1) remaining

/-- The loop that lays the chunks end to end, from position `i` on. -/
def layOut (domainIds : Vector U16 nd) (chunks : Vector Nat nd) (partition : WorkPartition nd) (cursor i : Nat) :
    Nat → Arith (WorkPartition nd)
  | 0 => .ok partition
  | remaining + 1 => do
    let chunk ← index chunks.toList i
    let stop ← usizeAdd cursor chunk
    let domainId ← index domainIds.toList i
    let slices ← storeAt partition.slices partition.count (some ⟨domainId, cursor, stop⟩)
    let count ← usizeAdd partition.count 1
    layOut domainIds chunks { slices, count } stop (i + 1) remaining

def partitionWork (s : TopologySnapshot nc nd nm) (total : Nat) : Arith (WorkPartition nd) := do
  let domains ← s.domainSlice
  let g ← s.gather (domains.filter fun domain => domain.kind == .numa)
    { domainIds := Vector.replicate nd 0, weights := Vector.replicate nd 0, domainCount := 0, enabledTotal := 0 }
  if g.enabledTotal = 0 then
    -- no domain has an enabled member: all the work under domain id 0
    let slices ← storeAt (WorkPartition.empty : WorkPartition nd).slices 0 (some ⟨0, 0, total⟩)
    pure { slices, count := 1 }
  else
    let quotient := total / g.enabledTotal
    let residual := total % g.enabledTotal
    let (chunks, allocated) ← computeChunks g quotient residual (Vector.replicate nd 0) 0 0 g.domainCount
    let leftover ← usizeSub total allocated
    -- the slice `chunks[..leftover]` is taken before the loop over it
    let _ ← sliceTo chunks.toList leftover
    let chunks ← bumpChunks chunks 0 leftover
    layOut g.domainIds chunks .empty 0 0 g.domainCount

end TopologySnapshot

/-! ## Weights -/

namespace TopologySnapshot

def cpuList (s : TopologySnapshot nc nd nm) : List CpuDescriptor := s.cpus.toList.take s.cpuCount

def domainList (s : TopologySnapshot nc nd nm) : List (DomainDescriptor nm) := s.domains.toList.take s.domainCount

/-- The number of a domain's members that are enabled CPUs. -/
def enabledMembers (s : TopologySnapshot nc nd nm) (d : DomainDescriptor nm) : Nat :=
  ((d.members.toList.take d.memberCount).filter fun id =>
    s.cpuList.any fun cpu => cpu.logicalId == id && cpu.enabled).length

/-- The NUMA domains with at least one enabled member, in domain order, and their weights. -/
def weighted (s : TopologySnapshot nc nd nm) : List (U16 × Nat) :=
  ((s.domainList.filter fun d => d.kind == .numa).map fun d => (d.id, s.enabledMembers d)).filter fun p => 0 < p.2

/-- The counts of a snapshot fit its arrays. -/
structure Fits (s : TopologySnapshot nc nd nm) : Prop where
  cpus : s.cpuCount ≤ nc
  domains : s.domainCount ≤ nd
  members : ∀ d ∈ s.domainList, d.memberCount ≤ nm

/-- Every snapshot that `from_raw` makes fits. -/
theorem fits_of_fromRaw {reply : RawTopologyReply nc nd nm} {s : TopologySnapshot nc nd nm}
    (h : fromRaw reply = .ok s) : s.Fits := by
  obtain ⟨hok, rfl⟩ := fromRaw_ok.mp h
  have hslice : (decodedReply reply).domainSlice (ε := Empty) = .ok (decodedReply reply).domainList :=
    sliceTo_eq (by rw [Vector.length_toList]; exact hok.domain_count.2)
  rw [domainSlice_decodedReply hok.domain_count.2] at hslice
  refine ⟨hok.cpu_count.2, hok.domain_count.2, ?_⟩
  intro d hd
  rw [← Except.ok.inj hslice, List.mem_map] at hd
  obtain ⟨raw, hraw, rfl⟩ := hd
  exact (hok.domain raw hraw).members_fit

theorem enabledMemberCount_eq {s : TopologySnapshot nc nd nm} (hs : s.cpuCount ≤ nc) {d : DomainDescriptor nm}
    (hd : d.memberCount ≤ nm) : s.enabledMemberCount d = .ok (s.enabledMembers d) := by
  have hmembers : d.memberSlice (ε := Overflow) = .ok (d.members.toList.take d.memberCount) :=
    sliceTo_eq (by simpa using hd)
  have hcpus : s.cpuSlice (ε := Overflow) = .ok s.cpuList := sliceTo_eq (by simpa using hs)
  rw [enabledMemberCount, hmembers, hcpus]
  rfl

theorem enabledMembers_le (s : TopologySnapshot nc nd nm) (d : DomainDescriptor nm) : s.enabledMembers d ≤ nm := by
  refine (List.length_filter_le ..).trans ?_
  rw [List.length_take, Vector.length_toList]
  omega

/-! ## The gathering loop -/

/-- The arrays with the given domains and weights gathered. -/
def gathered (pairs : List (U16 × Nat)) : Gathered nd where
  domainIds := pad nd (pairs.map Prod.fst)
  weights := pad nd (pairs.map Prod.snd)
  domainCount := pairs.length
  enabledTotal := (pairs.map Prod.snd).sum

/-- The loop appends the domains with a positive weight. -/
theorem gather_pad {s : TopologySnapshot nc nd nm} (hs : s.cpuCount ≤ nc) (done : List (U16 × Nat))
    (ds : List (DomainDescriptor nm)) (hds : ∀ d ∈ ds, d.memberCount ≤ nm) (hlen : done.length + ds.length ≤ nd)
    (hcount : nd < 2 ^ 64) (hsum : (done.map Prod.snd).sum + ds.length * nm < 2 ^ 64) :
    s.gather ds (gathered done)
      = .ok (gathered (done ++ (ds.map fun d => (d.id, s.enabledMembers d)).filter fun p => 0 < p.2)) := by
  induction ds generalizing done with
  | nil => simp [gather]
  | cons d ds ih =>
      obtain ⟨hd, hds⟩ := List.forall_mem_cons.mp hds
      rw [List.length_cons] at hlen hsum
      rw [Nat.succ_mul] at hsum
      have hle := s.enabledMembers_le d
      rw [gather, enabledMemberCount_eq hs hd, List.map_cons]
      simp only [bind, Except.bind]
      by_cases hzero : s.enabledMembers d = 0
      · rw [if_pos hzero, List.filter_cons_of_neg (by simp [hzero])]
        exact ih done hds (by omega) (by omega)
      · -- one more domain is stored, counted and added
        have hids : storeAt (ε := Overflow) (gathered done : Gathered nd).domainIds
            (gathered done : Gathered nd).domainCount d.id
            = .ok (gathered (done ++ [(d.id, s.enabledMembers d)]) : Gathered nd).domainIds :=
          storeAt_pad_map Prod.fst (by omega) (d.id, s.enabledMembers d)
        have hweights : storeAt (ε := Overflow) (gathered done : Gathered nd).weights
            (gathered done : Gathered nd).domainCount (s.enabledMembers d)
            = .ok (gathered (done ++ [(d.id, s.enabledMembers d)]) : Gathered nd).weights :=
          storeAt_pad_map Prod.snd (by omega) (d.id, s.enabledMembers d)
        have hcounted : usizeAdd (gathered done : Gathered nd).domainCount 1
            = .ok (gathered (done ++ [(d.id, s.enabledMembers d)]) : Gathered nd).domainCount := by
          simp only [gathered, usizeAdd_eq (show done.length + 1 < 2 ^ 64 by omega), List.length_append,
            List.length_singleton]
        have htotal : usizeAdd (gathered done : Gathered nd).enabledTotal (s.enabledMembers d)
            = .ok (gathered (done ++ [(d.id, s.enabledMembers d)]) : Gathered nd).enabledTotal := by
          simp only [gathered, List.map_append, List.sum_append,
            usizeAdd_eq (show (done.map Prod.snd).sum + s.enabledMembers d < 2 ^ 64 by omega)]
          rfl
        have hnext := ih (done ++ [(d.id, s.enabledMembers d)]) hds
          (by rw [List.length_append, List.length_singleton]; omega)
          (by rw [List.map_append, List.sum_append]; simp; omega)
        rw [if_neg hzero, List.filter_cons_of_pos (by simp; omega)]
        simp only [hids, hweights, hcounted, htotal]
        rw [List.append_assoc, List.singleton_append] at hnext
        exact hnext

/-! ## Floors and leftover -/

section

variable {pairs : List (U16 × Nat)} {total : Nat}

/-- The chunk the loop computes for a weight is the floor of its share, and no step of it overflows. -/
theorem chunk_eq {sum w : Nat} (hsum : 0 < sum) (hsmall : sum < 2 ^ 32) (hw : w ≤ sum) (htotal : total < 2 ^ 64) :
    usizeMul (total / sum) w = .ok (total / sum * w) ∧
    usizeMul (total % sum) w = .ok (total % sum * w) ∧
    usizeAdd (total / sum * w) (total % sum * w / sum) = .ok (total * w / sum) ∧
    total * w / sum ≤ total := by
  have hshare : total * w / sum ≤ total := by
    calc total * w / sum ≤ total * sum / sum := Nat.div_le_div_right (Nat.mul_le_mul_left _ hw)
      _ = total := Nat.mul_div_cancel _ hsum
  have hsplit := Apportion.quotient_add_residual hsum total w
  have hproduct : total % sum * w < 2 ^ 64 := by
    calc total % sum * w < sum * 2 ^ 32 :=
          Nat.mul_lt_mul_of_lt_of_le (Nat.mod_lt _ hsum) (hw.trans hsmall.le) (by decide)
      _ ≤ 2 ^ 32 * 2 ^ 32 := Nat.mul_le_mul_right _ hsmall.le
      _ = 2 ^ 64 := by decide
  have hwhole : total / sum * w ≤ total * w / sum := by
    rw [← hsplit]
    exact Nat.le_add_right ..
  refine ⟨usizeMul_eq (by omega), usizeMul_eq hproduct, ?_, hshare⟩
  rw [usizeAdd_eq (by omega), hsplit]

/-- The loop fills in the floors and adds them up. -/
theorem computeChunks_pad (hsum : 0 < (pairs.map Prod.snd).sum) (hsmall : (pairs.map Prod.snd).sum < 2 ^ 32)
    (htotal : total < 2 ^ 64) (hlen : pairs.length ≤ nd) (i remaining : Nat) (hi : i + remaining = pairs.length) :
    computeChunks (gathered pairs : Gathered nd) (total / (pairs.map Prod.snd).sum)
        (total % (pairs.map Prod.snd).sum)
        (pad nd ((Apportion.floors total (pairs.map Prod.snd)).take i))
        ((Apportion.floors total (pairs.map Prod.snd)).take i).sum i remaining
      = .ok (pad nd (Apportion.floors total (pairs.map Prod.snd)),
          (Apportion.floors total (pairs.map Prod.snd)).sum) := by
  generalize hws : pairs.map Prod.snd = ws at *
  have hwlen : ws.length = pairs.length := by rw [← hws, List.length_map]
  induction remaining generalizing i with
  | zero =>
      rw [List.take_of_length_le (by rw [Apportion.length_floors]; omega), computeChunks]
  | succ remaining ih =>
      have hlt : i < ws.length := by omega
      have hflt : i < (Apportion.floors total ws).length := by rwa [Apportion.length_floors]
      have hmem : ws[i] ≤ ws.sum := List.le_sum_of_mem (List.getElem_mem hlt)
      obtain ⟨hwhole, hscaled, hchunk, -⟩ := chunk_eq hsum hsmall hmem htotal
      have hfloor : (Apportion.floors total ws)[i] = total * ws[i] / ws.sum := List.getElem_map ..
      have htake : (Apportion.floors total ws).take (i + 1)
          = (Apportion.floors total ws).take i ++ [total * ws[i] / ws.sum] := by
        rw [List.take_add_one, List.getElem?_eq_getElem hflt, hfloor]
        rfl
      have hpartial : ((Apportion.floors total ws).take (i + 1)).sum ≤ total := by
        have hle : (Apportion.floors total ws).sum ≤ total := Apportion.sum_floors_le hsum
        exact ((List.take_sublist _ _).sum_le_sum (fun _ _ => Nat.zero_le _)).trans hle
      have hindex : index (ε := Overflow) (gathered pairs : Gathered nd).weights.toList i = .ok ws[i] := by
        simp only [gathered, hws]
        exact index_pad hlt (by omega)
      have htotalOf : (gathered pairs : Gathered nd).enabledTotal = ws.sum := by rw [gathered, hws]
      have hstore : storeAt (ε := Overflow) (pad nd ((Apportion.floors total ws).take i)) i (total * ws[i] / ws.sum)
          = .ok (pad nd ((Apportion.floors total ws).take (i + 1))) := by
        have hlenTake : ((Apportion.floors total ws).take i).length = i := by
          rw [List.length_take, Nat.min_eq_left hflt.le]
        have h : storeAt (ε := Overflow) (pad nd ((Apportion.floors total ws).take i))
            ((Apportion.floors total ws).take i).length (total * ws[i] / ws.sum) = _ :=
          storeAt_pad (by omega) _
        rwa [hlenTake, ← htake] at h
      rw [htake, List.sum_append, List.sum_singleton] at hpartial
      have hadd : usizeAdd ((Apportion.floors total ws).take i).sum (total * ws[i] / ws.sum)
          = .ok ((Apportion.floors total ws).take (i + 1)).sum := by
        rw [usizeAdd_eq (by omega), htake, List.sum_append, List.sum_singleton]
      rw [computeChunks]
      simp only [hindex, hwhole, hscaled, htotalOf, hchunk, hstore, hadd, bind, Except.bind]
      exact ih (i + 1) (by omega)

/-- The loop hands one unit to each of the first chunks. -/
theorem bumpChunks_pad {xs : List Nat} (hlen : xs.length ≤ nd) (i remaining : Nat)
    (hxs : 0 < remaining → ∀ x ∈ xs, x + 1 < 2 ^ 64) (hi : i + remaining ≤ xs.length) :
    bumpChunks (pad nd (Apportion.bump i xs)) i remaining = .ok (pad nd (Apportion.bump (i + remaining) xs)) := by
  induction remaining generalizing i with
  | zero => rfl
  | succ remaining ih =>
      have hlt : i < xs.length := by omega
      have hblt : i < (Apportion.bump i xs).length := by rwa [Apportion.length_bump]
      have hindex : index (ε := Overflow) (pad nd (Apportion.bump i xs)).toList i = .ok xs[i] := by
        rw [index_pad hblt (by rw [Apportion.length_bump]; exact hlen), Apportion.getElem_bump i xs i hblt hlt,
          if_neg (Nat.lt_irrefl i), Nat.add_zero]
      have hstore : storeAt (ε := Overflow) (pad nd (Apportion.bump i xs)) i (xs[i] + 1)
          = .ok (pad nd (Apportion.bump (i + 1) xs)) := by
        rw [storeAt_pad_set hblt (by rw [Apportion.length_bump]; exact hlen), Apportion.set_bump hlt]
      rw [bumpChunks]
      have hall := hxs (Nat.succ_pos remaining)
      simp only [hindex, usizeAdd_eq (hall _ (List.getElem_mem hlt)), hstore, bind, Except.bind]
      rw [ih (i + 1) (fun _ => hall) (by omega), Nat.add_assoc, Nat.add_comm 1]

end

/-! ## Laying the shares end to end -/

/-- The slices of consecutive chunks, from `cursor` on. -/
def endToEnd (cursor : Nat) : List (U16 × Nat) → List WorkSlice
  | [] => []
  | (id, chunk) :: rest => ⟨id, cursor, cursor + chunk⟩ :: endToEnd (cursor + chunk) rest

theorem length_endToEnd (cursor : Nat) (ps : List (U16 × Nat)) : (endToEnd cursor ps).length = ps.length := by
  induction ps generalizing cursor with
  | nil => rfl
  | cons p ps ih => rw [endToEnd, List.length_cons, ih, List.length_cons]

/-- Each slice covers what the chunks before it leave. -/
theorem getElem_endToEnd (cursor : Nat) (ps : List (U16 × Nat)) (i : Nat) (h : i < (endToEnd cursor ps).length)
    (hp : i < ps.length) :
    (endToEnd cursor ps)[i] = ⟨ps[i].1, cursor + ((ps.take i).map Prod.snd).sum,
      cursor + ((ps.take (i + 1)).map Prod.snd).sum⟩ := by
  induction ps generalizing cursor i with
  | nil => cases hp
  | cons p ps ih =>
      cases i with
      | zero => simp [endToEnd]
      | succ i =>
          have hnext := ih (cursor + p.2) i (by simpa [endToEnd] using h) (by simpa using hp)
          simp only [endToEnd, List.getElem_cons_succ, List.take_succ_cons, List.map_cons, List.sum_cons, hnext,
            Nat.add_assoc]

theorem map_domainId_endToEnd (cursor : Nat) (ps : List (U16 × Nat)) :
    (endToEnd cursor ps).map WorkSlice.domainId = ps.map Prod.fst := by
  induction ps generalizing cursor with
  | nil => rfl
  | cons p ps ih => rw [endToEnd, List.map_cons, ih, List.map_cons]

theorem head?_endToEnd (cursor : Nat) {ps : List (U16 × Nat)} (hne : ps ≠ []) :
    (endToEnd cursor ps).head?.map WorkSlice.start = some cursor := by
  cases ps with
  | nil => exact absurd rfl hne
  | cons p ps => rfl

theorem getLast?_endToEnd (cursor : Nat) {ps : List (U16 × Nat)} (hne : ps ≠ []) :
    (endToEnd cursor ps).getLast?.map WorkSlice.stop = some (cursor + (ps.map Prod.snd).sum) := by
  induction ps generalizing cursor with
  | nil => exact absurd rfl hne
  | cons p ps ih =>
      cases ps with
      | nil => simp [endToEnd]
      | cons q qs =>
          have hnext := ih (cursor + p.2) (List.cons_ne_nil q qs)
          rw [List.map_cons, List.sum_cons, ← Nat.add_assoc, ← hnext]
          rfl

theorem layOut_pad {ps : List (U16 × Nat)} (hlen : ps.length ≤ nd) (hnd : nd < 2 ^ 64) (done : List WorkSlice)
    (cursor remaining : Nat) (hi : done.length + remaining = ps.length)
    (hsum : cursor + ((ps.drop done.length).map Prod.snd).sum < 2 ^ 64) :
    layOut (pad nd (ps.map Prod.fst)) (pad nd (ps.map Prod.snd)) ⟨pad nd (done.map some), done.length⟩ cursor
        done.length remaining
      = .ok ⟨pad nd ((done ++ endToEnd cursor (ps.drop done.length)).map some), ps.length⟩ := by
  induction remaining generalizing done cursor with
  | zero =>
      have hend : ps.drop done.length = [] := List.drop_eq_nil_of_le (by omega)
      rw [layOut, hend, endToEnd, List.append_nil, ← hi, Nat.add_zero]
  | succ remaining ih =>
      have hlt : done.length < ps.length := by omega
      have hdrop := List.drop_eq_getElem_cons hlt
      rw [hdrop, List.map_cons, List.sum_cons] at hsum
      have hchunk : index (ε := Overflow) (pad nd (ps.map Prod.snd)).toList done.length = .ok ps[done.length].2 := by
        rw [index_pad (by rwa [List.length_map]) (by rwa [List.length_map]), List.getElem_map]
      have hid : index (ε := Overflow) (pad nd (ps.map Prod.fst)).toList done.length = .ok ps[done.length].1 := by
        rw [index_pad (by rwa [List.length_map]) (by rwa [List.length_map]), List.getElem_map]
      have hstore := storeAt_pad_map (ε := Overflow) some (show done.length < nd by omega)
        (⟨ps[done.length].1, cursor, cursor + ps[done.length].2⟩ : WorkSlice)
      have hnext := ih (done ++ [⟨ps[done.length].1, cursor, cursor + ps[done.length].2⟩])
        (cursor + ps[done.length].2) (by rw [List.length_append, List.length_singleton]; omega)
        (by rw [List.length_append, List.length_singleton]; omega)
      rw [List.length_append, List.length_singleton, List.append_assoc, List.singleton_append] at hnext
      rw [layOut]
      simp only [hchunk, hid, usizeAdd_eq (show cursor + ps[done.length].2 < 2 ^ 64 by omega), hstore,
        usizeAdd_eq (show done.length + 1 < 2 ^ 64 by omega), bind, Except.bind]
      rw [hdrop, endToEnd]
      exact hnext

/-! ## The whole partition -/

/-- **A proportional partition** of `[0, total)` among weighted domains: one slice per domain in order, end to
    end, each as long as the floor of the exact share, plus one for the first domains until nothing is left. -/
structure Proportional (total : Nat) (weighted : List (U16 × Nat)) (slices : List WorkSlice) : Prop where
  ids : slices.map WorkSlice.domainId = weighted.map Prod.fst
  first : slices.head?.map WorkSlice.start = some 0
  contiguous : ∀ i (h : i + 1 < slices.length), slices[i + 1].start = slices[i].stop
  last : slices.getLast?.map WorkSlice.stop = some total
  lengths : ∀ i (h : i < slices.length) (hw : i < weighted.length),
    slices[i].stop = slices[i].start + (total * weighted[i].2 / (weighted.map Prod.snd).sum
      + if i < total - ((weighted.map fun p => total * p.2 / (weighted.map Prod.snd).sum).sum) then 1 else 0)
  floors_le : (weighted.map fun p => total * p.2 / (weighted.map Prod.snd).sum).sum ≤ total
  leftover_lt : total - (weighted.map fun p => total * p.2 / (weighted.map Prod.snd).sum).sum < weighted.length

theorem floors_map (total : Nat) (weighted : List (U16 × Nat)) :
    Apportion.floors total (weighted.map Prod.snd)
      = weighted.map fun p => total * p.2 / (weighted.map Prod.snd).sum := by
  rw [Apportion.floors, List.map_map]
  rfl

/-- The domains and their shares. -/
def sharePairs (total : Nat) (weighted : List (U16 × Nat)) : List (U16 × Nat) :=
  (weighted.map Prod.fst).zip (Apportion.shares total (weighted.map Prod.snd))

section

variable (total : Nat) (weighted : List (U16 × Nat))

theorem map_fst_sharePairs : (sharePairs total weighted).map Prod.fst = weighted.map Prod.fst :=
  List.map_fst_zip (by simp)

theorem map_snd_sharePairs :
    (sharePairs total weighted).map Prod.snd = Apportion.shares total (weighted.map Prod.snd) :=
  List.map_snd_zip (by simp)

theorem length_sharePairs : (sharePairs total weighted).length = weighted.length := by
  have h := congrArg List.length (map_fst_sharePairs total weighted)
  rwa [List.length_map, List.length_map] at h

end

/-- Laying the shares end to end is a proportional partition. -/
theorem proportional_endToEnd {total : Nat} {weighted : List (U16 × Nat)} (hsum : 0 < (weighted.map Prod.snd).sum) :
    Proportional total weighted (endToEnd 0 (sharePairs total weighted)) := by
  have hsnd := map_snd_sharePairs total weighted
  have hlen := length_sharePairs total weighted
  generalize hps : sharePairs total weighted = ps at hsnd hlen
  have hne : ps ≠ [] := by
    rintro rfl
    rw [List.length_eq_zero_iff.mp hlen.symm] at hsum
    exact absurd hsum (by decide)
  have hchunk : ∀ i (h : i < ps.length) (hw : i < weighted.length),
      ps[i].2 = total * weighted[i].2 / (weighted.map Prod.snd).sum
        + if i < Apportion.leftover total (weighted.map Prod.snd) then 1 else 0 := by
    intro i h hw
    have hshare := @Apportion.getElem?_shares total (weighted.map Prod.snd) i (by rwa [List.length_map])
    rw [← hsnd, List.getElem?_map, List.getElem?_eq_getElem h, List.getElem_map] at hshare
    exact Option.some.inj hshare
  refine ⟨?_, head?_endToEnd 0 hne, ?_, ?_, ?_, ?_, ?_⟩
  · rw [map_domainId_endToEnd, ← hps, map_fst_sharePairs]
  · intro i h
    rw [length_endToEnd] at h
    rw [getElem_endToEnd 0 ps (i + 1) (by rwa [length_endToEnd]) h,
      getElem_endToEnd 0 ps i (by rw [length_endToEnd]; omega) (by omega)]
  · rw [getLast?_endToEnd 0 hne, hsnd, Apportion.sum_shares hsum, Nat.zero_add]
  · intro i h hw
    have hi : i < ps.length := by rwa [length_endToEnd] at h
    rw [getElem_endToEnd 0 ps i h hi]
    simp only [List.take_add_one, List.getElem?_eq_getElem hi, Option.toList_some, List.map_append, List.map_singleton,
      List.sum_append, List.sum_singleton, hchunk i hi hw, Nat.zero_add]
    rw [← floors_map]
    rfl
  · rw [← floors_map]
    exact Apportion.sum_floors_le hsum
  · rw [← floors_map, ← List.length_map Prod.snd]
    exact Apportion.leftover_lt hsum

/-- The number of weighted domains and their weights are small. -/
theorem weighted_small (s : TopologySnapshot nc nd nm) (hnd : nd ≤ 65535) (hnm : nm ≤ 65535) :
    (s.domainList.filter fun d => d.kind == .numa).length ≤ nd ∧
      s.weighted.length ≤ nd ∧ (s.weighted.map Prod.snd).sum < 2 ^ 32 := by
  have hlist : (s.domainList.filter fun d => d.kind == .numa).length ≤ nd := by
    refine (List.length_filter_le ..).trans ?_
    rw [domainList, List.length_take, Vector.length_toList]
    omega
  have hlen : s.weighted.length ≤ nd := by
    refine (List.length_filter_le ..).trans ?_
    rwa [List.length_map]
  have hbound : ∀ w ∈ s.weighted.map Prod.snd, w ≤ nm := by
    intro w hw
    obtain ⟨p, hp, rfl⟩ := List.mem_map.mp hw
    obtain ⟨d, -, rfl⟩ := List.mem_map.mp (List.mem_of_mem_filter hp)
    exact s.enabledMembers_le d
  refine ⟨hlist, hlen, ?_⟩
  have hsum : (s.weighted.map Prod.snd).sum ≤ (s.weighted.map Prod.snd).length * nm :=
    List.sum_le_card_nsmul _ nm hbound
  rw [List.length_map] at hsum
  calc (s.weighted.map Prod.snd).sum ≤ s.weighted.length * nm := hsum
    _ ≤ 65535 * 65535 := Nat.mul_le_mul (hlen.trans hnd) hnm
    _ < 2 ^ 32 := by decide

/-- The first loop gathers the weighted domains. -/
theorem gather_domains {s : TopologySnapshot nc nd nm} (hs : s.Fits) (hnd : nd ≤ 65535) (hnm : nm ≤ 65535) :
    s.gather (s.domainList.filter fun d => d.kind == .numa)
        { domainIds := Vector.replicate nd 0, weights := Vector.replicate nd 0, domainCount := 0, enabledTotal := 0 }
      = .ok (gathered s.weighted) := by
  have hlist := (weighted_small s hnd hnm).1
  have hmembers : ∀ d ∈ s.domainList.filter (fun d => d.kind == .numa), d.memberCount ≤ nm :=
    fun d hd => hs.members d (List.mem_of_mem_filter hd)
  have hempty : (gathered [] : Gathered nd)
      = { domainIds := Vector.replicate nd 0, weights := Vector.replicate nd 0, domainCount := 0
          enabledTotal := 0 } := by
    simp only [gathered, List.map_nil, pad_nil]
    rfl
  have hmul := Nat.mul_le_mul (hlist.trans hnd) hnm
  rw [← hempty, gather_pad hs.cpus [] _ hmembers (by rw [List.length_nil]; omega) (by omega)
    (by rw [List.map_nil, List.sum_nil]; omega)]
  rfl

/-- The third loop turns the floors into the shares. -/
theorem bumpChunks_leftover {ws : List Nat} {total : Nat} (hsum : 0 < ws.sum) (hlen : ws.length ≤ nd)
    (htotal : total < 2 ^ 64) :
    bumpChunks (pad nd (Apportion.floors total ws)) 0 (Apportion.leftover total ws)
      = .ok (pad nd (Apportion.shares total ws)) := by
  have hle : (Apportion.floors total ws).sum ≤ total := Apportion.sum_floors_le hsum
  have hleft : Apportion.leftover total ws < ws.length := Apportion.leftover_lt hsum
  have hsmall : 0 < Apportion.leftover total ws → ∀ x ∈ Apportion.floors total ws, x + 1 < 2 ^ 64 := by
    -- something is left over, so no floor is the whole total
    intro hpos x hx
    have hxsum := List.le_sum_of_mem hx
    rw [Apportion.leftover] at hpos
    omega
  have hbump := @bumpChunks_pad nd (Apportion.floors total ws) (by rwa [Apportion.length_floors]) 0
    (Apportion.leftover total ws) hsmall (by rw [Apportion.length_floors]; omega)
  rwa [Apportion.bump_zero, Nat.zero_add] at hbump

/-- The last loop lays the shares end to end. -/
theorem layOut_shares {total : Nat} {weighted : List (U16 × Nat)} (hsum : 0 < (weighted.map Prod.snd).sum)
    (hlen : weighted.length ≤ nd) (hnd : nd < 2 ^ 64) (htotal : total < 2 ^ 64) :
    layOut (pad nd (weighted.map Prod.fst)) (pad nd (Apportion.shares total (weighted.map Prod.snd))) .empty 0 0
        weighted.length
      = .ok ⟨pad nd ((endToEnd 0 (sharePairs total weighted)).map some), weighted.length⟩ := by
  have hlay := @layOut_pad nd (sharePairs total weighted) (by rwa [length_sharePairs]) hnd [] 0
    (sharePairs total weighted).length (Nat.zero_add _)
    (by rw [List.length_nil, List.drop_zero, map_snd_sharePairs, Apportion.sum_shares hsum]; omega)
  rw [map_fst_sharePairs, map_snd_sharePairs, length_sharePairs, List.map_nil, pad_nil, List.length_nil,
    List.drop_zero, List.nil_append] at hlay
  exact hlay

/-- **`partition_work` in closed form**, when some NUMA domain has an enabled member. -/
theorem partitionWork_eq {s : TopologySnapshot nc nd nm} (hs : s.Fits) (hnd : nd ≤ 65535) (hnm : nm ≤ 65535)
    {total : Nat} (htotal : total < 2 ^ 64) (hsum : 0 < (s.weighted.map Prod.snd).sum) :
    s.partitionWork total
      = .ok ⟨pad nd ((endToEnd 0 (sharePairs total s.weighted)).map some), s.weighted.length⟩ := by
  obtain ⟨hlist, hlen, hsmall⟩ := weighted_small s hnd hnm
  have hdomains : s.domainSlice (ε := Overflow) = .ok s.domainList :=
    sliceTo_eq (by rw [Vector.length_toList]; exact hs.domains)
  have hgather := gather_domains hs hnd hnm
  have hchunks := computeChunks_pad hsum hsmall htotal hlen 0 s.weighted.length (Nat.zero_add _)
  rw [List.take_zero, pad_nil, List.sum_nil] at hchunks
  have hchunks' : computeChunks (gathered s.weighted : Gathered nd)
      (total / (gathered s.weighted : Gathered nd).enabledTotal)
      (total % (gathered s.weighted : Gathered nd).enabledTotal) (Vector.replicate nd 0) 0 0
      (gathered s.weighted : Gathered nd).domainCount = .ok _ := hchunks
  have hleft : Apportion.leftover total (s.weighted.map Prod.snd) < (s.weighted.map Prod.snd).length :=
    Apportion.leftover_lt hsum
  rw [List.length_map] at hleft
  have hsub : usizeSub total (Apportion.floors total (s.weighted.map Prod.snd)).sum
      = .ok (Apportion.leftover total (s.weighted.map Prod.snd)) := usizeSub_eq (Apportion.sum_floors_le hsum)
  have hslice : sliceTo (ε := Overflow) (pad nd (Apportion.floors total (s.weighted.map Prod.snd))).toList
      (Apportion.leftover total (s.weighted.map Prod.snd)) = .ok _ :=
    sliceTo_eq (by rw [Vector.length_toList]; omega)
  have hbump := @bumpChunks_leftover nd _ _ hsum (by rwa [List.length_map]) htotal
  rw [partitionWork, hdomains]
  simp only [bind, Except.bind, hgather]
  rw [if_neg (show ¬ (gathered s.weighted : Gathered nd).enabledTotal = 0 from Nat.pos_iff_ne_zero.mp hsum)]
  simp only [hchunks', hsub, hslice, hbump]
  exact layOut_shares hsum hlen (by omega) htotal

/-- Without an enabled NUMA member, all the work is one slice. -/
theorem partitionWork_unweighted {s : TopologySnapshot nc nd nm} (hs : s.Fits) (hpos : 1 ≤ nd) (hnd : nd ≤ 65535)
    (hnm : nm ≤ 65535) (total : Nat) (hsum : (s.weighted.map Prod.snd).sum = 0) :
    s.partitionWork total = .ok ⟨pad nd ([⟨0, 0, total⟩].map some), 1⟩ := by
  have hdomains : s.domainSlice (ε := Overflow) = .ok s.domainList :=
    sliceTo_eq (by rw [Vector.length_toList]; exact hs.domains)
  have hstore : storeAt (ε := Overflow) (WorkPartition.empty : WorkPartition nd).slices 0 (some ⟨0, 0, total⟩)
      = .ok (pad nd ([⟨0, 0, total⟩].map some)) := by
    have h := storeAt_pad_map (ε := Overflow) some (show ([] : List WorkSlice).length < nd from hpos) ⟨0, 0, total⟩
    rwa [List.map_nil, pad_nil] at h
  rw [partitionWork, hdomains]
  simp only [bind, Except.bind, gather_domains hs hnd hnm]
  rw [if_pos (show (gathered s.weighted : Gathered nd).enabledTotal = 0 from hsum), hstore]
  rfl

/-- `iter()` over a partition that was filled from its start. -/
theorem iter_pad {slices : List WorkSlice} (h : slices.length ≤ nd) :
    (⟨pad nd (slices.map some), slices.length⟩ : WorkPartition nd).iter = .ok slices := by
  rw [WorkPartition.iter, sliceTo_pad_map some h]
  show Except.ok ((slices.map some).filterMap id) = Except.ok slices
  rw [List.filterMap_map]
  simp

/-- **Work is divided exactly.** For every snapshot that `from_raw` accepts and every total, `partition_work`
    neither overflows nor indexes out of range. If some NUMA domain has an enabled member, its slices are the
    proportional partition among the weighted domains; if none has, the single slice `[0, total)`. -/
theorem partition_exact (hnd : nd ≤ 65535) (hnm : nm ≤ 65535) {reply : RawTopologyReply nc nd nm}
    {s : TopologySnapshot nc nd nm} (hs : fromRaw reply = .ok s) {total : Nat} (htotal : total < 2 ^ 64) :
    ∃ p slices, s.partitionWork total = .ok p ∧ p.iter = .ok slices ∧
      (0 < (s.weighted.map Prod.snd).sum → slices.length = s.weighted.length ∧
        Proportional total s.weighted slices) ∧
      ((s.weighted.map Prod.snd).sum = 0 → ∃ id, slices = [⟨id, 0, total⟩]) := by
  have hfits := fits_of_fromRaw hs
  have hcount := (fromRaw_ok.mp hs).1.domain_count
  have hroom : 1 ≤ nd := hcount.1.trans hcount.2
  rcases Nat.eq_zero_or_pos (s.weighted.map Prod.snd).sum with hzero | hpos
  · refine ⟨_, [⟨0, 0, total⟩], partitionWork_unweighted hfits hroom hnd hnm total hzero,
      iter_pad hroom, fun h => absurd hzero (Nat.pos_iff_ne_zero.mp h), fun _ => ⟨0, rfl⟩⟩
  · have hlen : (endToEnd 0 (sharePairs total s.weighted)).length = s.weighted.length := by
      rw [length_endToEnd, length_sharePairs]
    have hpartition := partitionWork_eq hfits hnd hnm htotal hpos
    rw [← hlen] at hpartition
    refine ⟨_, endToEnd 0 (sharePairs total s.weighted), hpartition, iter_pad ?_,
      fun _ => ⟨hlen, proportional_endToEnd hpos⟩, fun h => absurd h (Nat.pos_iff_ne_zero.mp hpos)⟩
    rw [hlen]
    exact (weighted_small s hnd hnm).2.1

/-- Two NUMA domains, with three enabled CPUs and with one. -/
def weightedReply : RawTopologyReply 4 2 3 where
  header := ⟨4, 2, 0⟩
  cpus := #v[⟨1, 10, 0, 0, 0, 0, 0, 1⟩, ⟨2, 20, 0, 1, 0, 0, 0, 1⟩, ⟨3, 30, 0, 2, 0, 0, 0, 1⟩,
    ⟨4, 40, 0, 3, 0, 1, 0, 1⟩]
  domains := #v[⟨0, 1, 0, 0, 3, #v[1, 2, 3]⟩, ⟨1, 1, 0, 0, 1, #v[4, 0, 0]⟩]

/-- A hundred and one units over them: 75 and 25, and the one left over goes to the first. -/
theorem partition_sample :
    ∃ s p, fromRaw weightedReply = .ok s ∧ s.weighted = [(0, 3), (1, 1)] ∧ s.partitionWork 101 = .ok p ∧
      p.iter = .ok [⟨0, 0, 76⟩, ⟨1, 76, 101⟩] ∧
      Proportional 101 s.weighted [⟨0, 0, 76⟩, ⟨1, 76, 101⟩] := by
  have hs : fromRaw weightedReply = .ok (decodedReply weightedReply) := by
    rcases fromRaw_cases weightedReply with ⟨-, hok⟩ | ⟨-, hbad⟩
    · exact hok
    · have hgood : (fromRaw weightedReply).toBool = true := by decide +kernel
      rw [hbad] at hgood
      cases hgood
  have hweights : (decodedReply weightedReply).weighted = [(0, 3), (1, 1)] := by decide +kernel
  have hslices : ((decodedReply weightedReply).partitionWork 101).bind WorkPartition.iter
      = .ok [⟨0, 0, 76⟩, ⟨1, 76, 101⟩] := by decide +kernel
  obtain ⟨p, slices, hp, hiter, hprop, -⟩ :=
    partition_exact (by decide) (by decide) hs (show 101 < 2 ^ 64 by decide)
  rw [hp] at hslices
  obtain rfl := Except.ok.inj (hiter.symm.trans hslices)
  exact ⟨_, p, hs, hweights, hp, hiter, (hprop (by rw [hweights]; decide)).2⟩

end TopologySnapshot

end Slope.Kairos
