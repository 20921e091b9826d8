import Slope.Kairos.Topology

/-!
# `Kairos.Decode` — what `from_raw` accepts

`WellFormedReply` is the specification of a kernel reply: the counts fit, the counted ids are distinct, and
every counted domain has distinct, counted members and no parent or a counted one. The two loops of `from_raw`
check it prefix by prefix; `loadCpus_pad` and `loadDomains_pad` give each loop's result in closed form, with the
part of the snapshot that is filled as a padded list, and `fromRaw_cases` puts them together.
-/

namespace Slope.Kairos

open Slope TopologySnapshot

variable {nc nd nm : Nat}

/-! ## The specification -/

/-- The first `cpu_count` raw CPUs. -/
def RawTopologyReply.countedCpus (reply : RawTopologyReply nc nd nm) : List RawCpu :=
  reply.cpus.toList.take reply.header.cpuCount.toNat

/-- The first `domain_count` raw domains. -/
def RawTopologyReply.countedDomains (reply : RawTopologyReply nc nd nm) : List (RawDomain nm) :=
  reply.domains.toList.take reply.header.domainCount.toNat

/-- The first `member_count` raw members. -/
def RawDomain.countedMembers (raw : RawDomain nm) : List U16 := raw.members.toList.take raw.memberCount.toNat

/-- What a domain must satisfy on its own, given the logical ids of the counted CPUs. -/
structure WellFormedDomain (cpuIds : List U16) (raw : RawDomain nm) : Prop where
  members_fit : raw.memberCount.toNat ≤ nm
  kind : raw.kind = 0 ∨ raw.kind = numaKind
  members_distinct : raw.countedMembers.Nodup
  members_counted : ∀ id ∈ raw.countedMembers, id ∈ cpuIds

/-- **A well-formed reply.** -/
structure WellFormedReply (reply : RawTopologyReply nc nd nm) : Prop where
  cpu_count : 1 ≤ reply.header.cpuCount.toNat ∧ reply.header.cpuCount.toNat ≤ nc
  domain_count : 1 ≤ reply.header.domainCount.toNat ∧ reply.header.domainCount.toNat ≤ nd
  cpus_distinct : (reply.countedCpus.map RawCpu.logicalId).Nodup
  domains_distinct : (reply.countedDomains.map RawDomain.id).Nodup
  domain : ∀ raw ∈ reply.countedDomains, WellFormedDomain (reply.countedCpus.map RawCpu.logicalId) raw
  parent : ∀ raw ∈ reply.countedDomains, raw.parentValid ≠ 0 →
    raw.parentId ∈ reply.countedDomains.map RawDomain.id

/-! ## Distinct keys -/

section

variable {α β : Type} {key : α → β} {done rest : List α} {a : α}

/-- A fresh key extends a list of distinct ones. -/
theorem nodup_snoc (hdone : (done.map key).Nodup) (hfresh : key a ∉ done.map key) :
    ((done ++ [a]).map key).Nodup := by
  rw [List.map_append, List.map_singleton, List.nodup_append]
  refine ⟨hdone, List.nodup_singleton _, ?_⟩
  intro b hb c hc
  rw [List.mem_singleton.mp hc]
  rintro rfl
  exact hfresh hb

/-- A key that is taken makes the whole list repeat itself. -/
theorem not_nodup_of_taken (htaken : key a ∈ done.map key) : ¬ ((done ++ a :: rest).map key).Nodup := by
  rw [List.map_append, List.map_cons]
  intro hnodup
  exact (List.nodup_append.mp hnodup).2.2 _ htaken _ List.mem_cons_self rfl

end

/-! ## CPUs -/

/-- The test for a decoded id is a test for the raw one. -/
theorem any_decodeCpu (cs : List RawCpu) (id : U16) :
    ((cs.map decodeCpu).any fun cpu => cpu.logicalId == id) = true ↔ id ∈ cs.map RawCpu.logicalId := by
  rw [List.any_map, List.any_eq_true, List.mem_map]
  simp [decodeCpu]

/-- The loop over the CPUs: with `done` loaded, it loads the rest unless an id repeats. -/
theorem loadCpus_pad (done rest : List RawCpu) (hlen : done.length + rest.length ≤ nc)
    (hdone : (done.map RawCpu.logicalId).Nodup) :
    loadCpus (pad nc (done.map decodeCpu)) done.length rest
      = if ((done ++ rest).map RawCpu.logicalId).Nodup then .ok (pad nc ((done ++ rest).map decodeCpu))
        else invalid := by
  induction rest generalizing done with
  | nil => rw [List.append_nil, if_pos hdone, loadCpus]
  | cons raw rest ih =>
      rw [List.length_cons] at hlen
      have hslice : sliceTo (ε := KairosError) (pad nc (done.map decodeCpu)).toList done.length
          = .ok (done.map decodeCpu) := sliceTo_pad_map decodeCpu (by omega)
      have hstore : storeAt (ε := KairosError) (pad nc (done.map decodeCpu)) done.length (decodeCpu raw)
          = .ok (pad nc ((done ++ [raw]).map decodeCpu)) := storeAt_pad_map decodeCpu (by omega) raw
      have hany := any_decodeCpu done raw.logicalId
      rw [loadCpus]
      simp only [hslice, hstore, bind, Except.bind]
      by_cases hmem : raw.logicalId ∈ done.map RawCpu.logicalId
      · rw [if_pos (hany.mpr hmem), if_neg (not_nodup_of_taken hmem)]
      · rw [if_neg (mt hany.mp hmem)]
        have hnext := ih (done ++ [raw]) (by rw [List.length_append, List.length_singleton]; omega)
          (nodup_snoc hdone hmem)
        rw [List.length_append, List.length_singleton, List.append_assoc] at hnext
        exact hnext

/-! ## Domains -/

/-- The member buffer with the first `n` members copied. -/
def copiedMembers (raw : RawDomain nm) (n : Nat) : Vector U16 nm :=
  Vector.ofFn fun j => if j.val < n then raw.members.get j else 0xffff

theorem copyMembers_eq (raw : RawDomain nm) (i remaining : Nat) (h : i + remaining ≤ nm) :
    copyMembers raw (copiedMembers raw i) i remaining = .ok (copiedMembers raw (i + remaining)) := by
  induction remaining generalizing i with
  | zero => rfl
  | succ remaining ih =>
      have hi : i < nm := by omega
      have hindex : index (ε := KairosError) raw.members.toList i = .ok (raw.members.get ⟨i, hi⟩) := by
        rw [index_eq (by simpa using hi)]
        simp [Vector.get]
      have hstore : storeAt (ε := KairosError) (copiedMembers raw i) i (raw.members.get ⟨i, hi⟩)
          = .ok (copiedMembers raw (i + 1)) := by
        rw [storeAt, dif_pos hi]
        congr 1
        ext j hj
        rw [Vector.getElem_set]
        by_cases hij : i = j
        · subst hij
          simp [copiedMembers]
        · have hlt : j < i ↔ j < i + 1 := by omega
          simp [copiedMembers, hij, hlt]
      rw [copyMembers]
      simp only [hindex, hstore, bind, Except.bind]
      rw [ih (i + 1) (by omega), Nat.add_assoc, Nat.add_comm 1]

/-- The descriptor a raw domain is decoded to. -/
def decodedDomain (raw : RawDomain nm) : DomainDescriptor nm where
  id := raw.id
  kind := if raw.kind = numaKind then .numa else .machine
  parent := if raw.parentValid != 0 then some raw.parentId else none
  members := copiedMembers raw raw.memberCount.toNat
  memberCount := raw.memberCount.toNat

theorem decodeDomain_eq {raw : RawDomain nm} (h : raw.memberCount.toNat ≤ nm) :
    decodeDomain raw = .ok (decodedDomain raw) := by
  have hzero : (DomainDescriptor.empty : DomainDescriptor nm).members = copiedMembers raw 0 := by
    ext j hj
    simp [DomainDescriptor.empty, copiedMembers]
  have hcopy := copyMembers_eq raw 0 raw.memberCount.toNat (by omega)
  rw [Nat.zero_add] at hcopy
  rw [decodeDomain, hzero, hcopy]
  rfl

/-- `members()` of a decoded domain is the counted part of the raw members. -/
theorem memberSlice_decodedDomain {ε : Type} {raw : RawDomain nm} (h : raw.memberCount.toNat ≤ nm) :
    (decodedDomain raw).memberSlice (ε := ε) = .ok raw.countedMembers := by
  have htake : (copiedMembers raw raw.memberCount.toNat).toList.take raw.memberCount.toNat
      = raw.countedMembers := by
    apply List.ext_getElem
    · simp [RawDomain.countedMembers]
    · intro i h₁ h₂
      have hi : i < raw.memberCount.toNat := by
        rw [List.length_take] at h₁
        omega
      simp [copiedMembers, RawDomain.countedMembers, hi, Vector.get]
  rw [DomainDescriptor.memberSlice, decodedDomain, sliceTo_eq (by simpa using h), htake]

/-- The members of a domain are searched within range, and the search finds a repetition exactly when there
    is one. -/
theorem repeated_eq (raw : RawDomain nm) (h : raw.memberCount.toNat ≤ nm) :
    ∃ repeated, (raw.countedMembers.zipIdx.anyM fun (p : U16 × Nat) => do
        let before ← sliceTo (ε := KairosError) raw.members.toList p.2
        pure (before.contains p.1)) = .ok repeated ∧
      (repeated = true ↔ ¬ raw.countedMembers.Nodup) := by
  refine ⟨_, anyM_ok (g := fun p => (raw.countedMembers.take p.2).contains p.1) ?_, any_take_contains _⟩
  rintro ⟨id, i⟩ hmem
  obtain ⟨hi, -⟩ := List.mem_zipIdx' hmem
  rw [RawDomain.countedMembers, List.length_take, Vector.length_toList] at hi
  have hslice : raw.countedMembers.take i = raw.members.toList.take i := by
    rw [RawDomain.countedMembers, List.take_take, Nat.min_eq_left (by omega)]
  simp only [sliceTo_eq (show i ≤ raw.members.toList.length by rw [Vector.length_toList]; omega), hslice]
  rfl

/-- The search for a member that is not counted. -/
theorem uncounted_eq (cs : List RawCpu) (hcs : cs.length ≤ nc) (ids : List U16) :
    ∃ uncounted, (ids.anyM fun logicalId => do
        let counted ← sliceTo (ε := KairosError) (pad nc (cs.map decodeCpu)).toList cs.length
        pure !(counted.any fun cpu => cpu.logicalId == logicalId)) = .ok uncounted ∧
      (uncounted = true ↔ ¬ ∀ id ∈ ids, id ∈ cs.map RawCpu.logicalId) := by
  have hslice : sliceTo (ε := KairosError) (pad nc (cs.map decodeCpu)).toList cs.length
      = .ok (cs.map decodeCpu) := sliceTo_pad_map decodeCpu hcs
  refine ⟨_, anyM_ok (g := fun id => !((cs.map decodeCpu).any fun cpu => cpu.logicalId == id)) ?_, ?_⟩
  · intro id _
    rw [hslice]
    rfl
  · rw [List.any_eq_true]
    push Not
    refine exists_congr fun id => and_congr_right fun _ => ?_
    rw [Bool.not_eq_true', ← Bool.not_eq_true, any_decodeCpu]

theorem any_decodedDomain (ds : List (RawDomain nm)) (id : U16) :
    ((ds.map decodedDomain).any fun domain => domain.id == id) = true ↔ id ∈ ds.map RawDomain.id := by
  rw [List.any_map, List.any_eq_true, List.mem_map]
  simp [decodedDomain]

/-- The kinds that are not above NUMA are the two known ones. -/
theorem numaKind_lt_iff (kind : U8) : numaKind < kind ↔ ¬ (kind = 0 ∨ kind = numaKind) := by
  revert kind
  decide +kernel

/-- **When a domain is refused**: it does not fit on its own, or its id is taken. -/
theorem refusesDomain_eq (cs : List RawCpu) (hcs : cs.length ≤ nc) (done : List (RawDomain nm))
    (hdone : done.length ≤ nd) (raw : RawDomain nm) :
    ∃ refused, refusesDomain (pad nc (cs.map decodeCpu)) cs.length (pad nd (done.map decodedDomain)) done.length raw
        = .ok refused ∧
      (refused = false ↔ WellFormedDomain (cs.map RawCpu.logicalId) raw ∧ raw.id ∉ done.map RawDomain.id) := by
  have hslice : sliceTo (ε := KairosError) (pad nd (done.map decodedDomain)).toList done.length
      = .ok (done.map decodedDomain) := sliceTo_pad_map decodedDomain hdone
  have hany := any_decodedDomain done raw.id
  have hkind := numaKind_lt_iff raw.kind
  rw [refusesDomain]
  by_cases hshape : (decide (nm < raw.memberCount.toNat) || decide (numaKind < raw.kind)) = true
  · refine ⟨true, by simp only [if_pos hshape]; rfl, ?_⟩
    rw [Bool.or_eq_true, decide_eq_true_eq, decide_eq_true_eq, hkind] at hshape
    refine iff_of_false (by decide) ?_
    rintro ⟨hok, -⟩
    exact hshape.elim (fun h => Nat.not_le.mpr h hok.members_fit) fun h => h hok.kind
  · obtain ⟨hlen, hnotAbove⟩ : ¬ nm < raw.memberCount.toNat ∧ ¬ numaKind < raw.kind := by
      simpa only [Bool.or_eq_true, decide_eq_true_eq, not_or] using hshape
    have hfits : raw.memberCount.toNat ≤ nm := Nat.not_lt.mp hlen
    have hkindOk : raw.kind = 0 ∨ raw.kind = numaKind := not_not.mp (mt hkind.mpr hnotAbove)
    have hmembers : sliceTo (ε := KairosError) raw.members.toList raw.memberCount.toNat
        = .ok raw.countedMembers := sliceTo_eq (by simpa using hfits)
    simp only [if_neg hshape, hslice, bind, Except.bind]
    by_cases htaken : raw.id ∈ done.map RawDomain.id
    · refine ⟨true, by rw [if_pos (hany.mpr htaken)]; rfl, ?_⟩
      exact iff_of_false (by decide) fun h => h.2 htaken
    · obtain ⟨repeated, hrepeated, hnodup⟩ := repeated_eq raw hfits
      obtain ⟨uncounted, huncounted, hcounted⟩ := uncounted_eq cs hcs raw.countedMembers
      simp only [bind, Except.bind] at hrepeated huncounted
      rw [if_neg (mt hany.mp htaken)]
      simp only [hmembers, hrepeated]
      cases repeated with
      | true =>
          refine ⟨true, rfl, iff_of_false (by decide) ?_⟩
          exact fun h => hnodup.mp rfl h.1.members_distinct
      | false =>
          refine ⟨uncounted, huncounted, ?_⟩
          have hdistinct : raw.countedMembers.Nodup := by
            by_contra hdup
            exact absurd (hnodup.mpr hdup) (by decide)
          rw [← Bool.not_eq_true, hcounted, not_not]
          exact ⟨fun h => ⟨⟨hfits, hkindOk, hdistinct, h⟩, htaken⟩, fun h => h.1.members_counted⟩

/-- The loop over the domains: with `done` loaded, it loads the rest unless one of them does not fit or an id
    repeats. -/
theorem loadDomains_pad (cs : List RawCpu) (hcs : cs.length ≤ nc) (done rest : List (RawDomain nm))
    (hlen : done.length + rest.length ≤ nd) (hdone : (done.map RawDomain.id).Nodup) :
    (((done ++ rest).map RawDomain.id).Nodup ∧
        (∀ raw ∈ rest, WellFormedDomain (cs.map RawCpu.logicalId) raw) ∧
        loadDomains (pad nc (cs.map decodeCpu)) cs.length (pad nd (done.map decodedDomain)) done.length rest
          = .ok (pad nd ((done ++ rest).map decodedDomain))) ∨
      (¬ (((done ++ rest).map RawDomain.id).Nodup ∧
          ∀ raw ∈ rest, WellFormedDomain (cs.map RawCpu.logicalId) raw) ∧
        loadDomains (pad nc (cs.map decodeCpu)) cs.length (pad nd (done.map decodedDomain)) done.length rest
          = invalid) := by
  induction rest generalizing done with
  | nil => exact Or.inl ⟨by rwa [List.append_nil], by simp, by rw [List.append_nil, loadDomains]⟩
  | cons raw rest ih =>
      rw [List.length_cons] at hlen
      obtain ⟨refused, hrefused, hiff⟩ := refusesDomain_eq cs hcs done (show done.length ≤ nd by omega) raw
      rw [loadDomains, hrefused]
      cases refused with
      | true =>
          refine Or.inr ⟨?_, rfl⟩
          rintro ⟨hnodup, hall⟩
          have hfree : raw.id ∉ done.map RawDomain.id := fun htaken => not_nodup_of_taken htaken hnodup
          exact absurd (hiff.mpr ⟨hall raw List.mem_cons_self, hfree⟩) (by decide)
      | false =>
          obtain ⟨hok, hfree⟩ := hiff.mp rfl
          have hstore : storeAt (ε := KairosError) (pad nd (done.map decodedDomain)) done.length (decodedDomain raw)
              = .ok (pad nd ((done ++ [raw]).map decodedDomain)) := storeAt_pad_map decodedDomain (by omega) raw
          have hnext := ih (done ++ [raw]) (by rw [List.length_append, List.length_singleton]; omega)
            (nodup_snoc hdone hfree)
          simp only [bind, Except.bind, Bool.false_eq_true, if_false, decodeDomain_eq hok.members_fit, hstore]
          rw [List.length_append, List.length_singleton, List.append_assoc, List.singleton_append] at hnext
          rw [List.forall_mem_cons]
          rcases hnext with ⟨hnodup, hall, hload⟩ | ⟨hbad, hload⟩
          · exact Or.inl ⟨hnodup, ⟨hok, hall⟩, hload⟩
          · exact Or.inr ⟨fun h => hbad ⟨h.1, h.2.2⟩, hload⟩

/-! ## The whole reply -/

theorem orphaned_map (ds : List (RawDomain nm)) :
    orphaned (ds.map decodedDomain) = false ↔
      ∀ raw ∈ ds, raw.parentValid ≠ 0 → raw.parentId ∈ ds.map RawDomain.id := by
  rw [orphaned, List.any_map, List.any_eq_false]
  refine forall₂_congr fun raw _ => ?_
  by_cases hvalid : raw.parentValid = 0
  · simp [decodedDomain, hvalid]
  · have hparent : (decodedDomain raw).parent = some raw.parentId := if_pos (bne_iff_ne.mpr hvalid)
    rw [Function.comp_apply, hparent, Option.any_some, Bool.not_eq_true, Bool.not_eq_false', any_decodedDomain]
    exact ⟨fun h _ => h, fun h => h hvalid⟩

theorem length_countedCpus {reply : RawTopologyReply nc nd nm} (h : reply.header.cpuCount.toNat ≤ nc) :
    reply.countedCpus.length = reply.header.cpuCount.toNat := by
  rw [RawTopologyReply.countedCpus, List.length_take, Vector.length_toList, Nat.min_eq_left h]

theorem length_countedDomains {reply : RawTopologyReply nc nd nm} (h : reply.header.domainCount.toNat ≤ nd) :
    reply.countedDomains.length = reply.header.domainCount.toNat := by
  rw [RawTopologyReply.countedDomains, List.length_take, Vector.length_toList, Nat.min_eq_left h]

/-- The snapshot of a reply. -/
def decodedReply (reply : RawTopologyReply nc nd nm) : TopologySnapshot nc nd nm where
  cpus := pad nc (reply.countedCpus.map decodeCpu)
  cpuCount := reply.header.cpuCount.toNat
  domains := pad nd (reply.countedDomains.map decodedDomain)
  domainCount := reply.header.domainCount.toNat
  traitFlags := reply.header.traitFlags

/-- The first loop of `from_raw`. -/
theorem loadCpus_counted {reply : RawTopologyReply nc nd nm} (hc : reply.header.cpuCount.toNat ≤ nc) :
    loadCpus (empty : TopologySnapshot nc nd nm).cpus 0 reply.countedCpus
      = if (reply.countedCpus.map RawCpu.logicalId).Nodup then .ok (pad nc (reply.countedCpus.map decodeCpu))
        else invalid := by
  have hlen := length_countedCpus hc
  have hload := loadCpus_pad [] reply.countedCpus (show 0 + _ ≤ nc by omega) List.nodup_nil
  rw [List.map_nil, pad_nil, List.nil_append, List.length_nil] at hload
  exact hload

/-- The second loop of `from_raw`. -/
theorem loadDomains_counted {reply : RawTopologyReply nc nd nm} (hc : reply.header.cpuCount.toNat ≤ nc)
    (hd : reply.header.domainCount.toNat ≤ nd) :
    ((reply.countedDomains.map RawDomain.id).Nodup ∧
        (∀ raw ∈ reply.countedDomains, WellFormedDomain (reply.countedCpus.map RawCpu.logicalId) raw) ∧
        loadDomains (pad nc (reply.countedCpus.map decodeCpu)) reply.header.cpuCount.toNat
            (empty : TopologySnapshot nc nd nm).domains 0 reply.countedDomains
          = .ok (pad nd (reply.countedDomains.map decodedDomain))) ∨
      (¬ ((reply.countedDomains.map RawDomain.id).Nodup ∧
          ∀ raw ∈ reply.countedDomains, WellFormedDomain (reply.countedCpus.map RawCpu.logicalId) raw) ∧
        loadDomains (pad nc (reply.countedCpus.map decodeCpu)) reply.header.cpuCount.toNat
            (empty : TopologySnapshot nc nd nm).domains 0 reply.countedDomains
          = invalid) := by
  have hlenC := length_countedCpus hc
  have hlenD := length_countedDomains hd
  have hload := loadDomains_pad reply.countedCpus (show _ ≤ nc by omega) [] reply.countedDomains
    (show 0 + _ ≤ nd by omega) List.nodup_nil
  rw [List.map_nil, pad_nil, List.nil_append, List.length_nil, hlenC] at hload
  exact hload

/-- **`from_raw` in closed form**: a well-formed reply is decoded, any other is invalid. -/
theorem fromRaw_cases (reply : RawTopologyReply nc nd nm) :
    (WellFormedReply reply ∧ fromRaw reply = .ok (decodedReply reply)) ∨
      (¬ WellFormedReply reply ∧ fromRaw reply = invalid) := by
  rw [fromRaw]
  by_cases hcounts : reply.header.cpuCount.toNat = 0 ∨ reply.header.domainCount.toNat = 0
      ∨ nc < reply.header.cpuCount.toNat ∨ nd < reply.header.domainCount.toNat
  · refine Or.inr ⟨?_, by simp only [if_pos hcounts]⟩
    intro h
    have hc := h.cpu_count
    have hd := h.domain_count
    omega
  · rw [if_neg hcounts]
    simp only [not_or, Nat.not_lt] at hcounts
    obtain ⟨hc0, hd0, hc, hd⟩ := hcounts
    have hcpus : sliceTo (ε := KairosError) reply.cpus.toList reply.header.cpuCount.toNat
        = .ok reply.countedCpus := sliceTo_eq (by simpa using hc)
    have hdomains : sliceTo (ε := KairosError) reply.domains.toList reply.header.domainCount.toNat
        = .ok reply.countedDomains := sliceTo_eq (by simpa using hd)
    have hfilled : sliceTo (ε := KairosError) (pad nd (reply.countedDomains.map decodedDomain)).toList
        reply.header.domainCount.toNat = .ok (reply.countedDomains.map decodedDomain) := by
      have hlen := length_countedDomains hd
      rw [← hlen]
      exact sliceTo_pad_map decodedDomain (by omega)
    simp only [hcpus, hdomains, bind, Except.bind, loadCpus_counted hc]
    by_cases hnodup : (reply.countedCpus.map RawCpu.logicalId).Nodup
    · simp only [if_pos hnodup]
      rcases loadDomains_counted hc hd with ⟨hdistinct, hall, hload⟩ | ⟨hbad, hload⟩
      · simp only [hload, hfilled]
        cases horphaned : orphaned (reply.countedDomains.map decodedDomain) with
        | true =>
            refine Or.inr ⟨fun h => ?_, rfl⟩
            rw [(orphaned_map _).mpr h.parent] at horphaned
            cases horphaned
        | false =>
            exact Or.inl ⟨⟨⟨by omega, hc⟩, ⟨by omega, hd⟩, hnodup, hdistinct, hall,
              (orphaned_map _).mp horphaned⟩, rfl⟩
      · rw [hload]
        exact Or.inr ⟨fun h => hbad ⟨h.domains_distinct, h.domain⟩, rfl⟩
    · rw [if_neg hnodup]
      exact Or.inr ⟨fun h => hnodup h.cpus_distinct, rfl⟩

/-- A reply that is decoded is well-formed, and its snapshot is the decoded reply. -/
theorem fromRaw_ok {reply : RawTopologyReply nc nd nm} {s : TopologySnapshot nc nd nm} :
    fromRaw reply = .ok s ↔ WellFormedReply reply ∧ s = decodedReply reply := by
  rcases fromRaw_cases reply with ⟨hok, heq⟩ | ⟨hbad, heq⟩
  · rw [heq]
    exact ⟨fun h => ⟨hok, (Except.ok.inj h).symm⟩, fun h => by rw [h.2]⟩
  · rw [heq]
    exact ⟨fun h => (nomatch h), fun h => absurd h.1 hbad⟩

/-- `c` is `raw`, decoded field by field: the four known kinds have the codes `0` to `3`, and any word but zero
    enables a CPU. -/
structure DecodesCpu (raw : RawCpu) (c : CpuDescriptor) : Prop where
  logicalId : c.logicalId = raw.logicalId
  hardwareId : c.hardwareId = raw.hardwareId
  package : c.package = raw.package
  core : c.core = raw.core
  thread : c.thread = raw.thread
  numaDomain : c.numaDomain = raw.numaDomain
  symmetric : c.kind = .symmetric ↔ raw.kind = 0
  performance : c.kind = .performance ↔ raw.kind = 1
  efficiency : c.kind = .efficiency ↔ raw.kind = 2
  offload : c.kind = .offload ↔ raw.kind = 3
  enabled : c.enabled = true ↔ raw.enabled ≠ 0

/-- `d` is `raw`, decoded field by field. -/
structure DecodesDomain (raw : RawDomain nm) (d : DomainDescriptor nm) : Prop where
  id : d.id = raw.id
  kind : d.kind = if raw.kind = numaKind then .numa else .machine
  parent : d.parent = if raw.parentValid ≠ 0 then some raw.parentId else none
  members : d.memberSlice (ε := Empty) = .ok raw.countedMembers

/-- `s` is `reply`, decoded: `cpus()` and `domains()` list the counted records in order, each field by field. -/
structure DecodesReply (reply : RawTopologyReply nc nd nm) (s : TopologySnapshot nc nd nm) : Prop where
  cpus : ∃ cs, s.cpuSlice (ε := Empty) = .ok cs ∧ List.Forall₂ DecodesCpu reply.countedCpus cs
  domains : ∃ ds, s.domainSlice (ε := Empty) = .ok ds ∧ List.Forall₂ DecodesDomain reply.countedDomains ds
  traitFlags : s.traitFlags = reply.header.traitFlags

/-- The table of kinds, for every byte. -/
theorem cpuKind_fromRaw (value : U8) :
    (CpuKind.fromRaw value = .symmetric ↔ value = 0) ∧ (CpuKind.fromRaw value = .performance ↔ value = 1) ∧
      (CpuKind.fromRaw value = .efficiency ↔ value = 2) ∧ (CpuKind.fromRaw value = .offload ↔ value = 3) := by
  revert value
  decide +kernel

theorem decodesCpu (raw : RawCpu) : DecodesCpu raw (decodeCpu raw) := by
  obtain ⟨h0, h1, h2, h3⟩ := cpuKind_fromRaw raw.kind
  exact ⟨rfl, rfl, rfl, rfl, rfl, rfl, h0, h1, h2, h3, bne_iff_ne⟩

theorem decodesDomain {raw : RawDomain nm} (h : raw.memberCount.toNat ≤ nm) :
    DecodesDomain raw (decodedDomain raw) where
  id := rfl
  kind := rfl
  parent := by simp [decodedDomain]
  members := memberSlice_decodedDomain h

section

variable {ε : Type} {reply : RawTopologyReply nc nd nm}

/-- `cpus()` of a decoded reply. -/
theorem cpuSlice_decodedReply (h : reply.header.cpuCount.toNat ≤ nc) :
    (decodedReply reply).cpuSlice (ε := ε) = .ok (reply.countedCpus.map decodeCpu) := by
  show sliceTo (pad nc (reply.countedCpus.map decodeCpu)).toList reply.header.cpuCount.toNat = _
  rw [← length_countedCpus h]
  exact sliceTo_pad_map decodeCpu (by rwa [length_countedCpus h])

/-- `domains()` of a decoded reply. -/
theorem domainSlice_decodedReply (h : reply.header.domainCount.toNat ≤ nd) :
    (decodedReply reply).domainSlice (ε := ε) = .ok (reply.countedDomains.map decodedDomain) := by
  show sliceTo (pad nd (reply.countedDomains.map decodedDomain)).toList reply.header.domainCount.toNat = _
  rw [← length_countedDomains h]
  exact sliceTo_pad_map decodedDomain (by rwa [length_countedDomains h])

theorem decodesReply (h : WellFormedReply reply) : DecodesReply reply (decodedReply reply) := by
  refine ⟨⟨_, cpuSlice_decodedReply h.cpu_count.2, ?_⟩, ⟨_, domainSlice_decodedReply h.domain_count.2, ?_⟩, rfl⟩
  · rw [List.forall₂_map_right_iff, List.forall₂_same]
    intro raw _
    exact decodesCpu raw
  · rw [List.forall₂_map_right_iff, List.forall₂_same]
    intro raw hraw
    exact decodesDomain (h.domain raw hraw).members_fit

end

/-- **Topology replies are decoded exactly.** For every reply, `from_raw` succeeds just when the reply is
    well-formed, never indexes out of range, and then `cpus()` and `domains()` list the counted records in
    order, decoded field by field. -/
theorem fromRaw_exact (reply : RawTopologyReply nc nd nm) :
    ((∃ s, fromRaw reply = .ok s) ↔ WellFormedReply reply) ∧
    fromRaw reply ≠ .error .outOfRange ∧
    ∀ s, fromRaw reply = .ok s → DecodesReply reply s := by
  refine ⟨?_, ?_, ?_⟩
  · constructor
    · rintro ⟨s, hs⟩
      exact (fromRaw_ok.mp hs).1
    · intro h
      exact ⟨_, fromRaw_ok.mpr ⟨h, rfl⟩⟩
  · rcases fromRaw_cases reply with ⟨-, heq⟩ | ⟨-, heq⟩
    · rw [heq]
      exact fun h => nomatch h
    · rw [heq]
      exact fun h => nomatch h
  · intro s hs
    obtain ⟨hok, rfl⟩ := fromRaw_ok.mp hs
    exact decodesReply hok

/-- Two CPUs, one of them enabled, in a machine domain and a NUMA domain below it. -/
def sampleReply : RawTopologyReply 2 2 2 where
  header := ⟨2, 2, 3⟩
  cpus := #v[⟨7, 70, 0, 0, 0, 0, 1, 1⟩, ⟨8, 80, 0, 1, 0, 0, 2, 0⟩]
  domains := #v[⟨0, 0, 0, 0, 2, #v[7, 8]⟩, ⟨1, 1, 1, 0, 1, #v[7, 0]⟩]

theorem sampleReply_decoded :
    ∃ s, fromRaw sampleReply = .ok s ∧ WellFormedReply sampleReply ∧ s.traitFlags = 3 ∧
      s.cpuSlice (ε := Empty)
        = .ok [⟨7, 70, 0, 0, 0, 0, .performance, true⟩, ⟨8, 80, 0, 1, 0, 0, .efficiency, false⟩] ∧
      s.domainSlice (ε := Empty)
        = .ok [⟨0, .machine, none, #v[7, 8], 2⟩, ⟨1, .numa, some 0, #v[7, 0xffff], 1⟩] := by
  have hread : (fromRaw sampleReply).toOption.map
      (fun s => (s.cpuSlice (ε := Empty), s.domainSlice (ε := Empty))) = some
        (.ok [⟨7, 70, 0, 0, 0, 0, .performance, true⟩, ⟨8, 80, 0, 1, 0, 0, .efficiency, false⟩],
          .ok [⟨0, .machine, none, #v[7, 8], 2⟩, ⟨1, .numa, some 0, #v[7, 0xffff], 1⟩]) := by
    decide +kernel
  cases hload : fromRaw sampleReply with
  | error err =>
      rw [hload] at hread
      cases hread
  | ok s =>
      rw [hload] at hread
      obtain ⟨hcpus, hdomains⟩ := Prod.mk.inj (Option.some.inj hread)
      obtain ⟨hiff, -, hdecoded⟩ := fromRaw_exact sampleReply
      exact ⟨s, rfl, hiff.mp ⟨s, hload⟩, (hdecoded s hload).traitFlags, hcpus, hdomains⟩

end Slope.Kairos
