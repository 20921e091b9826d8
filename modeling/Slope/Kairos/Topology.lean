import Slope.Lib.Bytes

/-!
# `Kairos.Topology` — the machine topology a process receives

The kernel answers a topology query with a fixed-size record, `RawTopologyReply`, which belongs to the external
`kairos` crate: its array lengths are parameters here, and a field whose width the code does not fix is given
the widest type the code accepts. `from_raw` validates the record and decodes it into a `TopologySnapshot` in
one pass, checking each entry against the part of the snapshot that is already filled.

Slices and indices are the checked ones of `Lib.Bytes`.
-/

namespace Slope.Kairos

open Slope

inductive KairosError where
  | syscall (code : Int)
  | notReady
  | busy
  | invalidTopology
deriving DecidableEq

/-! ## The wire record -/

structure RawCpu where
  logicalId : U16
  hardwareId : U32
  package : U16
  core : U16
  thread : U16
  numaDomain : U16
  kind : U8
  enabled : U64
deriving DecidableEq

structure RawDomain (nm : Nat) where
  id : U16
  kind : U8
  parentValid : U64
  parentId : U16
  memberCount : U16
  members : Vector U16 nm
deriving DecidableEq

structure RawHeader where
  cpuCount : U64
  domainCount : U64
  traitFlags : U32
deriving DecidableEq

/-- `nc`, `nd` and `nm` are `MAXIMUM_CPUS`, `MAXIMUM_DOMAINS` and `MAXIMUM_CPUS_PER_DOMAIN`. -/
structure RawTopologyReply (nc nd nm : Nat) where
  header : RawHeader
  cpus : Vector RawCpu nc
  domains : Vector (RawDomain nm) nd

/-! ## The decoded records -/

inductive CpuKind where
  | symmetric | performance | efficiency | offload | unknown
deriving DecidableEq

def CpuKind.fromRaw (value : U8) : CpuKind :=
  match value.toNat with
  | 0 => symmetric
  | 1 => performance
  | 2 => efficiency
  | 3 => offload
  | _ => unknown

structure CpuDescriptor where
  logicalId : U16
  hardwareId : U32
  package : U16
  core : U16
  thread : U16
  numaDomain : U16
  kind : CpuKind
  enabled : Bool
deriving DecidableEq

def CpuDescriptor.empty : CpuDescriptor where
  logicalId := 0xffff
  hardwareId := 0
  package := 0
  core := 0
  thread := 0
  numaDomain := 0
  kind := .unknown
  enabled := false

instance : Inhabited CpuDescriptor := ⟨.empty⟩

inductive DomainKind where
  | machine | numa
deriving DecidableEq

/-- `DomainKind::Numa as u8` -/
def numaKind : U8 := 1

structure DomainDescriptor (nm : Nat) where
  id : U16
  kind : DomainKind
  parent : Option U16
  members : Vector U16 nm
  memberCount : Nat
deriving DecidableEq

variable {nc nd nm : Nat} {ε : Type}

def DomainDescriptor.empty : DomainDescriptor nm where
  id := 0xffff
  kind := .machine
  parent := none
  members := Vector.replicate nm 0xffff
  memberCount := 0

instance : Inhabited (DomainDescriptor nm) := ⟨.empty⟩

/-- The accessor `members()`. -/
def DomainDescriptor.memberSlice (d : DomainDescriptor nm) : Except (Fault ε) (List U16) :=
  sliceTo d.members.toList d.memberCount

structure TopologySnapshot (nc nd nm : Nat) where
  cpus : Vector CpuDescriptor nc
  cpuCount : Nat
  domains : Vector (DomainDescriptor nm) nd
  domainCount : Nat
  traitFlags : U32

namespace TopologySnapshot

def empty : TopologySnapshot nc nd nm where
  cpus := Vector.replicate nc .empty
  cpuCount := 0
  domains := Vector.replicate nd .empty
  domainCount := 0
  traitFlags := 0

/-- The accessor `cpus()`. -/
def cpuSlice (s : TopologySnapshot nc nd nm) : Except (Fault ε) (List CpuDescriptor) :=
  sliceTo s.cpus.toList s.cpuCount

/-- The accessor `domains()`. -/
def domainSlice (s : TopologySnapshot nc nd nm) : Except (Fault ε) (List (DomainDescriptor nm)) :=
  sliceTo s.domains.toList s.domainCount

/-! ## `from_raw` -/

abbrev Checked (α : Type) := Except (Fault KairosError) α

def invalid {α : Type} : Checked α := .error (.failed .invalidTopology)

def decodeCpu (raw : RawCpu) : CpuDescriptor where
  logicalId := raw.logicalId
  hardwareId := raw.hardwareId
  package := raw.package
  core := raw.core
  thread := raw.thread
  numaDomain := raw.numaDomain
  kind := CpuKind.fromRaw raw.kind
  enabled := raw.enabled != 0

/-- The loop over the counted CPUs, from position `i` on. -/
def loadCpus (cpus : Vector CpuDescriptor nc) (i : Nat) : List RawCpu → Checked (Vector CpuDescriptor nc)
  | [] => .ok cpus
  | raw :: rest => do
    let earlier ← sliceTo cpus.toList i
    if earlier.any (fun cpu => cpu.logicalId == raw.logicalId) then invalid
    else
      let cpus ← storeAt cpus i (decodeCpu raw)
      loadCpus cpus (i + 1) rest

/-- The member copying loop, with `remaining` members to go. -/
def copyMembers (raw : RawDomain nm) (members : Vector U16 nm) (i : Nat) : Nat → Checked (Vector U16 nm)
  | 0 => .ok members
  | remaining + 1 => do
    let logicalId ← index raw.members.toList i
    let members ← storeAt members i logicalId
    copyMembers raw members (i + 1) remaining

/-- The condition under which the loop over the domains refuses an entry. `cpus` and `domains` are the
    snapshot so far, with `i` domains filled. -/
def refusesDomain (cpus : Vector CpuDescriptor nc) (cpuCount : Nat) (domains : Vector (DomainDescriptor nm) nd)
    (i : Nat) (raw : RawDomain nm) : Checked Bool := do
  let memberCount := raw.memberCount.toNat
  if nm < memberCount || numaKind < raw.kind then pure true
  else
    let earlier ← sliceTo domains.toList i
    if earlier.any (fun domain => domain.id == raw.id) then pure true
    else
      let members ← sliceTo raw.members.toList memberCount
      -- the members are compared among themselves as the kernel sent them, then with the decoded CPUs
      let repeated ← members.zipIdx.anyM fun (logicalId, memberIndex) => do
        let before ← sliceTo raw.members.toList memberIndex
        pure (before.contains logicalId)
      if repeated then pure true
      else
        members.anyM fun logicalId => do
          let counted ← sliceTo cpus.toList cpuCount
          pure !(counted.any fun cpu => cpu.logicalId == logicalId)

def decodeDomain (raw : RawDomain nm) : Checked (DomainDescriptor nm) := do
  let members ← copyMembers raw DomainDescriptor.empty.members 0 raw.memberCount.toNat
  pure
    { id := raw.id
      kind := if raw.kind = numaKind then .numa else .machine
      parent := if raw.parentValid != 0 then some raw.parentId else none
      members
      memberCount := raw.memberCount.toNat }

/-- The loop over the counted domains, from position `i` on. -/
def loadDomains (cpus : Vector CpuDescriptor nc) (cpuCount : Nat) (domains : Vector (DomainDescriptor nm) nd)
    (i : Nat) : List (RawDomain nm) → Checked (Vector (DomainDescriptor nm) nd)
  | [] => .ok domains
  | raw :: rest => do
    if ← refusesDomain cpus cpuCount domains i raw then invalid
    else
      let domain ← decodeDomain raw
      let domains ← storeAt domains i domain
      loadDomains cpus cpuCount domains (i + 1) rest

/-- Some counted domain names a parent that is not counted. -/
def orphaned (domains : List (DomainDescriptor nm)) : Bool :=
  domains.any fun domain => domain.parent.any fun parent => !(domains.any fun candidate => candidate.id == parent)

/-- On a 64-bit target the conversions of the two counts to `usize` cannot fail. -/
def fromRaw (reply : RawTopologyReply nc nd nm) : Checked (TopologySnapshot nc nd nm) := do
  let cpuCount := reply.header.cpuCount.toNat
  let domainCount := reply.header.domainCount.toNat
  if cpuCount = 0 ∨ domainCount = 0 ∨ nc < cpuCount ∨ nd < domainCount then invalid
  else
    let snapshot : TopologySnapshot nc nd nm := empty
    let rawCpus ← sliceTo reply.cpus.toList cpuCount
    let cpus ← loadCpus snapshot.cpus 0 rawCpus
    let rawDomains ← sliceTo reply.domains.toList domainCount
    let domains ← loadDomains cpus cpuCount snapshot.domains 0 rawDomains
    -- a parent may be listed after its children, so parents are looked up once all domains are in
    let counted ← sliceTo domains.toList domainCount
    if orphaned counted then invalid
    else pure { cpus, cpuCount, domains, domainCount, traitFlags := reply.header.traitFlags }

end TopologySnapshot

end Slope.Kairos
