import Slope.Lib.CStr

/-!
# `Env.Stack` — arguments and environment of a process

The readers of the process entry stack: `QuantumArgv`, `QuantumEnv`, the `EnvSnapshot` that is collapsed from
it at start-up, and the runtime that does so. Pointers to words are word addresses.

The loops of the source run until they meet a terminator, so here they take fuel and answer `none` when it
runs out; over a stack image of the documented form they always return.
-/

namespace Slope.Env

def maxArgv : Nat := 64

def maxEnvVars : Nat := 128

/-- `b'='`. -/
def equalsSign : U8 := 0x3d

/-! ## Strings -/

/-- The loop of `cstr_to_bytes`. -/
def cstrLen (mem : Memory) (ptr : Nat) : Nat → Nat → Option Nat
  | 0, _ => none
  | fuel + 1, len => if mem.byte (ptr + len) ≠ 0 then cstrLen mem ptr fuel (len + 1) else some len

def cstrToBytes (mem : Memory) (fuel ptr : Nat) : Option ByteSlice :=
  (cstrLen mem ptr fuel 0).map fun len => ⟨ptr, len⟩

def fnvOffset : U64 := 0xcbf29ce484222325

def fnvPrime : U64 := 0x100000001b3

def fnv1aConst (bytes : List U8) : U64 :=
  bytes.foldl (fun hash b => (hash ^^^ b.setWidth 64) * fnvPrime) fnvOffset

/-! ## Arguments -/

structure QuantumArgv where
  base : Nat
  argc : Nat
deriving DecidableEq

namespace QuantumArgv

def fromStack (mem : Memory) (stackPtr : Nat) : QuantumArgv :=
  let argc := (mem.word stackPtr).toNat
  -- the clamped count is the only one that is kept
  { base := stackPtr, argc := if argc < maxArgv then argc else maxArgv }

def get (argv : QuantumArgv) (mem : Memory) (fuel index : Nat) : Option (Option ByteSlice) :=
  if argv.argc ≤ index then some none
  else
    let ptr := mem.word (argv.base + (1 + index))
    if ptr = 0 then some none else (cstrToBytes mem fuel ptr.toNat).map some

def envpBase (argv : QuantumArgv) : Nat := argv.base + (1 + argv.argc + 1)

end QuantumArgv

/-! ## Environment -/

structure QuantumEnv where
  base : Nat

def QuantumEnv.fromPtr (envpBase : Nat) : QuantumEnv := ⟨envpBase⟩

/-- The loop over the envp block: `visit` is its body, given the word the pointer was read from and the string
    it leads to. -/
def QuantumEnv.scan {σ : Type} (env : QuantumEnv) (mem : Memory) (fuel : Nat)
    (visit : σ → Nat → ByteSlice → σ) : Nat → Nat → σ → Option σ
  | 0, _, _ => none
  | n + 1, i, acc =>
    let ptr := mem.word (env.base + i)
    if ptr = 0 then some acc
    else
      match cstrToBytes mem fuel ptr.toNat with
      | none => none
      | some entry => env.scan mem fuel visit n (i + 1) (visit acc (env.base + i) entry)

structure EnvEntry where
  keyHash : U64
  value : Nat
  valueLen : U16
deriving DecidableEq

/-- The bytes an entry stands for. -/
def EnvEntry.slice (e : EnvEntry) : ByteSlice := ⟨e.value, e.valueLen.toNat⟩

structure EnvSnapshot where
  entries : Vector EnvEntry maxEnvVars
  count : Nat

namespace EnvSnapshot

def empty : EnvSnapshot where
  entries := Vector.replicate maxEnvVars ⟨0, 0, 0⟩
  count := 0

/-- `self.entries[..self.count]`. -/
def live (snap : EnvSnapshot) : List EnvEntry := snap.entries.toList.take snap.count

/-- `entry.iter().position(|&b| b == b'=')`. -/
def separator (bytes : List U8) : Option Nat := bytes.findIdx? (· == equalsSign)

/-- The entry of a string with the separator at `sep`. -/
def entryAt (mem : Memory) (entry : ByteSlice) (sep : Nat) : EnvEntry where
  keyHash := fnv1aConst ((entry.bytes mem).take sep)
  value := entry.ptr + (sep + 1)
  valueLen := BitVec.ofNat 16 (min (entry.len - (sep + 1)) 0xffff)

/-- The body of `collapse`'s loop. -/
def store (mem : Memory) (snap : EnvSnapshot) (entry : ByteSlice) : EnvSnapshot :=
  match separator (entry.bytes mem) with
  | none => snap
  | some sep =>
    if h : snap.count < maxEnvVars then
      { entries := snap.entries.set snap.count (entryAt mem entry sep) h, count := snap.count + 1 }
    else snap

def collapse (mem : Memory) (fuel : Nat) (env : QuantumEnv) : Option EnvSnapshot :=
  env.scan mem fuel (fun snap _ entry => store mem snap entry) fuel 0 empty

end EnvSnapshot

/-! ## The runtime -/

/-- The boot negotiation with the kernel, on which the environment does not depend. -/
structure KairosApi where
  BootError : Type
  Init : Type
  Workload : Type
  Affinity : Type
  Partition : Type
  run : U64 → U64 → Except BootError Init
  computeAffinity : Init → Workload → Affinity
  partitionWork : Init → Nat → Partition

structure ProcessRuntime (api : KairosApi) where
  argv : QuantumArgv
  environment : EnvSnapshot
  kairos : api.Init
  affinity : api.Affinity
  partition : api.Partition

/-- `ProcessRuntime::initialize`. -/
def ProcessRuntime.initializeAt (api : KairosApi) (mem : Memory) (fuel stackPtr : Nat)
    (requiredFeatures optionalFeatures : U64) (workload : api.Workload) (workUnits : Nat) :
    Option (Except api.BootError (ProcessRuntime api)) := do
  let argv := QuantumArgv.fromStack mem stackPtr
  let environmentView := QuantumEnv.fromPtr argv.envpBase
  let environment ← EnvSnapshot.collapse mem fuel environmentView
  return (api.run requiredFeatures optionalFeatures).map fun kairos =>
    { argv
      environment
      kairos
      affinity := api.computeAffinity kairos workload
      partition := api.partitionWork kairos workUnits }

end Slope.Env
