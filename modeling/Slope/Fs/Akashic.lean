import Slope.Lib.Sink
import Slope.Syscall

/-!
# `Fs.Akashic` — the calls of the Akashic file system

The kernel is a parameter: it serves requests, keeps a state of its own, answers a word in `rax` and may write
to the memory it was given. `World` is that state with the exchanges so far, so that what a process has asked
of the kernel can be told. Every function of `fs.rs` is one request, but for the loop of `write_all` and the
cursor of a directory.
-/

namespace Slope.Fs

/-! ## Handles, kinds and errors -/

/-- `AkashicHandle(u64)` -/
structure AkashicHandle where
  raw : U64
  deriving DecidableEq, Repr

inductive NodeKind where
  | file
  | directory
  | device
  | hologram
  | symlink
  deriving DecidableEq, Repr

/-- The kind byte of a kernel record; every other byte is a file. -/
def NodeKind.ofByte (kind : U8) : NodeKind :=
  if kind = 1 then .directory
  else if kind = 2 then .device
  else if kind = 3 then .hologram
  else if kind = 4 then .symlink
  else .file

inductive FsError where
  | notFound
  | alreadyExists
  | permissionDenied
  | notADirectory
  | notAFile
  | directoryNotEmpty
  | invalidPath
  | handleInvalid
  | io (error : SyscallError)
  deriving DecidableEq, Repr

/-- `From<SyscallError>` -/
def FsError.ofSyscall (e : SyscallError) : FsError :=
  match e.code with
  | -2 => .notFound
  | -17 => .alreadyExists
  | -13 => .permissionDenied
  | -20 => .notADirectory
  | -9 => .handleInvalid
  | _ => .io e

namespace flags

def readIntent : U32 := 1 <<< 0

end flags

namespace seek

def fromStart : U32 := 0

end seek

/-! ## Kernel records -/

/-- `RawStat`, without its padding. -/
structure RawStat where
  sizeBytes : U64
  createdTicks : U64
  modifiedTicks : U64
  flags : U32
  kind : U8
  deriving DecidableEq, Repr

def RawStat.zeroed : RawStat := ⟨0, 0, 0, 0, 0⟩

structure AkashicStat where
  sizeBytes : U64
  createdTicks : U64
  modifiedTicks : U64
  flags : U32
  kind : NodeKind
  deriving DecidableEq, Repr

def RawStat.into (r : RawStat) : AkashicStat :=
  ⟨r.sizeBytes, r.createdTicks, r.modifiedTicks, r.flags, .ofByte r.kind⟩

def direntNameMax : Nat := 255

/-- `RawDirent`, without its padding. -/
structure RawDirent where
  name : Vector U8 direntNameMax
  nameLen : U8
  kind : U8
  deriving DecidableEq

def RawDirent.zeroed : RawDirent := ⟨.replicate direntNameMax 0, 0, 0⟩

structure Dirent where
  name : Vector U8 direntNameMax
  nameLen : U8
  kind : NodeKind
  deriving DecidableEq

def RawDirent.into (r : RawDirent) : Dirent := ⟨r.name, r.nameLen, .ofByte r.kind⟩

/-! ## The kernel -/

/-- The system calls, with what the kernel can read of the caller's memory. -/
inductive Request where
  | aopen (path : List U8) (openFlags : U32)
  | aclose (handle : AkashicHandle)
  | aread (handle : AkashicHandle) (buf : List U8)
  | awrite (handle : AkashicHandle) (buf : List U8)
  | aseek (handle : AkashicHandle) (offset : U64) (whence : U32)
  | astat (path : List U8)
  | areaddir (handle : AkashicHandle)
  | amkdir (path : List U8)
  | aunlink (path : List U8)
  | arename (source target : List U8)
  deriving DecidableEq

/-- What the kernel writes to the caller's memory. -/
@[reducible] def Request.Out : Request → Type
  | aread _ _ => List U8
  | astat _ => RawStat
  | areaddir _ => RawDirent
  | _ => Unit

/-- The handle that a request names. -/
def Request.handle? : Request → Option AkashicHandle
  | aclose handle => some handle
  | aread handle _ => some handle
  | awrite handle _ => some handle
  | aseek handle _ _ => some handle
  | areaddir handle => some handle
  | _ => none

/-- A kernel: for each request a word for `rax`, what it writes, and its next state. -/
structure Kernel (κ : Type) where
  serve : κ → (r : Request) → (U64 × r.Out) × κ

structure Exchange where
  request : Request
  rax : U64
  deriving DecidableEq

/-- The kernel's state, and what it was asked so far. -/
structure World (κ : Type) where
  kernel : κ
  log : List Exchange

section

variable {κ : Type} (k : Kernel κ)

/-- One system call. -/
def syscall (r : Request) (w : World κ) : (Except SyscallError U64 × r.Out) × World κ :=
  let ((rax, out), kernel) := k.serve w.kernel r
  ((syscallResult rax, out), ⟨kernel, w.log ++ [⟨r, rax⟩]⟩)

/-- The answer of a system call, as a file system result. -/
def ask (r : Request) (w : World κ) : Except FsError U64 × World κ :=
  let ((result, _), w) := syscall k r w
  (result.mapError .ofSyscall, w)

/-! ## The calls -/

def open' (path : List U8) (openFlags : U32) (w : World κ) : Except FsError AkashicHandle × World κ :=
  let (raw, w) := ask k (.aopen path openFlags) w
  (raw.map AkashicHandle.mk, w)

def close (handle : AkashicHandle) (w : World κ) : Except FsError Unit × World κ :=
  let (raw, w) := ask k (.aclose handle) w
  (raw.map fun _ => (), w)

/-- The second component is the buffer after the call. -/
def read (handle : AkashicHandle) (buf : List U8) (w : World κ) : (Except FsError U64 × List U8) × World κ :=
  let ((result, buf), w) := syscall k (.aread handle buf) w
  ((result.mapError .ofSyscall, buf), w)

def write (handle : AkashicHandle) (buf : List U8) (w : World κ) : Except FsError U64 × World κ :=
  ask k (.awrite handle buf) w

/-- `offset as usize` keeps the 64 bits of the `i64`. -/
def seekTo (handle : AkashicHandle) (offset : U64) (whence : U32) (w : World κ) : Except FsError U64 × World κ :=
  ask k (.aseek handle offset whence) w

def stat (path : List U8) (w : World κ) : Except FsError AkashicStat × World κ :=
  let ((result, raw), w) := syscall k (.astat path) w
  ((result.mapError .ofSyscall).map fun _ => raw.into, w)

def mkdir (path : List U8) (w : World κ) : Except FsError Unit × World κ :=
  let (raw, w) := ask k (.amkdir path) w
  (raw.map fun _ => (), w)

def unlink (path : List U8) (w : World κ) : Except FsError Unit × World κ :=
  let (raw, w) := ask k (.aunlink path) w
  (raw.map fun _ => (), w)

def rename (source target : List U8) (w : World κ) : Except FsError Unit × World κ :=
  let (raw, w) := ask k (.arename source target) w
  (raw.map fun _ => (), w)

end

/-! ## Owned files -/

structure AkashicFile where
  handle : AkashicHandle
  deriving DecidableEq

/-- How a call comes back: with a result, or not at all. -/
inductive Outcome (ρ : Type) where
  | returned (result : ρ)
  | panicked
  deriving DecidableEq

namespace AkashicFile

variable {κ : Type} (k : Kernel κ)

def open' (path : List U8) (openFlags : U32) (w : World κ) : Except FsError AkashicFile × World κ :=
  let (handle, w) := Fs.open' k path openFlags w
  (handle.map AkashicFile.mk, w)

def read (f : AkashicFile) (buf : List U8) (w : World κ) : (Except FsError U64 × List U8) × World κ :=
  Fs.read k f.handle buf w

def write (f : AkashicFile) (buf : List U8) (w : World κ) : Except FsError U64 × World κ :=
  Fs.write k f.handle buf w

/-- The calls of `write` that the loop of `write_all` makes. -/
def sink (f : AkashicFile) (buf : List U8) (w : World κ) : Except FsError Nat × World κ :=
  let (n, w) := f.write k buf w
  (n.map BitVec.toNat, w)

/-- `write_all`. A count of zero is the error `-5`; the slice `&buf[n..]` panics when `n` exceeds the length. -/
def writeAll (f : AkashicFile) (buf : List U8) (w : World κ) : Outcome (Except FsError Unit) × World κ :=
  let (ending, w) := Sink.drain (f.sink k) buf w
  match ending with
  | .done => (.returned (.ok ()), w)
  | .failed e => (.returned (.error e), w)
  | .stalled => (.returned (.error (.io ⟨-5⟩)), w)
  | .overrun => (.panicked, w)

def seek (f : AkashicFile) (offset : U64) (whence : U32) (w : World κ) : Except FsError U64 × World κ :=
  seekTo k f.handle offset whence w

def rewind (f : AkashicFile) (w : World κ) : Except FsError Unit × World κ :=
  let (result, w) := seekTo k f.handle 0 seek.fromStart w
  (result.map fun _ => (), w)

/-- `Drop`: the result of `close` is ignored. -/
def drop (f : AkashicFile) (w : World κ) : World κ := (close k f.handle w).2

end AkashicFile

/-! ## The directory cursor -/

structure AkashicDir where
  handle : AkashicHandle
  done : Bool
  deriving DecidableEq

namespace AkashicDir

variable {κ : Type} (k : Kernel κ)

def open' (path : List U8) (w : World κ) : Except FsError AkashicDir × World κ :=
  let (handle, w) := Fs.open' k path flags.readIntent w
  (handle.map fun handle => ⟨handle, false⟩, w)

/-- `next_entry`. A result of zero ends the listing for good; an error does not. -/
def nextEntry (d : AkashicDir) (w : World κ) : Except FsError (Option Dirent) × AkashicDir × World κ :=
  if d.done then (.ok none, d, w)
  else
    let ((result, raw), w) := syscall k (.areaddir d.handle) w
    match result with
    | .ok n => if n = 0 then (.ok none, { d with done := true }, w) else (.ok (some raw.into), d, w)
    | .error e => (.error (.ofSyscall e), d, w)

def drop (d : AkashicDir) (w : World κ) : World κ := (close k d.handle w).2

end AkashicDir

end Slope.Fs
