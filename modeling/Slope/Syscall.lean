import Slope.Lib.Word

/-!
# `Syscall` — what comes back from the kernel

`syscall` puts a number and six words into registers and reads `rax` back as an `isize`: a negative value is an
error, any other value the result. What the kernel answers is a parameter of each component that calls it;
this is the part of the answer that they all share.
-/

namespace Slope

/-- `SyscallError(isize)` -/
structure SyscallError where
  code : Int
  deriving DecidableEq, Repr

/-- The result of `syscall`, from the word in `rax`. -/
def syscallResult (rax : U64) : Except SyscallError U64 :=
  if rax.toInt < 0 then .error ⟨rax.toInt⟩ else .ok rax

end Slope
