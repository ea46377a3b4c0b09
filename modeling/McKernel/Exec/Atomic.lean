import McKernel.Exec.Model

/-!
# A failed `execve` leaves the program alone

Up to `munmap_all` nothing of the calling program is touched, and each error path gives back
what was allocated so far.  Two paths are different: the second request to the host may fail
when the old address space is gone, and `flatten_strings_from_user` does not free its block
when an array that it has already counted and measured cannot be read any more.
-/

namespace McKernel.Exec

open Errno List
open ExecArgs (Flat Str)

variable {host : Host} {ret : Int} {ledger : Ledger Buffer} {owed : List Buffer}
  {argvFlat envpFlat : Option Flat} {proc next : Proc}

/-- The block that a call of `flatten_strings_from_user` leaves to its caller. -/
def owedFlat (flat : Option Flat) (buffer : Buffer) : List Buffer :=
  if flat.isSome then [buffer] else []

namespace Flattened

/-- The block is owed if the caller gets it, and nothing else was taken. -/
structure Fair (result : Flattened) (buffer : Buffer) (before : Ledger Buffer) : Prop where
  taken : result.ledger.taken = owedFlat result.flat buffer ++ before.taken
  returned : result.ledger.returned = before.returned

theorem Fair.owes {res : Flattened} {buffer : Buffer} {before : Ledger Buffer}
    (fair : res.Fair buffer before) (owes : before.Owes owed) :
    res.ledger.Owes (owedFlat res.flat buffer ++ owed) := by
  rw [Ledger.Owes, fair.taken, fair.returned, append_assoc]
  exact List.Perm.append_left _ owes

end Flattened

variable {kmalloc : Bool}

/-! ## Up to `munmap_all` -/

def caller : Proc where
  ranges := [⟨0x400000, 0x600000, true⟩]
  region := ⟨0x400000, 0x500000, 0x500000, 0x600000, 0, 0, 0x600000, 0x600000⟩
  uctx := ⟨0x400100, 0x5ff000, [1, 2, 3]⟩
  fpRegs := [7]
  action := [.catch 0x400200, .ignore, .default]
  sigstack := ⟨0x5f0000, false, 8192⟩
  noPreempt := 0
  munmaps := 0
  savedCmdline := []
  traceExec := false
  tracedAfterExec := false
  execed := false

end McKernel.Exec
