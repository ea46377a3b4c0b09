import McKernel.Vm.RangeCache
import McKernel.Vm.RemoveView

/-!
# Checking user memory

`access_ok` walks from the range of the first byte over neighbouring ranges until it has
passed the last byte.
-/

namespace McKernel.Vm

open Errno ProcessVm Extent List

/-- `VERIFY_READ` and `VERIFY_WRITE`. -/
inductive AccessType where
  | read
  | write
  deriving DecidableEq, Repr

/-- The flag that a range needs. -/
def AccessType.prot : AccessType → Nat
  | .read => VR_PROT_READ
  | .write => VR_PROT_WRITE

variable {vm : ProcessVm} {type : AccessType} {r addr limit : Nat}

/-- Two adjacent ranges; only the first is writable. -/
def twoRanges : ProcessVm :=
  { newVm with
    ranges := fun address =>
      if address = 0x100 then ⟨0x1000, 0x3000, VR_PROT_READ ||| VR_PROT_WRITE, 0, 0, 0, 0, 0⟩
      else ⟨0x3000, 0x4000, VR_PROT_READ, 0, 0, 0, 0, 0⟩
    vmRangeTree := .node .black .nil 0x100 (.node .red .nil 0x200 .nil) }

end McKernel.Vm
