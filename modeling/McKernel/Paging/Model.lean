import McKernel.Vm.Model

/-!
# Pages and the access check of a fault

What `kernel/process.c` and `kernel/syscall.c` share about pages: their sizes and states,
the check a page fault makes before it maps anything, and the cursor of the calls that copy
between two address spaces.
-/

namespace McKernel.Paging

open Vm (VmRange hasFlag VR_PROT_WRITE VR_PROT_EXEC VR_PROT_MASK)

/-! ## Pages and page sizes -/

inductive PageSize where
  | ptl1
  | ptl2
  | ptl3
  deriving DecidableEq, Repr

namespace PageSize

/-- `PTL1_SHIFT`, `PTL2_SHIFT` and `PTL3_SHIFT`. -/
def shift : PageSize → Nat
  | ptl1 => 12
  | ptl2 => 21
  | ptl3 => 30

def bytes (size : PageSize) : Nat := 2 ^ size.shift

/-- `addr & ~(pgsize - 1)`. -/
def base (size : PageSize) (addr : Nat) : Nat := addr - addr % size.bytes

end PageSize

/-- `enum page_mode`. -/
inductive PageMode where
  | none
  | pendingFree
  | willPageio
  | pageio
  | donePageio
  | pageioEof
  | pageioError
  | mapped
  deriving DecidableEq, Repr

/-- `struct page`. -/
structure Page where
  mode : PageMode
  count : Int
  deriving DecidableEq, Repr

def Page.isInMemobj (page : Page) : Bool :=
  page.mode = .mapped || page.mode = .pageio || page.mode = .willPageio ||
    page.mode = .donePageio || page.mode = .pageioEof || page.mode = .pageioError

/-- A bit of `memobj.flags`. -/
def MF_ZEROFILL : Nat := 0x10

/-! ## The fault handler -/

/-- The bits of a fault reason that the check looks at. -/
structure Reason where
  write : Bool
  instr : Bool
  patch : Bool
  deriving DecidableEq, Repr

/-- The check that a page fault makes before it maps anything. -/
def accessDenied (range : VmRange) (reason : Reason) : Bool :=
  !hasFlag range.flag VR_PROT_MASK ||
    (reason.write && !reason.patch && !hasFlag range.flag VR_PROT_WRITE) ||
    (reason.instr && !hasFlag range.flag VR_PROT_EXEC)

/-! ## Copies between address spaces -/

/-- The pages of the addresses from `start` up to, but without, `stop`. -/
def pagesBetween (start stop : Nat) : List Nat :=
  (List.range ((stop - PageSize.ptl1.base start + 4095) / 4096)).map fun index =>
    PageSize.ptl1.base start + index * 4096

/-- `PF_POPULATE | PF_WRITE | PF_USER`. -/
def writeReason : Reason where
  write := true
  instr := false
  patch := false

/-- `struct iovec`. -/
structure Iovec where
  base : Nat
  len : Nat
  deriving DecidableEq, Repr

/-- Where `process_vm_writev` is: the bytes copied, the current and the last checked vector
on both sides, and the offsets in the current vectors. -/
structure Cursor where
  copied : Nat
  li : Nat
  ri : Nat
  pli : Option Nat
  pri : Option Nat
  loff : Nat
  roff : Nat

def Cursor.advance (cursor : Cursor) (bytes : Nat) (localIov remoteIov : Iovec) : Cursor where
  copied := cursor.copied + bytes
  li := if cursor.loff + bytes = localIov.len then cursor.li + 1 else cursor.li
  ri := if cursor.roff + bytes = remoteIov.len then cursor.ri + 1 else cursor.ri
  pli := some cursor.li
  pri := some cursor.ri
  loff := if cursor.loff + bytes = localIov.len then 0 else cursor.loff + bytes
  roff := if cursor.roff + bytes = remoteIov.len then 0 else cursor.roff + bytes

end McKernel.Paging
