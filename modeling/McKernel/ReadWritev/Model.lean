import McKernel.Lib.Memory
import McKernel.Paging.Model

/-!
# `process_vm_readv` and `process_vm_writev`

The model of `do_process_vm_read_writev` in `arch/x86_64/kernel/syscall.c`.  The call walks
through two arrays of buffers at once, those of the caller and those of another process,
and copies as much per round as the current buffers and the current remote page allow.

The ranges of both address spaces are those of `McKernel.Vm`.  What the remote page table
answers, whether the pages that are faulted in can be had, and where a local address is
mapped when it is accessed, are arbitrary functions of the number of steps made so far.
The arrays themselves stay as they are during the call.
-/

namespace McKernel.ReadWritev

open Vm (ProcessVm VmRange hasFlag VR_PROT_READ VR_PROT_WRITE lookupProcessMemoryRange)
open Paging (Iovec Cursor PageSize pagesBetween)

def iovMax : Nat := 1024

/-- `PROCESS_VM_READ` and `PROCESS_VM_WRITE`. -/
inductive Op where
  | read
  | write
  deriving DecidableEq, Repr

def Op.localProt : Op → Nat
  | .read => VR_PROT_WRITE
  | .write => VR_PROT_READ

def Op.remoteProt : Op → Nat
  | .read => VR_PROT_READ
  | .write => VR_PROT_WRITE

/-- The user and group ids of a process. -/
structure Cred where
  ruid : Nat
  euid : Nat
  suid : Nat
  rgid : Nat
  egid : Nat
  sgid : Nat
  deriving DecidableEq, Repr

/-- The process that a call is about. `gone` stands for `PS_EXITED` and `PS_ZOMBIE`. -/
structure RemoteProcess where
  gone : Bool
  cred : Cred
  vm : Nat
  deriving DecidableEq, Repr

/-- The arguments of a call: where the arrays are, and the buffers in them. `stray` is what
lies behind the array of the remote buffers. -/
structure Call where
  op : Op
  flags : Nat
  localIov : Nat
  remoteIov : Nat
  liov : List Iovec
  riov : List Iovec
  stray : Nat → Iovec

/-- `remote_iov[index]`. -/
def Call.remoteAt (call : Call) (index : Nat) : Iovec :=
  call.riov.getD index (call.stray index)

/-- What the call finds: the calling process, the process with the pid of the call, and the
answers of the page tables by the number of the step. -/
structure Env where
  lvm : Nat
  lcred : Cred
  rproc : Option RemoteProcess
  virtToPhys : Nat → Nat → Option (Nat × PageSize)
  pageFault : Nat → Bool
  localPhys : Nat → Nat → Nat

/-- One `fast_memcpy`: the current buffers and the offsets in them, the address that the
remote page has, and the size. -/
structure Copy where
  clock : Nat
  li : Nat
  loff : Nat
  ri : Nat
  roff : Nat
  phys : Nat
  size : Nat
  deriving DecidableEq, Repr

/-- The address spaces, physical memory, the number of steps, and the copies made by the
call, in order. -/
structure State where
  vms : Nat → ProcessVm
  memory : Mem
  clock : Nat
  copies : List Copy

namespace State

/-- Count a step. -/
def tick (state : State) : State := { state with clock := state.clock + 1 }

/-- Store an address space. -/
def setVm (state : State) (id : Nat) (vm : ProcessVm) : State :=
  { state with vms := Function.update state.vms id vm }

end State

def addresses (iov : Iovec) : List Nat := (List.range iov.len).map (ULong.add iov.base)

def part (iov : Iovec) (offset size : Nat) : List Nat :=
  (List.range size).map fun index => ULong.add iov.base (offset + index)

def Copy.localPart (call : Call) (copy : Copy) : List Nat :=
  part (call.liov.getD copy.li ⟨0, 0⟩) copy.loff copy.size

def Copy.remotePart (call : Call) (copy : Copy) : List Nat :=
  part (call.riov.getD copy.ri ⟨0, 0⟩) copy.roff copy.size

def Copy.moves (env : Env) (call : Call) (copy : Copy) : List (Nat × Nat) :=
  let here := (copy.localPart call).map (env.localPhys copy.clock)
  let there := (List.range copy.size).map (copy.phys + ·)
  match call.op with
  | .read => here.zip there
  | .write => there.zip here

def fastMemcpy (env : Env) (call : Call) (state : State) (copy : Copy) : State where
  vms := state.vms
  memory := state.memory.move (copy.moves env call)
  clock := state.clock + 1
  copies := state.copies ++ [copy]

def lookup (state : State) (vm start end_ : Nat) : Option VmRange × State :=
  let (found, newVm) := lookupProcessMemoryRange (state.vms vm) start end_
  (found.map (state.vms vm).ranges, state.setVm vm newVm)

/-- The checks of a new buffer: that its base is mapped, and that the first range that the
buffer meets has the protection. -/
def checkIovec (state : State) (vm : Nat) (iov : Iovec) (prot : Nat) : Option Errno × State :=
  match lookup state vm iov.base (ULong.add iov.base 1) with
  | (none, state) => (some .EFAULT, state)
  | (some _, state) =>
    match lookup state vm iov.base (ULong.add iov.base iov.len) with
    | (none, state) => (some .EINVAL, state)
    | (some range, state) =>
      if hasFlag range.flag prot then (none, state) else (some .EFAULT, state)

/-- The checks that a round starts with. The remote buffer is looked up under the index of
the local one. -/
def checkVectors (env : Env) (call : Call) (remote : Nat) (cursor : Cursor) (liov : Iovec)
    (state : State) : Option Errno × State :=
  let (failed, state) :=
    if cursor.pli = some cursor.li then (none, state)
    else checkIovec state env.lvm liov call.op.localProt
  match failed with
  | some error => (some error, state)
  | none =>
    if cursor.pri = some cursor.ri then (none, state)
    else checkIovec state remote (call.remoteAt cursor.li) call.op.remoteProt

/-- `page_fault_process_vm` with `PF_POPULATE | PF_WRITE | PF_USER`, and whether it fails. -/
def pageFaultProcessVm (env : Env) (remote : Nat) (state : State) (addr : Nat) : Bool × State :=
  match lookup state remote addr (ULong.add addr 1) with
  | (none, state) => (true, state)
  | (some range, state) =>
    if Paging.accessDenied range Paging.writeReason then (true, state)
    else (env.pageFault state.clock, state.tick)

def faultPages (env : Env) (remote : Nat) : State → List Nat → Bool × State
  | state, [] => (false, state)
  | state, addr :: rest =>
    match pageFaultProcessVm env remote state addr with
    | (true, state) => (true, state)
    | (false, state) => faultPages env remote state rest

/-- `ihk_mc_pt_virt_to_phys_size` of the remote page table; when there is no page, the pages
are faulted in and the page table is asked once more. The last page of the address space
belongs to no range, so that faulting in never goes on behind it. -/
def resolveRemote (env : Env) (remote : Nat) (state : State) (addr toCopy : Nat) :
    Option (Nat × PageSize) × State :=
  match env.virtToPhys state.clock addr with
  | some found => (some found, state.tick)
  | none =>
    match faultPages env remote state.tick (pagesBetween addr (ULong.add addr toCopy)) with
    | (true, state) => (none, state)
    | (false, state) => (env.virtToPhys state.clock addr, state.tick)

def rpageLeft (addr : Nat) (psize : PageSize) : Nat :=
  ULong.sub (ULong.roundDown psize.shift (ULong.add addr psize.bytes)) addr

def copyLoop (env : Env) (call : Call) (remote llen : Nat) :
    Nat → Cursor → State → Option (Except Errno Int × State)
  | 0, _, _ => none
  | fuel + 1, cursor, state =>
    if llen ≤ cursor.copied then some (.ok (CInt.toInt cursor.copied), state)
    else
      match call.liov[cursor.li]?, call.riov[cursor.ri]? with
      | some liov, some riov =>
        match checkVectors env call remote cursor liov state with
        | (some error, state) => some (.error error, state)
        | (none, state) =>
          let toCopy := min (liov.len - cursor.loff) (riov.len - cursor.roff)
          let addr := ULong.add riov.base cursor.roff
          match resolveRemote env remote state addr toCopy with
          | (none, state) => some (.error .EFAULT, state)
          | (some (phys, psize), state) =>
            let size := min toCopy (rpageLeft addr psize)
            copyLoop env call remote llen fuel (cursor.advance size liov riov)
              (fastMemcpy env call state
                ⟨state.clock, cursor.li, cursor.loff, cursor.ri, cursor.roff, phys, size⟩)
      | _, _ => none

/-- The total length of some buffers, a `size_t`. -/
def totalLen (iovs : List Iovec) : Nat := (iovs.map Iovec.len).sum % 2 ^ 64

/-- The caller may access the process: it is the superuser, or its real ids are all the ids
of the process. -/
def Cred.permits (lcred rcred : Cred) : Bool :=
  lcred.euid == 0 ||
    (lcred.ruid == rcred.ruid && lcred.ruid == rcred.euid && lcred.ruid == rcred.suid &&
      lcred.rgid == rcred.rgid && lcred.rgid == rcred.egid && lcred.rgid == rcred.sgid)

/-- What is checked once the arrays are known to be mapped. The result is the address space
to work on. -/
def findRemote (env : Env) (call : Call) : Except Errno Nat :=
  if totalLen call.liov ≠ totalLen call.riov then .error .EINVAL
  else
    match env.rproc with
    | none => .error .ESRCH
    | some rproc =>
      if rproc.gone then .error .ESRCH
      else if env.lcred.permits rproc.cred then .ok rproc.vm
      else .error .EPERM

def arrayEnd (array : Nat) (iovs : List Iovec) : Nat := ULong.add array (16 * iovs.length)

def startCursor : Cursor := ⟨0, 0, 0, none, none, 0, 0⟩

/-- `do_process_vm_read_writev`, with a bound on the number of rounds. -/
def doProcessVmReadWritev (env : Env) (call : Call) (fuel : Nat) (initial : State) :
    Option (Except Errno Int × State) :=
  let state := { initial with copies := [] }
  if call.flags ≠ 0 ∨ iovMax < call.liov.length ∨ iovMax < call.riov.length then
    some (.error .EINVAL, state)
  else
    match lookup state env.lvm call.localIov (arrayEnd call.localIov call.liov) with
    | (none, state) => some (.error .EFAULT, state)
    | (some _, state) =>
      match lookup state env.lvm call.remoteIov (arrayEnd call.remoteIov call.riov) with
      | (none, state) => some (.error .EFAULT, state)
      | (some _, state) =>
        match findRemote env call with
        | .error error => some (.error error, state)
        | .ok remote =>
          copyLoop env call remote (totalLen call.liov) fuel startCursor state

end McKernel.ReadWritev
