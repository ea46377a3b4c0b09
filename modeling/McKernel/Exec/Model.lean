import McKernel.ExecArgs.Model
import McKernel.Lib.CInt
import McKernel.Lib.Ledger

/-!
# `do_execveat`

An `execve` or `execveat` from the check of the file name to the switch to the new program or
the return to the old one: the two requests to the host, the flattened arguments and
environment, and everything of the calling program that is changed on the way.  What the host,
the allocators and the memory of the caller may do is an input.
-/

namespace McKernel.Exec

open Errno
open ExecArgs (Flat Str wordSize)

/-- A `vm_range`: its addresses and `VR_PROT_READ`. -/
structure Range where
  start : Nat
  stop : Nat
  readable : Bool
  deriving DecidableEq, Repr

structure Region where
  textStart : Nat
  textEnd : Nat
  dataStart : Nat
  dataEnd : Nat
  mapStart : Nat
  mapEnd : Nat
  brkStart : Nat
  brkEnd : Nat
  deriving DecidableEq, Repr

/-- The registers of the program. -/
structure UserContext where
  rip : Nat
  rsp : Nat
  others : List Nat
  deriving DecidableEq, Repr

inductive Handler where
  | ignore
  | default
  | catch (address : Nat)
  deriving DecidableEq, Repr

structure SigStack where
  sp : Nat
  disabled : Bool
  size : Nat
  deriving DecidableEq, Repr

/-- The calling thread and its process. -/
structure Proc where
  ranges : List Range
  region : Region
  uctx : UserContext
  fpRegs : List Nat
  action : List Handler
  sigstack : SigStack
  /-- The count of `preempt_disable`. -/
  noPreempt : Int
  /-- How often the address space has been torn down. -/
  munmaps : Nat
  savedCmdline : List UInt8
  /-- `PT_TRACE_EXEC` or `PTRACE_O_TRACEEXEC`. -/
  traceExec : Bool
  tracedAfterExec : Bool
  execed : Bool
  deriving DecidableEq, Repr

/-- Memory that `do_execveat` allocates for itself. -/
inductive Buffer where
  | desc
  | argvFlat
  | envpFlat
  | kfilename
  deriving DecidableEq, Repr

/-- An array of strings of the caller.  Other threads may change it, so each pass over it
finds its own; the words are those that can be read before the first that cannot. -/
structure UserArray where
  counted : List Nat
  measured : List Nat
  copied : List Nat
  strlen : Nat → Option Nat
  /-- What `strcpy_from_user` leaves behind. -/
  text : Nat → Str

/-- The loop that counts the strings up to `NULL`. -/
def countStrings : List Nat → Option Nat
  | [] => none
  | word :: rest => if word = 0 then some 0 else (countStrings rest).map (· + 1)

/-- The loop that adds up the lengths. -/
def measureStrings (strlen : Nat → Option Nat) : Nat → List Nat → Option Nat
  | 0, _ => some 0
  | _ + 1, [] => none
  | remaining + 1, userp :: rest => do
    let len ← strlen userp
    let others ← measureStrings strlen remaining rest
    return wordSize + len + 1 + others

/-- The loop that copies them. -/
def copyStrings (text : Nat → Str) : Nat → List Nat → Option (List Str)
  | 0, _ => some []
  | _ + 1, [] => none
  | remaining + 1, userp :: rest => (copyStrings text remaining rest).map (text userp :: ·)

/-- What a call of `flatten_strings_from_user` returns, `*flat`, and the ledger. -/
structure Flattened where
  ret : Int
  flat : Option Flat
  ledger : Ledger Buffer

/-- `flatten_strings_from_user`; `kmalloc` says whether the allocation succeeds. -/
def flattenStringsFromUser (kmalloc : Bool) (buffer : Buffer) (preStrings : Option Flat)
    (strings : Option UserArray) (ledger : Ledger Buffer) : Flattened :=
  match strings with
  | none =>
    if kmalloc then
      let flat := ExecArgs.flattenStringsFromUser preStrings none
      ⟨flat.len, some flat, ledger.take buffer⟩
    else ⟨ENOMEM.code, none, ledger⟩
  | some array =>
    match countStrings array.counted with
    | none => ⟨EFAULT.code, none, ledger⟩
    | some nrStrings =>
      match measureStrings array.strlen nrStrings array.measured with
      | none => ⟨EFAULT.code, none, ledger⟩
      | some _ =>
        if kmalloc then
          match copyStrings array.text nrStrings array.copied with
          -- `*flat` is not set yet
          | none => ⟨EFAULT.code, none, ledger.take buffer⟩
          | some strings =>
            let flat := ExecArgs.flattenStringsFromUser preStrings (some strings)
            ⟨CInt.toInt flat.len, some flat, ledger.take buffer⟩
        else ⟨ENOMEM.code, none, ledger⟩

/-- A `program_image_section`. -/
structure Section where
  vaddr : Nat
  len : Nat
  protRead : Bool
  protExec : Bool
  interp : Bool
  deriving DecidableEq, Repr

/-- The `program_load_desc` that the host fills in. -/
structure Desc where
  sections : List Section
  entry : Nat
  reloc : Bool
  interpAlign : Nat
  /-- The arguments of a script's interpreter. -/
  args : Option Flat
  enableVdso : Bool
  deriving DecidableEq, Repr

/-- What can fail in `prepare_process_ranges_args_envs`, and where the vdso and the stack go. -/
structure Prepare where
  sectionFails : Nat → Bool
  argsPages : Bool
  argsRange : Bool
  cmdline : Bool
  vdso : Option Range
  stack : Option (Range × Nat)

/-- What the host, the allocators and the memory of the caller do during a call. -/
structure Host where
  descPages : Bool
  /-- The first request: its result and what it leaves in the descriptor. -/
  phase1 : Int × Desc
  argvKmalloc : Bool
  envpKmalloc : Bool
  filenameKmalloc : Bool
  prepare : Prepare
  /-- The second request: transfer the ELF image. -/
  phase2 : Int

/-- How a call ends. -/
inductive Outcome where
  | returned (ret : Int) (proc : Proc) (ledger : Ledger Buffer)
  | switched (proc : Proc) (ledger : Ledger Buffer)
  | panicked
  deriving DecidableEq, Repr

def Proc.preemptEnable (proc : Proc) : Proc := { proc with noPreempt := proc.noPreempt - 1 }

/-- `kfree` of a pointer that may be NULL. -/
def kfreeFlat (flat : Option Flat) (buffer : Buffer) (ledger : Ledger Buffer) : Ledger Buffer :=
  if flat.isSome then ledger.giveBack buffer else ledger

/-- From the label `end` on. -/
def finish (ret : Int) (argvFlat envpFlat : Option Flat) (proc : Proc) (ledger : Ledger Buffer) :
    Outcome :=
  let ledger := kfreeFlat envpFlat .envpFlat ledger
  let ledger := kfreeFlat argvFlat .argvFlat ledger
  let ledger := ledger.giveBack .desc
  if ret = 0 then .switched proc.preemptEnable ledger else .returned (CInt.toInt ret) proc ledger

end McKernel.Exec
