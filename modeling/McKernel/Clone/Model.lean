import McKernel.Vm.Model

/-!
# `clone` and `fork`

The model of `do_fork` in `kernel/syscall.c` and of the functions of `kernel/process.c`
that create, link, unlink and release threads and processes.  Threads, processes and
address spaces are objects on the kernel heap, named by their addresses.

A failure after the thread has been created jumps to one of three labels, from which the
rest of the function takes back what was done.  What the kernel heap, the host and the
page tables answer is arbitrary.
-/

namespace McKernel.Clone

open Errno Function
open Vm (hasFlag)

/-! ## Threads, processes and processors -/

def CSIGNAL : Nat := 0xff
def CLONE_VM : Nat := 0x100
def CLONE_VFORK : Nat := 0x4000
def CLONE_PARENT : Nat := 0x8000
def CLONE_PARENT_SETTID : Nat := 0x100000
def CLONE_CHILD_SETTID : Nat := 0x1000000
/-- Options of a traced thread. -/
def PTRACE_O_TRACEFORK : Nat := 2
@[inherit_doc PTRACE_O_TRACEFORK] def PTRACE_O_TRACEVFORK : Nat := 4
@[inherit_doc PTRACE_O_TRACEFORK] def PTRACE_O_TRACECLONE : Nat := 8
@[inherit_doc PTRACE_O_TRACEFORK] def PTRACE_O_TRACEVFORKDONE : Nat := 0x20

/-- `PT_TRACE_SYSCALL`, beside the options. -/
def PT_TRACE_SYSCALL : Nat := 0x200

def SIGTRAP : Nat := 5
def SIGCHLD : Nat := 17
def SIGSTOP : Nat := 19

/-- `struct mcexec_tid`. -/
structure TidEntry where
  tid : Int
  thread : Option Nat
  deriving DecidableEq, Repr

/-- `PS_RUNNING` and the other statuses of threads and processes. -/
inductive Status where
  | running
  | interruptible
  | uninterruptible
  | zombie
  | exited
  | stopped
  | traced
  deriving DecidableEq, Repr

/-- `struct process`: the members that a clone uses. `tids` is the table of thread ids,
`none` for null. -/
structure Process where
  refcount : Int
  tids : Option (List TidEntry)
  nrTids : Nat
  threadsList : List Nat
  reportThreadsList : List Nat
  childrenList : List Nat
  ptracedChildrenList : List Nat
  parent : Nat
  ppidParent : Nat
  pid : Int
  mainThread : Nat
  cpuSet : List Nat
  status : Status
  coredumpBarrierCount : Nat
  utiThreadRank : Nat
  cloneCount : Nat
  utiUseLastCpu : Bool
  deriving DecidableEq, Repr

def Process.addChild (child : Nat) (proc : Process) : Process :=
  { proc with childrenList := proc.childrenList ++ [child] }

def Process.removeChild (child : Nat) (proc : Process) : Process :=
  { proc with childrenList := proc.childrenList.erase child }

def Process.addPtracedChild (child : Nat) (proc : Process) : Process :=
  { proc with ptracedChildrenList := proc.ptracedChildrenList ++ [child] }

def Process.addReporter (thread : Nat) (proc : Process) : Process :=
  { proc with reportThreadsList := proc.reportThreadsList ++ [thread] }

/-- `struct process_vm` and the processors of its address space. -/
structure ProcessVm where
  refcount : Int
  proc : Nat
  cpuSet : List Nat
  deriving DecidableEq, Repr

/-- `SPAWN_TO_LOCAL`, `SPAWN_TO_REMOTE` and `SPAWNING_TO_REMOTE`. -/
inductive ModClone where
  | spawnToLocal
  | spawnToRemote
  | spawningToRemote
  deriving DecidableEq, Repr

/-- `struct thread`: the members that a clone uses. -/
structure Thread where
  refcount : Int
  proc : Nat
  vm : Nat
  tid : Int
  cpuId : Nat
  ptrace : Nat
  status : Status
  exitStatus : Nat
  ptraceEventmsg : Int
  reportProc : Option Nat
  modClone : ModClone
  modCloneArg : Bool
  clonePthreadStartRoutine : Nat
  termsig : Nat
  deriving DecidableEq, Repr

/-- `CPU_STATUS_IDLE`, `CPU_STATUS_RUNNING` and `CPU_STATUS_RESERVED`. -/
inductive CpuStatus where
  | idle
  | running
  | reserved
  deriving DecidableEq, Repr

/-- The members of `struct cpu_local_var` that a clone uses. -/
structure Cpu where
  runqLen : Int
  runqReserved : Int
  status : CpuStatus
  deriving DecidableEq, Repr

/-- The objects by address, the hash tables, and the processors by number. -/
structure State where
  threads : Nat → Thread
  processes : Nat → Process
  vms : Nat → ProcessVm
  threadHash : List Nat
  processHash : List Nat
  cpus : Nat → Cpu

/-- The arguments of `do_fork`. -/
structure Request where
  cloneFlags : Nat
  newsp : Nat
  parentTidptr : Nat
  deriving DecidableEq, Repr

/-- Where the call runs, and what is answered to it: the addresses of the new objects, `0`
for none, the path of the object mapped at an address, the results of the other allocations
and of the requests to the host. -/
structure Env where
  processorId : Nat
  numProcessors : Nat
  pid1 : Nat
  thread : Nat
  process : Nat
  vm : Nat
  memobjPath : Nat → Option (List Char)
  nrTids : Nat
  tidsBuffer : Bool
  tidsTable : Bool
  settid : Int
  hostTids : List Int
  hostFork : Int
  setintUser : Int
  childMapped : Bool
  modCloneArg : Bool
  debugreg : Bool
  hostStart : Int

namespace State

variable {state : State} {name : Nat}

def updateThread (state : State) (thread : Nat) (change : Thread → Thread) : State :=
  { state with threads := update state.threads thread (change (state.threads thread)) }

def updateProcess (state : State) (proc : Nat) (change : Process → Process) : State :=
  { state with
    processes := update state.processes proc (change (state.processes proc)) }

def updateVm (state : State) (vm : Nat) (change : ProcessVm → ProcessVm) : State :=
  { state with vms := update state.vms vm (change (state.vms vm)) }

def updateCpu (state : State) (cpu : Nat) (change : Cpu → Cpu) : State :=
  { state with cpus := update state.cpus cpu (change (state.cpus cpu)) }

end State

/-! ## Processors -/

/-- Where `obtain_clone_cpuid` is: the shortest queue, its processor, and the last other
processor with a queue of that length; `-1` for none. -/
structure Shortest where
  minQueueLen : Int
  minCpu : Int
  utiCpu : Int
  deriving DecidableEq, Repr

/-- One round of `obtain_clone_cpuid`. -/
def Shortest.visit (state : State) (cpuSet : List Nat) (found : Shortest) (cpu : Nat) :
    Shortest :=
  if cpu ∉ cpuSet then found
  else
    let length := (state.cpus cpu).runqLen + (state.cpus cpu).runqReserved
    let found :=
      if found.minQueueLen = -1 ∨ length < found.minQueueLen then
        { found with minQueueLen := length, minCpu := cpu }
      else found
    if found.minCpu ≠ cpu ∧ length = found.minQueueLen then { found with utiCpu := cpu }
    else found

/-- `obtain_clone_cpuid`. -/
def obtainCloneCpuid (env : Env) (state : State) (cpuSet : List Nat) (useLast : Bool) :
    Option (Nat × State) :=
  let found := (List.range env.numProcessors).foldl (Shortest.visit state cpuSet) ⟨-1, -1, -1⟩
  let minCpu := if useLast then found.utiCpu else found.minCpu
  if minCpu = -1 then none
  else
    some (minCpu.toNat, state.updateCpu minCpu.toNat fun cpu =>
      { cpu with status := .reserved, runqReserved := cpu.runqReserved + 1 })

def releaseCpuid (state : State) (cpuid : Nat) : State :=
  state.updateCpu cpuid fun cpu =>
    { cpu with
      status := if cpu.runqLen = 0 then .idle else cpu.status
      runqReserved := cpu.runqReserved - 1 }

/-! ## Creating and linking -/

/-- The processes that a clone can link a new process to: the process of the caller, its
parents, and the process that takes over orphans. -/
def relatives (env : Env) (state : State) (old : Nat) : List Nat :=
  let proc := (state.threads old).proc
  [proc, (state.processes proc).parent, (state.processes proc).ppidParent, env.pid1]

/-- The heap never hands out an object that is in use. -/
def fresh (env : Env) (state : State) (old : Nat) : Bool :=
  decide (env.thread ≠ old ∧ env.thread ∉ state.threadHash ∧ env.process ∉ state.processHash ∧
    env.process ∉ relatives env state old ∧ env.vm ≠ (state.threads old).vm ∧
    ∀ proc ∈ relatives env state old,
      env.process ∉ (state.processes proc).childrenList ∧
      env.process ∉ (state.processes proc).ptracedChildrenList ∧
      env.thread ∉ (state.processes proc).threadsList ∧
      env.thread ∉ (state.processes proc).reportThreadsList ∧
      ∀ table ∈ (state.processes proc).tids, ∀ entry ∈ table, entry.thread ≠ some env.thread)

/-- `chain_thread`. -/
def chainThread (state : State) (thread : Nat) : State :=
  let proc := (state.threads thread).proc
  let state := state.updateProcess proc fun proc =>
    { proc with threadsList := proc.threadsList ++ [thread] }
  let state := { state with threadHash := state.threadHash ++ [thread] }
  state.updateVm (state.threads thread).vm fun vm => { vm with refcount := vm.refcount + 1 }

/-- `chain_process`. -/
def chainProcess (state : State) (proc : Nat) : State :=
  let state := state.updateProcess (state.processes proc).parent (.addChild proc)
  { state with processHash := state.processHash ++ [proc] }

/-! ## Releasing -/

/-- `__release_tid`: only the first entry of the thread is released. -/
def releaseEntry (thread : Nat) : List TidEntry → List TidEntry
  | [] => []
  | entry :: rest =>
    if entry.thread = some thread then { entry with thread := none } :: rest
    else entry :: releaseEntry thread rest

/-- `__release_tid`. Without a table the loop over its entries stops the kernel. -/
def releaseTid (proc : Process) (thread : Nat) : Option Process :=
  if proc.nrTids = 0 then some proc
  else
    match proc.tids with
    | none => none
    | some table =>
      some { proc with
        tids := some (releaseEntry thread (table.take proc.nrTids) ++ table.drop proc.nrTids) }

/-- `destroy_thread`. -/
def destroyThread (state : State) (thread : Nat) : Option State :=
  let self := state.threads thread
  let state := { state with threadHash := state.threadHash.erase thread }
  let state := state.updateProcess self.proc fun proc =>
    { proc with threadsList := proc.threadsList.erase thread }
  let released :=
    if thread ≠ (state.processes self.proc).mainThread then
      (releaseTid (state.processes self.proc) thread).map fun proc =>
        state.updateProcess self.proc fun _ => proc
    else some state
  released.map fun state =>
    state.updateVm self.vm fun vm => { vm with cpuSet := vm.cpuSet.erase self.cpuId }

/-- `release_process`. -/
def releaseProcess (state : State) (proc : Nat) : State :=
  let state := state.updateProcess proc fun proc => { proc with refcount := proc.refcount - 1 }
  if (state.processes proc).refcount ≠ 0 then state
  else
    let state := { state with processHash := state.processHash.erase proc }
    state.updateProcess (state.processes proc).parent (.removeChild proc)

/-- `release_process_vm`. -/
def releaseProcessVm (state : State) (vm : Nat) : State :=
  let state := state.updateVm vm fun vm => { vm with refcount := vm.refcount - 1 }
  if (state.vms vm).refcount ≠ 0 then state else releaseProcess state (state.vms vm).proc

/-- `release_thread`. -/
def releaseThread (state : State) (thread : Nat) : Option State :=
  let state := state.updateThread thread fun thread =>
    { thread with refcount := thread.refcount - 1 }
  if (state.threads thread).refcount ≠ 0 then some state
  else (destroyThread state thread).map fun after =>
    releaseProcessVm after (state.threads thread).vm

/-! ## `do_fork` -/

/-- The labels that a failure jumps to. -/
inductive Label where
  | freeModCloneArg
  | releaseIds
  | destroyThread
  deriving DecidableEq, Repr

/-- How a step of `do_fork` ends when it does not go on: the kernel stops, or a jump. -/
inductive Stop where
  | crash
  | jump (label : Label) (err : Int) (state : State)

def obtainTids (env : Env) (state : State) (proc : Nat) : Except Stop State :=
  if (state.processes proc).nrTids ≠ 0 then .ok state
  else if env.tidsBuffer = false then .error (.jump .destroyThread ENOMEM.code state)
  else if env.tidsTable = false then
    .error (.jump .destroyThread ENOMEM.code
      (state.updateProcess proc fun proc => { proc with tids := none }))
  else if env.settid < 0 then
    .error (.jump .releaseIds env.settid
      (state.updateProcess proc fun proc => { proc with tids := some [] }))
  else
    let entries := ((env.hostTids.take env.nrTids).takeWhile (· ≠ 0)).map fun tid =>
      TidEntry.mk tid none
    .ok (state.updateProcess proc fun proc =>
      { proc with tids := some entries, nrTids := entries.length })

def takeEntry (thread : Nat) : List TidEntry → Option (Int × List TidEntry)
  | [] => none
  | entry :: rest =>
    if entry.thread = none then some (entry.tid, { entry with thread := some thread } :: rest)
    else (takeEntry thread rest).map fun (tid, rest) => (tid, entry :: rest)

def assignTid (env : Env) (state : State) (proc : Nat) : Except Stop State :=
  let process := state.processes proc
  if process.nrTids = 0 then .error (.jump .releaseIds ENOMEM.code state)
  else
    match process.tids with
    | none => .error .crash
    | some table =>
      match takeEntry env.thread (table.take process.nrTids) with
      | none => .error (.jump .releaseIds ENOMEM.code state)
      | some (tid, entries) =>
        let state := (state.updateProcess proc fun process =>
          { process with tids := some (entries ++ table.drop process.nrTids) }).updateThread
          env.thread fun thread => { thread with tid := tid }
        if tid = 0 then .error (.jump .releaseIds ENOMEM.code state) else .ok state

def forkHost (env : Env) (state : State) (proc : Nat) : Except Stop State :=
  let state := state.updateProcess proc fun proc => { proc with pid := env.hostFork }
  if env.hostFork < 0 then .error (.jump .destroyThread env.hostFork state)
  else .ok (state.updateThread env.thread fun thread => { thread with tid := env.hostFork })

def giveIds (env : Env) (request : Request) (state : State) : Except Stop State :=
  let proc := (state.threads env.thread).proc
  if hasFlag request.cloneFlags CLONE_VM then do
    let state ← obtainTids env state proc
    assignTid env state proc
  else forkHost env state proc

def storeIds (env : Env) (request : Request) (state : State) : Except Stop State :=
  if hasFlag request.cloneFlags CLONE_PARENT_SETTID && env.setintUser != 0 then
    .error (.jump .releaseIds env.setintUser state)
  else if hasFlag request.cloneFlags CLONE_CHILD_SETTID && !env.childMapped then
    .error (.jump .releaseIds EFAULT.code state)
  else .ok state

def spawnRemote (env : Env) (state : State) (old : Nat) : Except Stop State :=
  if (state.threads old).modClone ≠ .spawnToRemote then .ok state
  else
    let state := (state.updateThread old fun thread =>
      { thread with modClone := .spawnToLocal }).updateThread env.thread fun thread =>
      { thread with modClone := .spawningToRemote }
    if (state.threads old).modCloneArg = false then .ok state
    else if env.modCloneArg = false then .error (.jump .releaseIds ENOMEM.code state)
    else .ok (state.updateThread env.thread fun thread => { thread with modCloneArg := true })

/-- Link the thread and, for a new process, the process; with `CLONE_PARENT` to the parent
of the caller. -/
def link (env : Env) (request : Request) (state : State) (old : Nat) : State :=
  let state := chainThread state env.thread
  if hasFlag request.cloneFlags CLONE_VM then state
  else
    let proc := (state.threads env.thread).proc
    if hasFlag request.cloneFlags CLONE_PARENT then
      let ppid := (state.processes (state.threads old).proc).ppidParent
      let parent :=
        if (state.processes ppid).status = .exited ∨ (state.processes ppid).status = .zombie then
          env.pid1
        else ppid
      chainProcess (state.updateProcess proc fun proc => { proc with parent, ppidParent := parent })
        proc
    else chainProcess state proc

/-- `ptrace_check_clone_event`. -/
inductive PtraceEvent where
  | none
  | vfork
  | vforkDone
  | fork
  | clone
  deriving DecidableEq, Repr

@[inherit_doc PtraceEvent]
def ptraceCheckCloneEvent (ptrace flags : Nat) : PtraceEvent :=
  if hasFlag flags CLONE_VFORK then
    if hasFlag ptrace PTRACE_O_TRACEVFORKDONE then .vforkDone
    else if hasFlag ptrace PTRACE_O_TRACEVFORK then .vfork
    else .none
  else if flags &&& CSIGNAL = SIGCHLD then
    if hasFlag ptrace PTRACE_O_TRACEFORK then .fork else .none
  else if hasFlag ptrace PTRACE_O_TRACECLONE then .clone
  else .none

/-- `PTRACE_EVENT_FORK` and the others; `0` for none. -/
def PtraceEvent.number : PtraceEvent → Nat
  | .none => 0
  | .fork => 1
  | .vfork => 2
  | .clone => 3
  | .vforkDone => 5

/-- `ptrace_attach_thread` of a thread that reports to no process yet. -/
def ptraceAttachThread (env : Env) (state : State) (thread tracer : Nat) : State :=
  let state := (state.updateProcess tracer (.addReporter thread)).updateThread thread
    fun thread => { thread with reportProc := some tracer }
  let child := (state.threads thread).proc
  let state :=
    if thread = (state.processes child).mainThread then
      let parent := (state.processes child).parent
      ((state.updateProcess parent fun parent =>
        (parent.removeChild child).addPtracedChild child).updateProcess tracer
        (.addChild child)).updateProcess child fun child => { child with parent := tracer }
    else state
  if env.debugreg then
    state.updateThread thread fun thread => { thread with refcount := thread.refcount + 1 }
  else state

/-- What `ptrace_report_clone` saves for `wait4` in the caller, which is to stop. -/
def stopCaller (state : State) (old thread : Nat) (event : PtraceEvent) : State :=
  (state.updateProcess (state.threads old).proc fun proc =>
    { proc with status := .traced }).updateThread old fun caller =>
    { caller with
      exitStatus := SIGTRAP ||| event.number <<< 8
      status := .traced
      ptraceEventmsg := (state.threads thread).tid
      ptrace := caller.ptrace ^^^ (caller.ptrace &&& PT_TRACE_SYSCALL) }

/-- `ptrace_report_clone`, without the signal to the tracer. -/
def ptraceReportClone (env : Env) (state : State) (old thread : Nat) (event : PtraceEvent) :
    State :=
  let state := stopCaller state old thread event
  if event = .vforkDone then state
  else
    let state := state.updateThread thread fun new =>
      { new with ptrace := (state.threads old).ptrace }
    let state := ptraceAttachThread env state thread
      (state.processes (state.threads old).proc).parent
    (state.updateThread thread fun new =>
      { new with exitStatus := SIGSTOP, status := .traced }).updateProcess
      (state.threads thread).proc fun proc => { proc with status := .traced }

def report (env : Env) (request : Request) (state : State) (old : Nat) : State :=
  match ptraceCheckCloneEvent (state.threads old).ptrace request.cloneFlags with
  | .none => state
  | event => ptraceReportClone env state old env.thread event

def start (env : Env) (request : Request) (state : State) (old : Nat) : Except Stop State :=
  if hasFlag request.cloneFlags CLONE_VM = false then
    if env.hostStart ≠ 0 then .error (.jump .freeModCloneArg env.hostStart state) else .ok state
  else
    let termsig := request.cloneFlags &&& CSIGNAL
    if termsig ≠ 0 ∧ termsig ≠ SIGCHLD then
      let oldproc := (state.threads old).proc
      .ok ((state.updateProcess oldproc (.addReporter env.thread)).updateThread
        env.thread fun thread =>
          { thread with termsig, reportProc := some oldproc, refcount := thread.refcount + 1 })
    else .ok state

/-- What `do_fork` does once the thread exists. -/
def setUp (env : Env) (request : Request) (state : State) (old cpuid : Nat) :
    Except Stop State := do
  let state := state.updateVm (state.threads env.thread).vm fun vm =>
    { vm with cpuSet := cpuid :: vm.cpuSet }
  let state ← giveIds env request state
  let state ← storeIds env request state
  let state ← spawnRemote env state old
  start env request (report env request (link env request state old) old) old

/-- From `free_mod_clone_arg` on. -/
def freeModCloneArg (state : State) (thread : Nat) : State :=
  (state.updateThread thread fun thread => { thread with modCloneArg := false }).updateVm
    (state.threads thread).vm fun vm => { vm with refcount := vm.refcount - 1 }

/-- From `release_ids` on. The new process on the host is killed. -/
def releaseIds (request : Request) (state : State) (thread : Nat) : State :=
  if hasFlag request.cloneFlags CLONE_VM then
    state.updateProcess (state.threads thread).proc fun proc => { proc with tids := none }
  else state

/-- From `destroy_thread` on. -/
def destroy (request : Request) (state : State) (thread : Nat) : Option State :=
  let state :=
    if hasFlag request.cloneFlags CLONE_VM then state
    else state.updateProcess (state.threads thread).proc fun proc => { proc with refcount := 1 }
  releaseThread (state.updateThread thread fun thread => { thread with refcount := 1 }) thread

/-- What follows a label, up to `release_cpuid`. -/
def unwind (request : Request) (thread : Nat) : Label → State → Option State
  | .freeModCloneArg, state =>
    destroy request (releaseIds request (freeModCloneArg state thread) thread) thread
  | .releaseIds, state => destroy request (releaseIds request state thread) thread
  | .destroyThread, state => destroy request state thread

/-- `strstr`, as a condition. -/
def strstr (text part : List Char) : Bool := text.tails.any fun rest => part.isPrefixOf rest

/-- The start routine of the thread belongs neither to OpenMP nor to the Fortran runtime. -/
def isHelper (env : Env) (routine : Nat) : Bool :=
  routine != 0 &&
    match env.memobjPath routine with
    | none => false
    | some path => !strstr path "omp.so".toList && !strstr path "libfj90".toList

/-- How a call ends: before there is a new thread, with a new thread, with a failure after
the thread was created, or not at all. -/
inductive Outcome where
  | early (value : Int) (state : State)
  | created (tid : Int) (state : State)
  | failed (err : Int) (state : State)
  | crash

/-- The `N`-th creation puts the new thread on a Linux processor. -/
def rankSpawn (state : State) (old : Nat) : State :=
  let oldproc := state.processes (state.threads old).proc
  if oldproc.utiThreadRank = 0 then state
  else
    state.updateThread old fun thread =>
      { thread with
        modClone := if oldproc.cloneCount + 1 = oldproc.utiThreadRank then .spawnToRemote
          else .spawnToLocal }

/-- What `do_fork` does once the thread exists, and what it takes back when that fails. -/
def complete (env : Env) (request : Request) (old cpuid : Nat) (state : State) : Outcome :=
  match setUp env request state old cpuid with
  | .ok state => .created (state.threads env.thread).tid state
  | .error .crash => .crash
  | .error (.jump label err state) =>
    match unwind request env.thread label state with
    | none => .crash
    | some state => .failed err (releaseCpuid state cpuid)

end McKernel.Clone
