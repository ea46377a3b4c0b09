import McKernel.Lib.Errno
import McKernel.Lib.Machine

/-!
# Partitioning the CPUs among the processes of an execution

The model of `mcexec_get_cpuset` in `executer/kernel/mcctrl/control.c`.  The processes that
a node proxy starts meet in a `struct mcctrl_part_exec`: they wait until all have come, and
then take their CPUs one after the other, in the order of their start times.  Every call
works under the lock of the structure, except while it waits; a step of the model is what a
call does between taking and releasing the lock.
-/

namespace McKernel.CpuSet

open Errno

/-! ## Topology -/

/-- `struct mcctrl_cpu_topology`: the caches of a CPU from the inside out, each with the
Linux CPUs that share it. -/
structure CpuTopology where
  mckernelCpuId : Nat
  cacheList : List (List Int)
  deriving DecidableEq, Repr

/-- The CPUs of McKernel, the Linux CPU of each, the Linux NUMA node of a Linux CPU, and the
Linux NUMA nodes by McKernel number. -/
structure Topology where
  nCpus : Nat
  mapping : Nat → Int
  cpuToNode : Int → Int
  numaMapping : List Int
  cpuTopologyList : List CpuTopology

namespace Topology

def linuxCpu2MckernelCpu (topology : Topology) (cpu : Int) : Option Nat :=
  (List.range topology.nCpus).find? fun id => decide (topology.mapping id = cpu)

/-- `translate_cpumap`: the CPUs of McKernel in a set of Linux CPUs, in order. -/
def translateCpumap (topology : Topology) (linmap : List Int) : List Nat :=
  (List.range topology.nCpus).filter fun id =>
    linmap.any fun cpu => decide (topology.linuxCpu2MckernelCpu cpu = some id)

def node (topology : Topology) (cpu : Nat) : Option Nat :=
  topology.numaMapping.findIdx? fun linuxNode =>
    decide (linuxNode = topology.cpuToNode (topology.mapping cpu))

def nextUnused (topology : Topology) (used : List Nat) : Option Nat :=
  (List.range topology.nCpus).find? fun cpu => decide (cpu ∉ used)

def sameCache (topology : Topology) (top : CpuTopology) (used : List Nat) : Option Nat :=
  (top.cacheList.flatMap topology.translateCpumap).find? fun cpu => decide (cpu ∉ used)

def sameNode (topology : Topology) (prev : Nat) (used : List Nat) : Option Nat :=
  (List.range topology.nCpus).find? fun cpu =>
    decide (cpu ∉ used ∧ topology.node cpu = topology.node prev)

def nextCpu (topology : Topology) (prev : Nat) (used : List Nat) : Option Nat :=
  match topology.cpuTopologyList.find? fun top => decide (top.mckernelCpuId = prev) with
  | none => none
  | some top =>
    (topology.sameCache top used).or
      ((topology.sameNode prev used).or (topology.nextUnused used))

def assign (topology : Topology) : Nat → Nat → List Nat → List Nat → Option (List Nat × List Nat)
  | 0, _, used, toUse => some (used, toUse)
  | count + 1, prev, used, toUse =>
    match topology.nextCpu prev used with
    | none => none
    | some cpu => topology.assign count cpu (cpu :: used) (cpu :: toUse)

/-- The CPUs of one process. -/
def select (topology : Topology) (used : List Nat) (nrProcesses : Nat) :
    Option (List Nat × List Nat) :=
  match topology.nextUnused used with
  | none => none
  | some cpu => topology.assign (topology.nCpus / nrProcesses - 1) cpu (cpu :: used) [cpu]

end Topology

/-! ## Calls and executions -/

/-- What a call asks for: the number of processes, the node proxy, the start time of its
process, and the CPUs it wants, if any. -/
structure Request where
  nrProcesses : Int
  ppid : Int
  startTime : Nat
  cpuList : Option (List Nat)
  deriving DecidableEq, Repr

/-- A share that was handed out. -/
structure Handed where
  call : Nat
  rank : Int
  cpus : List Nat
  deriving DecidableEq, Repr

/-- `struct mcctrl_part_exec`. The calls in `pliList` stand for their list items; `handed` is
what the calls of the execution have been given, in order. -/
structure PartExec where
  nodeProxyPid : Int
  nrProcesses : Int
  nrProcessesLeft : Int
  nrProcessesJoined : Int
  processRank : Int
  cpusUsed : List Nat
  pliList : List Nat
  handed : List Handed
  deriving DecidableEq, Repr

namespace PartExec

def count (exec : PartExec) : PartExec :=
  { exec with
    nrProcessesLeft := exec.nrProcessesLeft - 1
    nrProcessesJoined := exec.nrProcessesJoined + 1 }

/-- Count a process that goes on. -/
def leave (exec : PartExec) : PartExec :=
  { exec with nrProcessesLeft := exec.nrProcessesLeft - 1 }

def reset (exec : PartExec) : PartExec :=
  { exec with nrProcessesLeft := exec.nrProcesses, processRank := 0 }

def nextRank (exec : PartExec) : PartExec := { exec with processRank := exec.processRank + 1 }

def hand (exec : PartExec) (id : Nat) (used toUse : List Nat) : PartExec :=
  { exec with cpusUsed := used, handed := exec.handed ++ [⟨id, exec.processRank, toUse⟩] }

end PartExec

/-- Where a call is. -/
inductive Phase where
  | outside
  | waiting
  | returned (ret : Int)
  deriving DecidableEq, Repr

/-- A call: where it is, its execution, the flags of its list item, and whether the CPU set
and the target core of the caller have been written. -/
structure Call where
  phase : Phase
  pe : Nat
  ready : Bool
  timeout : Bool
  written : Bool
  deriving DecidableEq, Repr

/-- The executions by number, the list of them, and the calls. `corrupted` is set when
memory that was freed, or the head of an empty list, is used as an object. -/
structure State where
  execs : Nat → PartExec
  partExecList : List Nat
  nextExec : Nat
  calls : Nat → Call
  corrupted : Bool

def peListMaxlen : Nat := 5

/-- What can fail in a call: an allocation, reading the CPU list, or a copy to the caller. -/
inductive Failure where
  | cpuListAlloc
  | cpuListCopy
  | partExec
  | pli
  | masks
  | cpuSet
  | targetCore
  | processRank
  | numa
  | mcexecCpuSet
  | ikcMapped
  deriving DecidableEq, Repr

/-- How the wait of a call ends. -/
inductive Wake where
  | woken
  | timedOut
  | interrupted
  deriving DecidableEq, Repr

/-- A call enters, or goes on after its wait. -/
inductive Op where
  | call (id : Nat) (failure : Option Failure)
  | resume (id : Nat) (wake : Wake) (failure : Option Failure)
  deriving DecidableEq, Repr

/-- What does not change: the CPUs, and what the calls ask for. -/
structure Config where
  topology : Topology
  request : Nat → Request

namespace State

def updateCall (state : State) (id : Nat) (change : Call → Call) : State :=
  { state with calls := Function.update state.calls id (change (state.calls id)) }

def updateExec (state : State) (id : Nat) (change : PartExec → PartExec) : State :=
  { state with execs := Function.update state.execs id (change (state.execs id)) }

def return_ (state : State) (id : Nat) (ret : Int) : State :=
  state.updateCall id fun call => { call with phase := .returned ret }

end State

def listCall (state : State) (id : Nat) (failure : Option Failure) : State :=
  match failure with
  | some .cpuListAlloc => state.return_ id ENOMEM.code
  | some .masks => state.return_ id ENOMEM.code
  | some .cpuListCopy => state.return_ id EINVAL.code
  | some .cpuSet => state.return_ id EINVAL.code
  | some .targetCore => state.return_ id EINVAL.code
  | _ => (state.updateCall id fun call => { call with written := true }).return_ id 0

def newExec (request : Request) : PartExec :=
  ⟨request.ppid, request.nrProcesses, request.nrProcesses, 0, 0, [], [], []⟩

/-- The execution of the node proxy; when there is none a new one, for which the oldest one
may have to go. -/
def findExec (state : State) (request : Request) (failure : Option Failure) :
    Option Nat × State :=
  match state.partExecList.reverse.find? fun id =>
      decide ((state.execs id).nodeProxyPid = request.ppid) with
  | some id => (some id, state)
  | none =>
    let kept :=
      if peListMaxlen ≤ state.partExecList.length then state.partExecList.tail
      else state.partExecList
    if failure = some .partExec then (none, { state with partExecList := kept })
    else
      (some state.nextExec,
        { state.updateExec state.nextExec (fun _ => newExec request) with
          partExecList := kept ++ [state.nextExec]
          nextExec := state.nextExec + 1 })

/-- In order of the start times. -/
def insertPli (config : Config) (id : Nat) : List Nat → List Nat
  | [] => [id]
  | other :: rest =>
    if (config.request id).startTime < (config.request other).startTime then id :: other :: rest
    else other :: insertPli config id rest

def wakeFirst (state : State) (pe : Nat) : State :=
  match (state.execs pe).pliList with
  | [] => { state with corrupted := true }
  | first :: rest =>
    (state.updateExec pe fun exec => { exec with pliList := rest }).updateCall first fun call =>
      { call with ready := true }

def enlist (config : Config) (state : State) (id pe : Nat) : State :=
  (state.updateCall id fun call =>
    { call with phase := .waiting, pe, ready := false, timeout := false }).updateExec pe
    fun exec => { exec with pliList := insertPli config id exec.pliList }

/-- Join an execution, and wait. A call whose list item cannot be allocated returns `0`. -/
def join (config : Config) (state : State) (id pe : Nat) (failure : Option Failure) : State :=
  let exec := state.execs pe
  if exec.nrProcesses ≠ (config.request id).nrProcesses then state.return_ id EINVAL.code
  else if exec.nrProcesses ≤ exec.nrProcessesJoined then state.return_ id EINVAL.code
  else
    let state := state.updateExec pe .count
    if failure = some .pli then state.return_ id 0
    else
      let state := enlist config state id pe
      if (state.execs pe).nrProcessesLeft = 0 then (wakeFirst state pe).updateExec pe .reset
      else state

def takeCpus (config : Config) (state : State) (id pe : Nat) (failure : Option Failure) : State :=
  let state := state.updateExec pe .leave
  if failure = some .masks then state.return_ id ENOMEM.code
  else
    match config.topology.select (state.execs pe).cpusUsed
        (config.request id).nrProcesses.toNat with
    | none => state.return_ id EINVAL.code
    | some (used, toUse) =>
      if failure = some .cpuSet ∨ failure = some .targetCore then state.return_ id EINVAL.code
      else
        let state := state.updateCall id fun call => { call with written := true }
        if failure = some .processRank ∨ failure = some .numa ∨ failure = some .mcexecCpuSet ∨
            failure = some .ikcMapped then
          state.return_ id EINVAL.code
        else
          let state := (state.updateExec pe fun exec => exec.hand id used toUse).return_ id 0
          if (state.execs pe).nrProcessesLeft ≠ 0 then
            wakeFirst (state.updateExec pe .nextRank) pe
          else state

def timeOut (state : State) (id pe : Nat) : State :=
  let listed := (state.execs pe).pliList
  ({ state.updateExec pe (fun exec => { exec with pliList := [] }) with
    calls := fun call =>
      if call ∈ listed then { state.calls call with ready := true, timeout := true }
      else state.calls call }).return_ id ETIMEDOUT.code

def resume (config : Config) (state : State) (id : Nat) (wake : Wake)
    (failure : Option Failure) : Option State :=
  let call := state.calls id
  if call.phase ≠ .waiting then none
  else if call.pe ∉ state.partExecList then some { state with corrupted := true }
  else
    match wake with
    | .timedOut => some (timeOut state id call.pe)
    | .interrupted => some (state.return_ id ERESTARTSYS.code)
    | .woken =>
      if call.ready = false then none
      else if call.timeout then some (state.return_ id ETIMEDOUT.code)
      else some (takeCpus config state id call.pe failure)

/-- A step. Nothing is said about what follows a use of foreign memory. -/
def exec (config : Config) (state : State) (op : Op) : Option State :=
  if state.corrupted then none
  else
    match op with
    | .call id failure =>
      if (state.calls id).phase ≠ .outside then none
      else if (config.request id).cpuList.isSome then some (listCall state id failure)
      else
        match findExec state (config.request id) failure with
        | (none, state) => some (state.return_ id ENOMEM.code)
        | (some pe, state) => some (join config state id pe failure)
    | .resume id wake failure => resume config state id wake failure

/-- Nothing has been called. -/
def Initial (state : State) : Prop :=
  state.partExecList = [] ∧ state.nextExec = 0 ∧ state.corrupted = false ∧
    (∀ id, state.execs id = ⟨0, 0, 0, 0, 0, [], [], []⟩) ∧
    ∀ id, state.calls id = ⟨.outside, 0, false, false, false⟩

/-- The calls of `mcexec_get_cpuset` in any order. -/
def machine (config : Config) : Machine State Op where
  init := Initial
  step state op next := exec config state op = some next

end McKernel.CpuSet
