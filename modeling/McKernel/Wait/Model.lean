import McKernel.Lib.Errno
import McKernel.Lib.FirstMatch
import McKernel.Lib.Machine

/-!
# Waiting for children

The model of `wait_proc`, `wait_thread` and `do_wait` in `kernel/syscall.c`, for one process
whose threads wait at the same time while its children exit, stop and continue.  Each of the
two scans is made under one lock and is a step; a call goes round until a scan finds something
or there is nothing to wait for.
-/

namespace McKernel.Wait

open Errno FirstMatch

/-- The bits of `options`. -/
structure Options where
  wexited : Bool
  wuntraced : Bool
  wcontinued : Bool
  wnowait : Bool
  wnohang : Bool
  wclone : Bool
  wall : Bool
  deriving DecidableEq, Repr

/-- `wait4` sets `WEXITED`, and `waitid` checks that one of these is given. -/
def Options.asks (options : Options) : Bool :=
  options.wexited || options.wuntraced || options.wcontinued

/-- Whether a task that has exited, or has not, can still report something asked for. -/
def Options.canReport (options : Options) (exited : Bool) : Bool :=
  if exited then options.wexited else options.asks

/-- The states of processes and threads that are looked at. -/
inductive Status where
  | running
  | stopped
  | delayStopped
  | traced
  | delayTraced
  | exited
  | zombie
  deriving DecidableEq, Repr

def Status.isStop (status : Status) : Bool :=
  status == .stopped || status == .delayStopped || status == .traced || status == .delayTraced

def Status.isExit (status : Status) : Bool := status == .exited || status == .zombie

/-- How often something has happened to a task and how often it has been reported for good. -/
structure Log where
  exits : Nat
  exitsReported : Nat
  stops : Nat
  stopsReported : Nat
  conts : Nat
  contsReported : Nat
  deriving DecidableEq, Repr

/-- A child process with its main thread, or a thread in `report_threads_list`. -/
structure Task where
  /-- The process identifier of a process and the thread identifier of a thread. -/
  id : Nat
  pgid : Nat
  process : Bool
  main : Bool
  status : Status
  traced : Bool
  /-- `parent` is `ppid_parent`. -/
  ownParent : Bool
  nowait : Bool
  /-- `SIGNAL_STOP_STOPPED`. -/
  stopFlag : Bool
  /-- `SIGNAL_STOP_CONTINUED`. -/
  contFlag : Bool
  groupExitStatus : Nat
  /-- `exit_status` of the thread or of the main thread. -/
  exitStatus : Nat
  /-- The times that are added to the parent's totals. -/
  usage : Nat
  log : Log
  attached : ownParent = false → traced = true
  deriving DecidableEq

namespace Task

variable (task : Task)

def isExited : Bool := task.status == .zombie || (!task.process && task.status == .exited)

/-- A process that has stopped as a group reports `group_exit_status`. -/
def usesGroup : Bool :=
  task.process && (task.status == .stopped || task.status == .delayStopped)

/-- The status that `wait_stopped` reports; zero has been reaped. -/
def stopStatus : Nat := if task.usesGroup then task.groupExitStatus else task.exitStatus

def setGroupExitStatus (value : Nat) : Task := { task with groupExitStatus := value }

def setExitStatus (value : Nat) : Task := { task with exitStatus := value }

def setStopFlag (value : Bool) : Task := { task with stopFlag := value }

def setContFlag (value : Bool) : Task := { task with contFlag := value }

def setStatus (status : Status) : Task := { task with status := status }

def setTraced (traced : Bool) : Task :=
  { task with
    traced := traced || !task.ownParent
    attached := by
      intro other
      simp [other] }

def setUsage (usage : Nat) : Task := { task with usage := usage }

def setLog (log : Log) : Task := { task with log := log }

/-- `wait_stopped` reaps the status. -/
def reapStop : Task := if task.usesGroup then task.setGroupExitStatus 0 else task.setExitStatus 0

end Task

/-- What a scan may report. -/
inductive Kind where
  | exit
  | stop
  | tracedStop
  | cont
  deriving DecidableEq, Repr

def report (options : Options) (task : Task) : Option Kind :=
  if options.wexited && task.isExited then some .exit
  else if !task.traced && task.stopFlag && options.wuntraced then some .stop
  else if task.traced && (task.status == .stopped || task.status == .traced) &&
      task.stopStatus != 0 then some .tracedStop
  else if task.contFlag && options.wcontinued then some .cont
  else none

def settle (options : Options) (kind : Kind) (task : Task) : Task :=
  if options.wnowait then task
  else
    match kind with
    | .exit => task.setLog { task.log with exitsReported := task.log.exitsReported + 1 }
    | .stop =>
      if task.stopStatus = 0 then task.setStopFlag false
      else (task.reapStop.setStopFlag false).setLog
        { task.log with stopsReported := task.log.stopsReported + 1 }
    | .tracedStop => (task.reapStop.setStopFlag false).setLog
        { task.log with stopsReported := task.log.stopsReported + 1 }
    | .cont => (task.setContFlag false).setLog
        { task.log with contsReported := task.log.contsReported + 1 }

def answerOf (kind : Kind) (task : Task) : Int :=
  if kind = .stop ∧ task.stopStatus = 0 then 0 else task.id

/-- `wait_zombie`; the host is asked about a child of one's own. -/
def waitZombie (task : Task) (host : Int) : Int :=
  if !task.ownParent || task.nowait then task.id else host

/-- The first test of `wait_proc`, negated. -/
def selects (pid pgid : Int) (childPid childPgid : Nat) : Bool :=
  !((decide (pid ≥ 0) || -pid != childPgid) && pid != -1 && (pid != 0 || pgid != childPgid) &&
    (decide (pid ≤ 0) || pid != childPid))

/-- The test of `wait_proc` for the children that others trace. -/
def selectsTraced (pid pgid : Int) (childPid childPgid : Nat) : Bool :=
  (decide (pid < 0) && -pid == childPgid) || pid == -1 || (pid == 0 && pgid == childPgid) ||
    (decide (pid > 0) && pid == childPid)

/-- The test of `wait_thread`. -/
def selectsThread (tid : Int) (task : Task) : Bool := (tid == -1 || tid == task.id) && !task.main

/-- A thread of the process itself. -/
structure OwnThread where
  tid : Nat
  main : Bool
  /-- `termsig` is neither zero nor `SIGCHLD`. -/
  reports : Bool
  exited : Bool
  deriving DecidableEq, Repr

/-- How far a call of `do_wait` has got. -/
inductive Phase where
  | scanProc
  | scanThread
  | decide
  | asleep
  | returned (ret : Int)
  deriving DecidableEq, Repr

/-- A call of `do_wait`. -/
structure Waiter where
  tid : Nat
  pid : Int
  options : Options
  empty : Bool
  phase : Phase
  /-- The call has slept: this is not its first round. -/
  slept : Bool
  /-- A child, a child that others trace, or a thread that matches was there when this round
  scanned for it. -/
  seen : Bool
  /-- One of them could still report what the call asks for. -/
  able : Bool
  deriving DecidableEq, Repr

structure State where
  pgid : Int
  children : List Task
  /-- The children whose exit has been reported and whose times have been added. -/
  reaped : List Task
  released : List Task
  /-- The tasks that others trace; the processes among them are in `ptraced_children_list`. -/
  ptraced : List Task
  /-- `report_threads_list`. -/
  reports : List Task
  threads : List OwnThread
  usageChildren : Nat
  waiters : List Waiter
  deriving DecidableEq

/-- Which of the lists a task is in. -/
inductive Place where
  | child
  | thread
  | traced
  deriving DecidableEq, Repr

namespace State

variable (state : State)

def waiter (tid : Nat) : Option Waiter := state.waiters.find? (·.tid == tid)

def setWaiter (tid : Nat) (change : Waiter → Waiter) : State :=
  { state with waiters := update (·.tid == tid) change state.waiters }

def setTask (place : Place) (test : Task → Bool) (change : Task → Task) : State :=
  match place with
  | .child => { state with children := update test change state.children }
  | .thread => { state with reports := update test change state.reports }
  | .traced => { state with ptraced := update test change state.ptraced }

def tasks (place : Place) : List Task :=
  match place with
  | .child => state.children
  | .thread => state.reports
  | .traced => state.ptraced

def attach (task : Task) : State :=
  if task.process then { state with children := state.children ++ [task] }
  else { state with reports := state.reports ++ [task] }

/-- A child that has exited is handed over: to `pid1` if it is one's own, whose times are
added, or else to the real parent. -/
def releaseChild (options : Options) (test : Task → Bool) (child : Task) : State :=
  if options.wnowait then state
  else if child.ownParent then
    { state with
      children := state.children.eraseP test
      reaped := settle options .exit child :: state.reaped
      usageChildren := state.usageChildren + child.usage }
  else
    { state with
      children := state.children.eraseP test
      released := settle options .exit child :: state.released }

/-- `release_thread`. -/
def releaseThread (options : Options) (test : Task → Bool) (thread : Task) : State :=
  if options.wnowait then state
  else
    { state with
      reports := state.reports.eraseP test
      released := settle options .exit thread :: state.released }

def foundChild (pid : Int) (options : Options) (task : Task) : Bool :=
  selects pid state.pgid task.id task.pgid && (report options task).isSome

def anyChild (pid : Int) : Bool :=
  state.children.any fun child => selects pid state.pgid child.id child.pgid

def anyTraced (pid : Int) : Bool :=
  state.ptraced.any fun child =>
    child.process && selectsTraced pid state.pgid child.id child.pgid

/-- `wait_proc`: what it returns, `empty`, and the state. -/
def waitProc (pid : Int) (options : Options) (empty : Bool) (host : Int) : Int × Bool × State :=
  let test := state.foundChild pid options
  match state.children.find? test with
  | none => (0, empty && !state.anyChild pid && !state.anyTraced pid, state)
  | some child =>
    match report options child with
    | none => (0, false, state)
    | some .exit => (waitZombie child host, false, state.releaseChild options test child)
    | some kind => (answerOf kind child, false, state.setTask .child test (settle options kind))

def foundThread (tid : Int) (options : Options) (task : Task) : Bool :=
  selectsThread tid task && (report options task).isSome

def anyReport (tid : Int) : Bool := state.reports.any (selectsThread tid)

/-- The threads of the process for which a call sleeps, whatever identifier it waits for. -/
def anyThread : Bool := state.threads.any fun thread => !thread.main && thread.reports

/-- `wait_thread`. -/
def waitThread (tid : Int) (options : Options) (empty : Bool) : Int × Bool × State :=
  let test := foundThread tid options
  match state.reports.find? test with
  | none => (0, empty && !state.anyReport tid && !state.anyThread, state)
  | some task =>
    match report options task with
    | none => (0, false, state)
    | some .exit => ((task.id : Int), false, state.releaseThread options test task)
    | some kind => (answerOf kind task, false, state.setTask .thread test (settle options kind))

/-- There is a matching child, also one that others trace, for which `test` holds, given
whether it has exited. -/
def hasChild (pid : Int) (test : Bool → Bool) : Bool :=
  (state.children ++ state.ptraced.filter Task.process).any fun child =>
    selectsTraced pid state.pgid child.id child.pgid && test child.status.isExit

/-- The same for a thread that reports to the process, or will when its tracer detaches. -/
def hasThread (tid : Int) (test : Bool → Bool) : Bool :=
  (state.reports.any fun task => selectsThread tid task && test task.status.isExit) ||
    state.threads.any fun thread =>
      !thread.main && thread.reports && (tid == -1 || tid == thread.tid) && test thread.exited

end State

/-- `do_wait` scans the threads. -/
def Waiter.scansThreads (waiter : Waiter) : Bool :=
  (waiter.pid == -1 || decide (waiter.pid > 0)) && (waiter.options.wclone || waiter.options.wall)

inductive StopKind where
  /-- The process stops by a signal. -/
  | group
  | thread
  | signal (sig : Nat)
  /-- `SIGTRAP`. -/
  | trap
  deriving DecidableEq, Repr

/-- The steps. -/
inductive Op where
  | appear (task : Task)
  | attach (place : Place) (id : Nat)
  | detach (id : Nat)
  /-- The tracer of a task is told of a stop or a continuation. -/
  | collect (id : Nat) (options : Options)
  | trace (place : Place) (id : Nat) (traced : Bool)
  | setThreads (threads : List OwnThread)
  | exit (place : Place) (id groupExitStatus exitStatus usage : Nat)
  /-- The exit of a process is complete. -/
  | finalize (place : Place) (id : Nat)
  | stop (place : Place) (id : Nat) (kind : StopKind)
  | stopped (place : Place) (id : Nat)
  /-- A task continues by a signal. -/
  | cont (place : Place) (id : Nat)
  | resume (place : Place) (id : Nat)
  /-- `do_wait` is called. -/
  | call (tid : Nat) (pid : Int) (options : Options)
  /-- The call is over. -/
  | finish (tid : Nat)
  /-- The call of `wait_proc`, with the answer of the host. -/
  | scanProc (tid : Nat) (host : Int)
  /-- The call of `wait_thread`. -/
  | scanThread (tid : Nat)
  | decide (tid : Nat) (signal : Bool)
  /-- The thread is woken up and scans again. -/
  | wake (tid : Nat)

namespace Task

variable (task : Task)

def pendingStops : Nat :=
  if task.stopFlag || task.status.isStop && task.stopStatus != 0 then 1 else 0

/-- The continuations that may still be reported. -/
def pendingConts : Nat := if task.contFlag then 1 else 0

/-- What has been reported and what may still be reported has happened, and the exit has not
been reported yet. -/
def isLogged : Bool :=
  task.log.exits == (if task.status.isExit then 1 else 0) && task.log.exitsReported == 0 &&
    decide (task.log.stopsReported + task.pendingStops ≤ task.log.stops) &&
    decide (task.log.contsReported + task.pendingConts ≤ task.log.conts)

def exit (groupExitStatus exitStatus usage : Nat) : Task :=
  ((((task.setStatus .exited).setGroupExitStatus groupExitStatus).setExitStatus
    exitStatus).setUsage usage).setLog { task.log with exits := task.log.exits + 1 }

def stopSignals : List Nat := [19, 20, 21, 22]

def stopAs (kind : StopKind) : Task :=
  match kind with
  | .group =>
    (((task.setGroupExitStatus 19).setStopFlag true).setContFlag false).setStatus .delayStopped
  | .thread => (((task.setExitStatus 19).setStopFlag true).setContFlag false).setStatus .stopped
  | .signal sig =>
    ((task.setExitStatus sig).setStopFlag (stopSignals.contains sig)).setStatus
      (if task.process then .delayTraced else .traced)
  | .trap =>
    if task.process then ((task.setExitStatus 5).setGroupExitStatus 5).setStatus .delayTraced
    else (task.setExitStatus 5).setStatus .traced

def stop (kind : StopKind) : Task :=
  (task.stopAs kind).setLog { task.log with stops := task.log.stops + 1 }

def completeStop : Task :=
  match task.status with
  | .delayStopped => task.setStatus .stopped
  | .delayTraced => task.setStatus .traced
  | _ => task

def cont : Task :=
  if task.process then
    (((task.setStatus .running).setStopFlag false).setContFlag true).setLog
      { task.log with conts := task.log.conts + 1 }
  else task.setStatus .running

end Task

/-- After a scan that saw what `has` tells. -/
def Waiter.scanned (waiter : Waiter) (ret : Int) (empty : Bool) ( has : (Bool → Bool) → Bool)
    (next : Phase) : Waiter :=
  { waiter with
    empty := empty
    seen := waiter.seen || has fun _ => true
    able := waiter.able || has waiter.options.canReport
    phase := if ret ≠ 0 then .returned ret else next }

def State.event (state : State) (place : Place) (id : Nat) (change : Task → Task) :
    Option State := do
  let task ← (state.tasks place).find? (·.id == id)
  if task.status.isExit then none else some (state.setTask place (·.id == id) change)

def exec (state : State) : Op → Option State
  | .appear task => if task.isLogged then some (state.attach task) else none
  | .attach place id => do
    let task ← (state.tasks place).find? (·.id == id)
    match place with
    | .child => some { state with
        children := state.children.eraseP (·.id == id), ptraced := state.ptraced ++ [task] }
    | .thread => some { state with
        reports := state.reports.eraseP (·.id == id), ptraced := state.ptraced ++ [task] }
    | .traced => none
  | .detach id => do
    let task ← state.ptraced.find? (·.id == id)
    some ({ state with ptraced := state.ptraced.eraseP (·.id == id) }.attach task)
  | .collect id options => do
    let task ← state.ptraced.find? (·.id == id)
    let kind ← report options task
    if kind = .exit then none
    else some (state.setTask .traced (·.id == id) (settle options kind))
  | .trace place id traced => state.event place id (·.setTraced traced)
  | .setThreads threads => some { state with threads := threads }
  | .exit place id groupExitStatus exitStatus usage =>
    state.event place id (·.exit groupExitStatus exitStatus usage)
  | .finalize place id => do
    let task ← (state.tasks place).find? (·.id == id)
    if task.status = .exited then some (state.setTask place (·.id == id) (·.setStatus .zombie))
    else none
  | .stop place id kind => state.event place id (·.stop kind)
  | .stopped place id => state.event place id Task.completeStop
  | .cont place id => state.event place id Task.cont
  | .resume place id => state.event place id (·.setStatus .running)
  | .call tid pid options =>
    if (state.waiter tid).isSome ∨ options.asks = false then none
    else some { state with
      waiters := ⟨tid, pid, options, true, .scanProc, false, false, false⟩ :: state.waiters }
  | .finish tid => do
    let waiter ← state.waiter tid
    match waiter.phase with
    | .returned _ => some { state with waiters := state.waiters.eraseP (·.tid == tid) }
    | _ => none
  | .scanProc tid host => do
    let waiter ← state.waiter tid
    if waiter.phase = .scanProc then
      if waiter.options.wclone then
        some (state.setWaiter tid fun waiter => { waiter with phase := .scanThread })
      else
        let (ret, empty, next) :=
          state.waitProc waiter.pid waiter.options waiter.empty host
        some (next.setWaiter tid (·.scanned ret empty (state.hasChild waiter.pid) .scanThread))
    else none
  | .scanThread tid => do
    let waiter ← state.waiter tid
    if waiter.phase = .scanThread then
      if waiter.scansThreads then
        let (ret, empty, next) := state.waitThread waiter.pid waiter.options waiter.empty
        some (next.setWaiter tid (·.scanned ret empty (state.hasThread waiter.pid) .decide))
      else some (state.setWaiter tid fun waiter => { waiter with phase := .decide })
    else none
  | .decide tid signal => do
    let waiter ← state.waiter tid
    if waiter.phase = .decide then
      let phase :=
        if waiter.empty then .returned ECHILD.code
        else if waiter.options.wnohang then .returned 0
        else if signal then .returned EINTR.code
        else .asleep
      some (state.setWaiter tid fun waiter => { waiter with phase := phase })
    else none
  | .wake tid => do
    let waiter ← state.waiter tid
    if waiter.phase = .asleep then
      some (state.setWaiter tid fun waiter =>
        { waiter with phase := .scanProc, slept := true, seen := false, able := false })
    else none

/-- A process without children. -/
def boot (pgid : Int) : State := ⟨pgid, [], [], [], [], [], [], 0, []⟩

/-- The process and its children. -/
def machine (pgid : Int) : Machine State Op where
  init state := state = boot pgid
  step state op next := exec state op = some next

end McKernel.Wait
