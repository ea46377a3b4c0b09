import McKernel.Lib.Machine

/-!
# Run queues and the CPUs of an address space

The scheduler of `kernel/process.c`: run queues, migration requests and the `cpu_set` of
every address space, to which `remote_flush_tlb_array_cpumask` addresses its interrupts.
The set changes under a lock of its own, so what `do_fork`, `do_migrate` and
`destroy_thread` do to it interleaves with what other CPUs do to the run queues.
-/

namespace McKernel.Sched

open Function

def cpuSetSize : Nat := 1024

/-- The states of a thread that `schedule` tells apart. -/
inductive Status where
  | running
  | interruptible
  | uninterruptible
  | stopped
  | exited
  deriving DecidableEq, Repr

/-- Where a thread is on its way from its creation to its release. -/
inductive Stage where
  /-- `create_thread` has been called on the CPU for a process that the host starts. -/
  | prepared (cpu : Nat)
  /-- `do_fork` has chosen the CPU and put it into the `cpu_set`. -/
  | cloned (cpu : Nat)
  | queued
  /-- The thread has exited and `schedule` has taken it out of the run queue. -/
  | left
  deriving DecidableEq, Repr

def Stage.target : Stage → Option Nat
  | prepared cpu => some cpu
  | cloned cpu => some cpu
  | queued => none
  | left => none

/-- `struct thread`. -/
structure Thread where
  /-- The address space of `vm`. -/
  asp : Nat
  cpuId : Nat
  /-- The affinity, which the source also calls `cpu_set`. -/
  affinity : List Nat
  stage : Stage
  status : Status
  pending : Bool
  /-- `mod_clone` is `SPAWNING_TO_REMOTE`. -/
  spawning : Bool
  /-- The calls of `sched_setaffinity` that hold the thread. -/
  holds : Nat
  deriving DecidableEq, Repr

/-- `struct cpu_local_var`; nothing as the current thread is the idle thread. -/
structure Cpu where
  runq : List Nat
  current : Option Nat
  migq : List Nat
  needMigrate : Bool
  /-- The threads that are being created for this CPU. -/
  incoming : List Nat
  deriving DecidableEq, Repr

/-- Threads by their identifiers, CPUs, and the `cpu_set` of every address space. -/
structure State where
  threads : Nat → Option Thread
  cpus : Nat → Cpu
  masks : Nat → Option (Nat → Bool)

/-- The steps. -/
inductive Op where
  /-- `SCD_MSG_PREPARE_PROCESS`, handled on the CPU. -/
  | prepare (cpu tid asp : Nat) (affinity : List Nat)
  /-- `SCD_MSG_SCHEDULE_PROCESS`; the CPU is the answer of `obtain_clone_cpuid`. -/
  | scheduleProcess (tid cpu : Nat)
  /-- `do_fork` by the current thread of the CPU, up to the change of the `cpu_set`; a new
  address space without `CLONE_VM`.  The target is the answer of `obtain_clone_cpuid`, or the
  CPU itself for a helper thread. -/
  | clone (cpu tid : Nat) (fork : Option Nat) (target : Nat) (spawning : Bool)
  /-- `do_fork` fails and releases the new thread. -/
  | abort (tid : Nat)
  /-- `runq_add_thread` at the end of `do_fork`. -/
  | enqueue (tid : Nat)
  /-- `schedule` on the CPU. -/
  | schedule (cpu : Nat)
  /-- A thread goes to sleep, is woken up, or gets or handles a signal. -/
  | become (tid : Nat) (status : Status) (pending spawning : Bool)
  | exit (cpu : Nat)
  /-- The last reference to a thread that has exited is dropped. -/
  | release (tid : Nat)
  | setAffinity (tid : Nat) (mask : List Nat)
  /-- `do_migrate` on the idle CPU handles the next request. -/
  | migrate (cpu : Nat)
  /-- The idle thread clears `CPU_FLAG_NEED_MIGRATE`. -/
  | migrated (cpu : Nat)
  deriving Repr

namespace State

variable (state : State)

/-- `CPU_ISSET` on the `cpu_set` of an address space. -/
def covers (asp cpu : Nat) : Bool := (state.masks asp).any fun mask => mask cpu

/-- `CPU_SET` and `CPU_CLR`. -/
def setMask (asp cpu : Nat) (value : Bool) : State :=
  { state with
    masks := update state.masks asp
      ((state.masks asp).map fun mask => update mask cpu value) }

/-- `create_address_space`. -/
def newMask (asp : Nat) : State :=
  { state with masks := update state.masks asp (some fun _ => false) }

def setThread (tid : Nat) (thread : Option Thread) : State :=
  { state with threads := update state.threads tid thread }

def setCpu (cpu : Nat) (value : Cpu) : State :=
  { state with cpus := update state.cpus cpu value }

/-- `list_add_tail` to the run queue. -/
def pushRunq (cpu tid : Nat) : State :=
  state.setCpu cpu { state.cpus cpu with runq := (state.cpus cpu).runq ++ [tid] }

/-- `list_del` from the run queue; a thread is linked at most once. -/
def dropRunq (cpu tid : Nat) : State :=
  state.setCpu cpu { state.cpus cpu with runq := (state.cpus cpu).runq.filter (· != tid) }

def setCurrent (cpu : Nat) (current : Option Nat) : State :=
  state.setCpu cpu { state.cpus cpu with current := current }

def pushIncoming (cpu tid : Nat) : State :=
  state.setCpu cpu { state.cpus cpu with incoming := tid :: (state.cpus cpu).incoming }

def dropIncoming (cpu tid : Nat) : State :=
  state.setCpu cpu
    { state.cpus cpu with incoming := (state.cpus cpu).incoming.filter (· != tid) }

/-- A new thread for whom a CPU has been put into the `cpu_set`. -/
def create (tid cpu : Nat) (thread : Thread) : State :=
  ((state.setMask thread.asp cpu true).setThread tid (some thread)).pushIncoming cpu tid

/-- `runq_add_thread` of a thread that was created for `target`. -/
def runqAddThread (tid : Nat) (thread : Thread) (target cpu : Nat) : State :=
  ((state.setThread tid (some { thread with cpuId := cpu, stage := .queued })).dropIncoming
    target tid).pushRunq cpu tid

/-- `destroy_thread`, which clears the CPU of the thread whoever else is there. -/
def destroyThread (tid : Nat) (thread : Thread) : State :=
  (state.setMask thread.asp thread.cpuId false).setThread tid none

def isExited (tid : Nat) : Bool := (state.threads tid).any (·.status == .exited)

/-- The loop of `schedule` that picks a thread: the first that is being spawned to Linux, or
else the first that is running or has a signal to handle. -/
def pickNext : List Nat → Option Nat → Option Nat
  | [], next => next
  | tid :: rest, next =>
    match state.threads tid with
    | none => pickNext rest next
    | some thread =>
      if thread.status == .running && thread.spawning then some tid
      else if thread.status == .running ||
          (thread.status == .interruptible && thread.pending) then
        pickNext rest (next <|> some tid)
      else pickNext rest next

/-- The run queue when `schedule` has dealt with the thread that was running. -/
def requeue (cpu : Nat) : State :=
  match (state.cpus cpu).current with
  | none => state
  | some prev =>
    match state.threads prev with
    | none => state
    | some thread =>
      if thread.status == .exited then
        (state.dropRunq cpu prev).setThread prev (some { thread with stage := .left })
      else (state.dropRunq cpu prev).pushRunq cpu prev

/-- `schedule`. -/
def schedule (cpu : Nat) : State :=
  let prevExited := (state.cpus cpu).current.any state.isExited
  let requeued := state.requeue cpu
  if (state.cpus cpu).needMigrate || prevExited then requeued.setCurrent cpu none
  else requeued.setCurrent cpu (requeued.pickNext (requeued.cpus cpu).runq none)

/-- The first CPU of the affinity of a thread that `do_migrate` has to move. -/
def destination (cpu : Nat) (thread : Thread) : Option Nat :=
  if thread.cpuId ≠ cpu then none
  else if cpu ∈ thread.affinity then none
  else (List.range cpuSetSize).find? (· ∈ thread.affinity)

/-- There is a thread of the address space in the run queue that a thread has left. -/
def hasSibling (cpu tid asp : Nat) : Bool :=
  ((state.cpus cpu).runq.filter (· != tid)).any fun other =>
    (state.threads other).any (·.asp == asp)

/-- What `do_migrate` does to a thread that it moves. -/
def moveThread (cpu tid : Nat) (thread : Thread) (target : Nat) : State :=
  let moved := ((state.dropRunq cpu tid).setThread tid
    (some { thread with cpuId := target, holds := thread.holds - 1 })).pushRunq target tid
  if state.hasSibling cpu tid thread.asp then moved.setMask thread.asp target true
  else (moved.setMask thread.asp cpu false).setMask thread.asp target true

/-- The request is acknowledged and `sched_setaffinity` drops its hold. -/
def acknowledge (tid : Nat) (thread : Thread) : State :=
  state.setThread tid (some { thread with holds := thread.holds - 1 })

def popMigq (cpu : Nat) : State :=
  state.setCpu cpu { state.cpus cpu with migq := (state.cpus cpu).migq.tail }

/-- A round of the loop in `do_migrate`.  The links of a thread that is in no run queue are
poisoned, so that there is no state after `list_del`. -/
def doMigrate (cpu : Nat) : Option State := do
  let tid ← (state.cpus cpu).migq.head?
  let thread ← state.threads tid
  let popped := state.popMigq cpu
  match destination cpu thread with
  | none => some (popped.acknowledge tid thread)
  | some target =>
    if tid ∈ (state.cpus cpu).runq then some (popped.moveThread cpu tid thread target)
    else none

/-- `sched_setaffinity` of a thread that has been found. -/
def setAffinity (tid : Nat) (thread : Thread) (mask : List Nat) : State :=
  if thread.cpuId ∈ mask then state.setThread tid (some { thread with affinity := mask })
  else
    let cpu := state.cpus thread.cpuId
    (state.setThread tid
      (some { thread with affinity := mask, holds := thread.holds + 1 })).setCpu thread.cpuId
        { cpu with migq := cpu.migq ++ [tid], needMigrate := true }

/-- The CPUs that `remote_flush_tlb_array_cpumask` interrupts when it is called on `self`. -/
def remoteFlush (asp self : Nat) : List Nat :=
  (List.range cpuSetSize).filter fun cpu => state.covers asp cpu && cpu != self

end State

/-- A step, if it is possible. -/
def exec (state : State) : Op → Option State
  | .prepare cpu tid asp affinity =>
    if state.threads tid = none ∧ (state.masks asp).isNone ∧ cpu < cpuSetSize then
      some ((state.newMask asp).create tid cpu
        ⟨asp, 0, affinity, .prepared cpu, .running, false, false, 0⟩)
    else none
  | .scheduleProcess tid cpu => do
    let thread ← state.threads tid
    match thread.stage with
    | .prepared target =>
      if cpu ∈ thread.affinity ∧ cpu < cpuSetSize then
        some (state.runqAddThread tid thread target cpu)
      else none
    | _ => none
  | .clone cpu tid fork target spawning => do
    let old ← (state.cpus cpu).current
    let parent ← state.threads old
    if state.threads tid = none ∧ target < cpuSetSize then
      let thread : Thread :=
        ⟨parent.asp, 0, parent.affinity, .cloned target, .running, false, spawning, 0⟩
      match fork with
      | none => some (state.create tid target thread)
      | some asp =>
        if (state.masks asp).isNone then
          some ((state.newMask asp).create tid target { thread with asp := asp })
        else none
    else none
  | .abort tid => do
    let thread ← state.threads tid
    match thread.stage with
    | .cloned target => some ((state.destroyThread tid thread).dropIncoming target tid)
    | _ => none
  | .enqueue tid => do
    let thread ← state.threads tid
    match thread.stage with
    | .cloned target => some (state.runqAddThread tid thread target target)
    | _ => none
  | .schedule cpu => some (state.schedule cpu)
  | .become tid status pending spawning => do
    let thread ← state.threads tid
    if thread.status ≠ .exited ∧ status ≠ .exited then
      some (state.setThread tid
        (some { thread with status := status, pending := pending, spawning := spawning }))
    else none
  | .exit cpu => do
    let tid ← (state.cpus cpu).current
    let thread ← state.threads tid
    some (state.setThread tid (some { thread with status := .exited }))
  | .release tid => do
    let thread ← state.threads tid
    if thread.stage = .left ∧ thread.holds = 0 then some (state.destroyThread tid thread)
    else none
  | .setAffinity tid mask => do
    let thread ← state.threads tid
    if mask = [] then none else some (state.setAffinity tid thread mask)
  | .migrate cpu =>
    if (state.cpus cpu).current = none ∧ (state.cpus cpu).needMigrate then
      state.doMigrate cpu
    else none
  | .migrated cpu =>
    if (state.cpus cpu).current = none then
      some (state.setCpu cpu { state.cpus cpu with needMigrate := false })
    else none

def boot : State where
  threads _ := none
  cpus _ := ⟨[], none, [], false, []⟩
  masks _ := none

/-- The scheduler. -/
def machine : Machine State Op where
  init state := state = boot
  step state op next := exec state op = some next

end McKernel.Sched
