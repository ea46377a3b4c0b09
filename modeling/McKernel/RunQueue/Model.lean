import McKernel.Sched.Model

/-!
# Run queues in detail

The scheduler of `kernel/process.c` once more, now with the counters and locks that the run
queues rest on: `runq_len`, the interrupt state that `do_migrate` keeps in one variable for two
locks, and the points at which `sched_setaffinity` and `do_migrate` can overtake each other,
because the affinity of a thread and its `cpu_id` are read without a lock.
-/

namespace McKernel.RunQueue

open Sched (Status cpuSetSize)

/-- Where a thread is on its way through the run queues. -/
inductive Stage where
  /-- `do_fork` has made it known to `find_thread`. -/
  | created
  /-- `runq_add_thread` has been called. -/
  | started
  /-- It has exited and `schedule` has unlinked it. -/
  | left
  deriving DecidableEq, Repr

/-- `struct thread`. -/
structure Thread where
  stage : Stage
  cpuId : Nat
  /-- `cpu_set`. -/
  affinity : List Nat
  status : Status
  pending : Bool
  /-- `mod_clone` is `SPAWNING_TO_REMOTE`. -/
  spawning : Bool
  deriving DecidableEq, Repr

/-- The part of `cpu_local_var` that `runq_lock` protects. -/
structure Queue where
  runq : List Nat
  /-- Below zero it has wrapped around. -/
  runqLen : Int
  /-- Nothing is the idle thread. -/
  current : Option Nat
  /-- The current thread has set its status to `PS_EXITED` and is on its way to `schedule`. -/
  exiting : Bool
  deriving DecidableEq, Repr

/-- A `do_migrate` that is running; it holds `migq_lock`. -/
structure Migration where
  entry : Bool
  irqstate : Bool
  selected : Option (Nat × Nat)
  deriving DecidableEq, Repr

/-- The part of `cpu_local_var` for migration, and whether interrupts are enabled. -/
structure Requests where
  migq : List Nat
  needMigrate : Bool
  irq : Bool
  migrating : Option Migration
  deriving DecidableEq, Repr

/-- A `sched_setaffinity` that has written the mask, with the `cpu_id` once it has read it. -/
structure Call where
  tid : Nat
  cpu : Option Nat
  deriving DecidableEq, Repr

structure State where
  threads : Nat → Option Thread
  queues : Nat → Queue
  requests : Nat → Requests
  calls : List Call

/-- The steps. -/
inductive Op where
  /-- `do_fork` up to `chain_thread`. -/
  | create (tid : Nat) (affinity : List Nat) (spawning : Bool)
  /-- `runq_add_thread`. -/
  | start (tid cpu : Nat)
  /-- `schedule` on the CPU. -/
  | schedule (cpu : Nat)
  /-- A thread goes to sleep, is woken up, or gets or handles a signal. -/
  | become (tid : Nat) (status : Status) (pending spawning : Bool)
  /-- The current thread of the CPU sets its status to `PS_EXITED`. -/
  | exit (cpu : Nat)
  /-- `sched_setaffinity` writes the mask. -/
  | setMask (tid : Nat) (mask : List Nat)
  /-- It reads `thread->cpu_id` and compares. -/
  | readCpu (tid : Nat)
  /-- `sched_request_migrate` adds the request to the queue of the CPU. -/
  | request (tid cpu : Nat)
  /-- The idle thread disables interrupts and calls `do_migrate`. -/
  | enter (cpu : Nat)
  /-- `do_migrate` takes the next request and selects a CPU. -/
  | select (cpu : Nat)
  | move (cpu : Nat)
  /-- It returns. -/
  | leave (cpu : Nat)
  /-- The idle thread clears `CPU_FLAG_NEED_MIGRATE` and enables interrupts. -/
  | resume (cpu : Nat)
  deriving Repr

/-- `list_add_tail` and `runq_len += 1`. -/
def Queue.push (queue : Queue) (tid : Nat) : Queue :=
  { queue with runq := queue.runq ++ [tid], runqLen := queue.runqLen + 1 }

/-- `list_del`; a thread is linked at most once. -/
def Queue.unlink (queue : Queue) (tid : Nat) : Queue :=
  { queue with runq := queue.runq.filter (· != tid) }

/-- `runq_len -= 1`. -/
def Queue.decrease (queue : Queue) : Queue := { queue with runqLen := queue.runqLen - 1 }

def Thread.exited (thread : Thread) : Bool := thread.status == .exited

/-- What `schedule` looks for. -/
def Thread.runnable (thread : Thread) : Bool :=
  thread.status == .running || (thread.status == .interruptible && thread.pending)

/-- The loop of `schedule` that picks a thread. -/
def pickNext (threads : Nat → Option Thread) : List Nat → Option Nat → Option Nat
  | [], next => next
  | tid :: rest, next =>
    match threads tid with
    | none => pickNext threads rest next
    | some thread =>
      if thread.status == .running && thread.spawning then some tid
      else if thread.runnable then pickNext threads rest (next <|> some tid)
      else pickNext threads rest next

namespace State

variable (state : State)

def setThread (tid : Nat) (thread : Thread) : State :=
  { state with threads := Function.update state.threads tid (some thread) }

def setQueue (cpu : Nat) (queue : Queue) : State :=
  { state with queues := Function.update state.queues cpu queue }

def setRequests (cpu : Nat) (requests : Requests) : State :=
  { state with requests := Function.update state.requests cpu requests }

/-- `runq_add_thread`. -/
def runqAddThread (tid cpu : Nat) (thread : Thread) : State :=
  (state.setQueue cpu ((state.queues cpu).push tid)).setThread tid
    { thread with stage := .started, cpuId := cpu }

/-- `schedule` when the thread that was running, if any, goes on to exist. -/
def rotate (cpu : Nat) (queue : Queue) : State :=
  let next := if (state.requests cpu).needMigrate then none
    else pickNext state.threads queue.runq none
  state.setQueue cpu { queue with current := next, exiting := false }

/-- `schedule`. -/
def schedule (cpu : Nat) : State :=
  let queue := state.queues cpu
  match queue.current with
  | none => state.rotate cpu queue
  | some prev =>
    match state.threads prev with
    | none => state.rotate cpu queue
    | some thread =>
      let unlinked := (queue.unlink prev).decrease
      if thread.exited then
        (state.setQueue cpu { unlinked with current := none, exiting := false }).setThread prev
          { thread with stage := .left }
      else state.rotate cpu (unlinked.push prev)

/-- The CPU that `do_migrate` selects for a thread, if it has to move. -/
def destination (cpu : Nat) (thread : Thread) : Option Nat :=
  if thread.cpuId ≠ cpu then none
  else if cpu ∈ thread.affinity then none
  else (List.range cpuSetSize).find? (· ∈ thread.affinity)

/-- `do_migrate` moves a thread.  `list_del` takes it from whichever run queue it is in, and
`runq_len` of the CPU that migrates goes down; the links of a thread that is in no run queue
are poisoned, so that there is no state after `list_del`. -/
def moveThread (cpu tid target : Nat) (thread : Thread) : Option State :=
  if tid ∈ (state.queues thread.cpuId).runq then
    let unlinked := state.setQueue thread.cpuId ((state.queues thread.cpuId).unlink tid)
    let decreased := unlinked.setQueue cpu (unlinked.queues cpu).decrease
    let pushed := decreased.setQueue target ((decreased.queues target).push tid)
    some (pushed.setThread tid { thread with cpuId := target })
  else none

end State

/-- A step, if it is possible. -/
def exec (state : State) : Op → Option State
  | .create tid affinity spawning =>
    if (state.threads tid).isNone then
      some (state.setThread tid ⟨.created, 0, affinity, .running, false, spawning⟩)
    else none
  | .start tid cpu => do
    let thread ← state.threads tid
    if thread.stage = .created then some (state.runqAddThread tid cpu thread) else none
  | .schedule cpu =>
    -- the idle thread does not get to `schedule` before it has left `do_migrate`
    if (state.requests cpu).migrating.isNone then some (state.schedule cpu) else none
  | .become tid status pending spawning => do
    let thread ← state.threads tid
    if thread.status ≠ .exited ∧ status ≠ .exited then
      some (state.setThread tid
        { thread with status := status, pending := pending, spawning := spawning })
    else none
  | .exit cpu => do
    let tid ← (state.queues cpu).current
    let thread ← state.threads tid
    some ((state.setThread tid { thread with status := .exited }).setQueue cpu
      { state.queues cpu with exiting := true })
  | .setMask tid mask => do
    let thread ← state.threads tid
    if mask ≠ [] then
      some { state.setThread tid { thread with affinity := mask } with
        calls := ⟨tid, none⟩ :: state.calls }
    else none
  | .readCpu tid => do
    let thread ← state.threads tid
    if ⟨tid, none⟩ ∈ state.calls then
      let others := state.calls.erase ⟨tid, none⟩
      if thread.cpuId ∈ thread.affinity then some { state with calls := others }
      else some { state with calls := ⟨tid, some thread.cpuId⟩ :: others }
    else none
  | .request tid cpu =>
    let requests := state.requests cpu
    if ⟨tid, some cpu⟩ ∈ state.calls ∧ requests.migrating.isNone then
      some { state.setRequests cpu
          { requests with migq := requests.migq ++ [tid], needMigrate := true } with
        calls := state.calls.erase ⟨tid, some cpu⟩ }
    else none
  | .enter cpu =>
    let requests := state.requests cpu
    if (state.queues cpu).current = none ∧ requests.migrating.isNone ∧ requests.needMigrate then
      -- `cpu_disable_interrupt`, and `ihk_mc_spinlock_lock` returns the state that it finds
      let irq := false
      some (state.setRequests cpu
        { requests with irq := false, migrating := some ⟨irq, irq, none⟩ })
    else none
  | .select cpu => do
    let requests := state.requests cpu
    let migration ← requests.migrating
    let tid ← requests.migq.head?
    let thread ← state.threads tid
    if migration.selected = none then
      some (state.setRequests cpu
        { requests with
          migq := requests.migq.tail
          migrating := some { migration with
            selected := (State.destination cpu thread).map (tid, ·) } })
    else none
  | .move cpu => do
    let requests := state.requests cpu
    let migration ← requests.migrating
    let (tid, target) ← migration.selected
    let thread ← state.threads tid
    let moved ← state.moveThread cpu tid target thread
    -- `double_rq_lock` stores into `irqstate`, `double_rq_unlock` restores from it
    let irqstate := requests.irq
    some (moved.setRequests cpu
      { requests with
        irq := irqstate
        migrating := some { migration with irqstate := irqstate, selected := none } })
  | .leave cpu => do
    let requests := state.requests cpu
    let migration ← requests.migrating
    if migration.selected = none ∧ requests.migq = [] then
      some (state.setRequests cpu
        { requests with irq := migration.irqstate, migrating := none })
    else none
  | .resume cpu =>
    let requests := state.requests cpu
    if (state.queues cpu).current = none ∧ requests.migrating.isNone then
      some (state.setRequests cpu { requests with needMigrate := false, irq := true })
    else none

def boot : State where
  threads _ := none
  queues _ := ⟨[], 0, none, false⟩
  requests _ := ⟨[], false, true, none⟩
  calls := []

/-- The scheduler. -/
def machine : Machine State Op where
  init state := state = boot
  step state op next := exec state op = some next

end McKernel.RunQueue
