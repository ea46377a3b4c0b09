import McKernel.Lib.CInt
import McKernel.Lib.Machine

/-!
# The reservation of CPUs for new threads

`obtain_clone_cpuid` chooses the CPU of a new thread and counts the thread in
`runq_reserved` until `runq_add_thread` puts it into the run queue or `release_cpuid` gives
the CPU back.  All three hold `runq_reservation_lock` and are single steps.  Run queues also
shrink and grow by exit and migration, which hold only the locks of the run queues.
-/

namespace McKernel.Reservation

/-- `CPU_STATUS_IDLE`, `CPU_STATUS_RUNNING` and `CPU_STATUS_RESERVED`. -/
inductive CpuStatus where
  | idle
  | running
  | reserved
  deriving DecidableEq, Repr

/-- The fields of `struct cpu_local_var` that placement reads; both numbers are `size_t`. -/
structure Cpu where
  runqLen : Nat
  runqReserved : Nat
  status : CpuStatus
  deriving DecidableEq, Repr

namespace Cpu

/-- `v->runq_len + v->runq_reserved`, an `unsigned long`. -/
def load (cpu : Cpu) : Nat := (cpu.runqLen + cpu.runqReserved) % 2 ^ 64

/-- `__sync_fetch_and_add(&v->runq_reserved, 1)`. -/
def reserve (cpu : Cpu) : Cpu :=
  { cpu with runqReserved := (cpu.runqReserved + 1) % 2 ^ 64, status := .reserved }

/-- `__sync_fetch_and_sub(&v->runq_reserved, 1)`. -/
def unreserve (cpu : Cpu) : Cpu :=
  { cpu with runqReserved := CInt.toULong (cpu.runqReserved - 1) }

def addThread (cpu : Cpu) : Cpu :=
  { cpu with runqLen := (cpu.runqLen + 1) % 2 ^ 64, status := .running }

/-- `--v->runq_len` in `schedule` and `do_migrate`. -/
def dropThread (cpu : Cpu) : Cpu := { cpu with runqLen := cpu.runqLen - 1 }

def release (cpu : Cpu) : Cpu :=
  { cpu with status := if cpu.runqLen = 0 then .idle else cpu.status }.unreserve

end Cpu

/-- The local variables of `obtain_clone_cpuid`; nothing is the CPU `-1`. -/
structure Scan where
  /-- `min_queue_len`, an `int`. -/
  minQueueLen : Int
  minCpu : Option Nat
  utiCpu : Option Nat
  deriving DecidableEq, Repr

/-- One round of the loop for a CPU of the set.  In both comparisons the `int` is converted
to `unsigned long`. -/
def Scan.visit (scan : Scan) (cpu load : Nat) : Scan :=
  let best :=
    if scan.minQueueLen = -1 ∨ load < CInt.toULong scan.minQueueLen then
      { scan with minQueueLen := CInt.toInt load, minCpu := some cpu }
    else scan
  if best.minCpu ≠ some cpu ∧ load = CInt.toULong best.minQueueLen then
    { best with utiCpu := some cpu }
  else best

def scan (load : Nat → Nat) (set : Nat → Bool) (processors : Nat) : Scan :=
  (List.range processors).foldl
    (fun scan cpu => if set cpu then scan.visit cpu (load cpu) else scan) ⟨-1, none, none⟩

/-- The CPU that `obtain_clone_cpuid` returns. -/
def choose (load : Nat → Nat) (set : Nat → Bool) (processors : Nat) (useLast : Bool) :
    Option Nat :=
  if useLast then (scan load set processors).utiCpu else (scan load set processors).minCpu

/-- A thread that is on its way to the run queue of a CPU. -/
structure Placement where
  cpu : Nat
  /-- A thread that does not come from an OpenMP library stays on the CPU of its creator,
  which is not asked for by `obtain_clone_cpuid`. -/
  helper : Bool
  deriving DecidableEq, Repr

structure State where
  processors : Nat
  cpus : Nat → Cpu
  /-- The calls of `do_fork` and of the start of a process that are under way. -/
  placements : List Placement

inductive Op where
  /-- `do_fork` and `SCD_MSG_SCHEDULE_PROCESS` up to the choice of the CPU. -/
  | place (set : Nat → Bool) (useLast : Bool)
  /-- `do_fork` of a helper thread on the CPU. -/
  | placeHelper (cpu : Nat)
  /-- `runq_add_thread`. -/
  | enqueue (placement : Placement)
  /-- `do_fork` fails and calls `release_cpuid`. -/
  | abandon (placement : Placement)
  /-- `schedule` takes a thread that has exited out of the run queue. -/
  | leave (cpu : Nat)
  /-- `do_migrate` moves a thread. -/
  | migrate (source target : Nat)

namespace State

variable (state : State)

def load (cpu : Nat) : Nat := (state.cpus cpu).load

def setCpu (cpu : Nat) (value : Cpu) : State :=
  { state with cpus := Function.update state.cpus cpu value }

/-- `obtain_clone_cpuid`. -/
def obtainCloneCpuid (set : Nat → Bool) (useLast : Bool) : Option Nat × State :=
  match choose state.load set state.processors useLast with
  | none => (none, state)
  | some cpu => (some cpu, state.setCpu cpu (state.cpus cpu).reserve)

def push (placement : Placement) : State :=
  { state with placements := placement :: state.placements }

def drop (placement : Placement) : State :=
  { state with placements := state.placements.erase placement }

def runqAddThread (cpu : Nat) : State :=
  state.setCpu cpu (state.cpus cpu).addThread.unreserve

/-- `release_cpuid`. -/
def releaseCpuid (cpu : Nat) : State := state.setCpu cpu (state.cpus cpu).release

/-- The threads placed on a CPU by `obtain_clone_cpuid` that are neither in the run queue
nor abandoned. -/
def awaited (cpu : Nat) : Nat := state.placements.count ⟨cpu, false⟩

end State

def exec (state : State) : Op → Option State
  | .place set useLast =>
    match state.obtainCloneCpuid set useLast with
    | (none, next) => some next
    | (some cpu, next) => some (next.push ⟨cpu, false⟩)
  | .placeHelper cpu =>
    if cpu < state.processors then some (state.push ⟨cpu, true⟩) else none
  | .enqueue placement =>
    if placement ∈ state.placements then
      some ((state.drop placement).runqAddThread placement.cpu)
    else none
  | .abandon placement =>
    if placement ∈ state.placements then
      some ((state.drop placement).releaseCpuid placement.cpu)
    else none
  | .leave cpu =>
    if 0 < (state.cpus cpu).runqLen then some (state.setCpu cpu (state.cpus cpu).dropThread)
    else none
  | .migrate source target =>
    if 0 < (state.cpus source).runqLen ∧ target < state.processors then
      let left := state.setCpu source (state.cpus source).dropThread
      some (left.setCpu target (left.cpus target).addThread)
    else none

/-- No thread anywhere, with any number of processors. -/
def Initial (state : State) : Prop :=
  (∀ cpu, state.cpus cpu = ⟨0, 0, .idle⟩) ∧ state.placements = []

def machine : Machine State Op where
  init := Initial
  step state op next := exec state op = some next

end McKernel.Reservation
