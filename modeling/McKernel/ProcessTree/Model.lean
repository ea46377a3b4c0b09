import McKernel.Lib.Machine

/-!
# The process tree

The model of what `terminate`, `finalize_process`, `ptrace_attach_thread`, `ptrace_traceme`,
`ptrace_detach_thread`, `wait_proc`, `release_process` and `clone` do to the lists of children
in `kernel/syscall.c` and `kernel/process.c`.  Attaching, detaching and reaping drop a lock
between the list that a process leaves and the list that it is put into, and are two steps.
Detaching edits both lists under locks that do not keep others away: what it writes is what
it has read, in a step before.
-/

namespace McKernel.ProcessTree

/-- A process, by the structure that stands for it. -/
abbrev Pid := Nat

/-- The process that takes over the others. -/
def pid1 : Pid := 1

inductive Status where
  | running
  /-- `PS_EXITED`: the other threads are being killed. -/
  | exiting
  /-- `PS_EXITED`: the threads are gone and `report_threads_list` is being emptied. -/
  | exited
  /-- `PS_EXITED`: the children are being handed over. -/
  | cleaning
  | zombie
  deriving DecidableEq, Repr

def Status.hasThreads (status : Status) : Bool := status == .running || status == .exiting

/-- What is left to be done with a process that has been taken out of `children_list`. -/
inductive Move where
  | attach (tracer : Pid)
  | detach (parent : Pid) (terminated : Bool)
  | reap
  deriving DecidableEq, Repr

structure Proc where
  parent : Pid
  ppid_parent : Pid
  status : Status
  /-- `PT_TRACED` of the main thread. -/
  traced : Bool
  /-- The reference of the threads and the memory. -/
  held : Bool
  /-- The process is in `process_hash`. -/
  hashed : Bool
  move : Option Move
  deriving DecidableEq, Repr

/-- The tracee has exited, and its real parent is to be told again. -/
def Proc.terminated (proc : Proc) : Bool :=
  proc.status == .zombie && proc.parent != proc.ppid_parent

/-- The process is on its way to a tracer. -/
def Proc.attaching (proc : Proc) : Bool :=
  match proc.move with
  | some (.attach _) => true
  | _ => false

/-- What `ptrace_detach_thread` has read: the real parent, whether the tracee is finalized
again, and the lists that are about to be edited. -/
structure Read where
  parent : Pid
  terminated : Bool
  children : List Pid
  ptraced : List Pid
  deriving DecidableEq, Repr

structure State where
  proc : Pid → Option Proc
  children : Pid → List Pid
  ptraced : Pid → List Pid
  /-- For the tracees that are being detached. -/
  reads : Pid → Option Read
  /-- How often the reference of the tree has been given back. -/
  released : Pid → Nat
  /-- All processes there have been. -/
  pids : List Pid

namespace State

variable (state : State)

def set (pid : Pid) (proc : Option Proc) : State :=
  { state with proc := fun other => if other = pid then proc else state.proc other }

/-- `list_del(&proc->siblings_list)`. -/
def unlink (pid : Pid) : State :=
  { state with children := fun parent => (state.children parent).filter (· != pid) }

/-- `list_add_tail(&proc->siblings_list, &parent->children_list)`. -/
def link (pid parent : Pid) : State :=
  { state with
    children := fun other =>
      if other = parent then state.children other ++ [pid] else state.children other }

/-- `list_del(&proc->ptraced_siblings_list)`. -/
def unlinkPtraced (pid : Pid) : State :=
  { state with ptraced := fun parent => (state.ptraced parent).filter (· != pid) }

/-- `list_add_tail(&proc->ptraced_siblings_list, &parent->ptraced_children_list)`. -/
def linkPtraced (pid parent : Pid) : State :=
  { state with
    ptraced := fun other =>
      if other = parent then state.ptraced other ++ [pid] else state.ptraced other }

def setRead (pid : Pid) (read : Option Read) : State :=
  { state with reads := fun other => if other = pid then read else state.reads other }

/-- An edit of `children_list` goes on from what has been read. -/
def restoreChildren (parent : Pid) (children : List Pid) : State :=
  { state with children := Function.update state.children parent children }

def restorePtraced (parent : Pid) (ptraced : List Pid) : State :=
  { state with ptraced := Function.update state.ptraced parent ptraced }

/-- The last reference is gone. -/
def free (pid : Pid) : State := (state.unlink pid).set pid none

/-- `release_process` of the reference of the tree. -/
def release (pid : Pid) (held : Bool) : State :=
  let counted := { state with
    released := fun other =>
      if other = pid then state.released other + 1 else state.released other }
  if held then counted else counted.free pid

def statusOf (pid : Pid) : Status :=
  match state.proc pid with
  | none => .zombie
  | some proc => proc.status

def all (test : Proc → Bool) : Bool :=
  state.pids.all fun pid =>
    match state.proc pid with
    | none => true
    | some proc => test proc

end State

/-- The steps. -/
inductive Op where
  /-- A process is created, with `CLONE_PARENT` or without. -/
  | fork (parent child : Pid) (cloneParent : Bool)
  | traceme (pid : Pid)
  /-- `ptrace_attach_thread`: out of one list, and into the other. -/
  | attach (pid tracer : Pid)
  | attached (pid : Pid)
  /-- `ptrace_detach_thread`: the list of the tracer is read and written, and then the lists
  of the real parent. -/
  | detach (pid : Pid)
  | detachCut (pid : Pid)
  | detachRead (pid : Pid)
  | detached (pid : Pid)
  /-- `wait_proc` of a process by its parent. -/
  | reap (pid : Pid)
  | reaped (pid : Pid)
  /-- `terminate`: the process has exited, and its other threads are gone. -/
  | exit (pid : Pid)
  | threadsGone (pid : Pid)
  /-- `terminate`: `report_threads_list` is empty. -/
  | closeReports (pid : Pid)
  /-- `terminate`: a child is handed over. -/
  | handOver (pid child : Pid)
  | finalize (pid : Pid)
  /-- The threads and the memory give their reference back. -/
  | letGo (pid : Pid)

def newParent (state : State) (parent : Pid) (proc : Proc) (cloneParent : Bool) : Pid :=
  if cloneParent then
    if state.statusOf proc.ppid_parent = .running then proc.ppid_parent else pid1
  else parent

/-- A step, if it is possible. -/
def exec (state : State) : Op → Option State
  | .fork parent child cloneParent => do
    let proc ← state.proc parent
    if proc.status.hasThreads ∧ state.proc child = none ∧ child ∉ state.pids ∧
        state.released child = 0 ∧ (cloneParent → parent ≠ pid1) then
      let target := newParent state parent proc cloneParent
      some ({ state with pids := child :: state.pids }.set child
        (some ⟨target, target, .running, false, true, true, none⟩) |>.link child target)
    else none
  | .traceme pid => do
    let proc ← state.proc pid
    if proc.status = .running ∧ ¬proc.traced ∧ proc.parent ≠ pid1 ∧ pid ≠ pid1 then
      some ((state.linkPtraced pid proc.parent).set pid (some { proc with traced := true }))
    else none
  | .attach pid tracer => do
    let proc ← state.proc pid
    if ¬proc.traced ∧ proc.held ∧ pid ≠ pid1 ∧ pid ≠ tracer ∧ tracer ≠ pid1 ∧
        (state.statusOf tracer).hasThreads then
      some (((state.unlink pid).linkPtraced pid proc.parent).set pid
        (some { proc with traced := true, move := some (.attach tracer) }))
    else none
  | .attached pid => do
    let proc ← state.proc pid
    match proc.move with
    | some (.attach tracer) =>
      some ((state.link pid tracer).set pid (some { proc with parent := tracer, move := none }))
    | _ => none
  | .detach pid => do
    let proc ← state.proc pid
    if proc.traced ∧ pid ≠ pid1 then
      some (state.setRead pid (some ⟨proc.ppid_parent, proc.terminated,
        state.children proc.parent, []⟩))
    else none
  | .detachCut pid => do
    let proc ← state.proc pid
    let read ← state.reads pid
    some ((((state.restoreChildren proc.parent read.children).unlink pid).set pid
      (some { proc with move := some (.detach read.parent read.terminated) })).setRead pid none)
  | .detachRead pid => do
    let proc ← state.proc pid
    match proc.move with
    | some (.detach parent terminated) =>
      some (state.setRead pid (some ⟨parent, terminated, state.children parent,
        state.ptraced parent⟩))
    | _ => none
  | .detached pid => do
    let proc ← state.proc pid
    let read ← state.reads pid
    match proc.move with
    | some (.detach parent terminated) =>
      let restored := (state.restoreChildren parent read.children).restorePtraced parent
        read.ptraced
      let next := ((restored.unlinkPtraced pid).link pid parent).set pid
        (some { proc with parent := parent, traced := false, move := none })
      -- A process that has exited is finalized again for its real parent.
      let finished := if terminated ∧ parent = pid1 then next.release pid proc.held else next
      some (finished.setRead pid none)
    | _ => none
  | .reap pid => do
    let proc ← state.proc pid
    if proc.status = .zombie ∧ proc.parent = proc.ppid_parent ∧ proc.parent ≠ pid1 ∧
        pid ≠ pid1 ∧ (state.statusOf proc.parent).hasThreads ∧
        pid ∈ state.children proc.parent then
      some ((state.unlink pid).set pid (some { proc with move := some .reap }))
    else none
  | .reaped pid => do
    let proc ← state.proc pid
    match proc.move with
    | some .reap =>
      some ((((state.unlinkPtraced pid).link pid pid1).set pid
        (some { proc with
          parent := pid1, ppid_parent := pid1, traced := false, move := none })).release pid
            proc.held)
    | _ => none
  | .exit pid => do
    let proc ← state.proc pid
    if proc.status = .running ∧ pid ≠ pid1 then
      some (state.set pid (some { proc with status := .exiting }))
    else none
  | .threadsGone pid => do
    let proc ← state.proc pid
    if proc.status = .exiting ∧ state.all (fun other =>
        other.move != some (.attach pid) && !(other.move == some .reap && other.parent == pid)) then
      some (state.set pid (some { proc with status := .exited }))
    else none
  | .closeReports pid => do
    let proc ← state.proc pid
    if proc.status = .exited ∧ state.all (fun other =>
        !(other.traced && other.parent == pid && !other.attaching)) then
      some (state.set pid (some { proc with status := .cleaning }))
    else none
  | .handOver pid child => do
    let proc ← state.proc child
    if state.statusOf pid = .cleaning ∧ proc.ppid_parent = pid ∧ proc.hashed ∧
        child ≠ pid1 then
      if proc.status = .zombie then
        some (((state.unlink child).set child (some { proc with hashed := false })).release
          child proc.held)
      else if proc.parent = pid then
        some (((state.unlink child).link child pid1).set child
          (some { proc with parent := pid1, ppid_parent := pid1 }))
      else
        some (((state.unlinkPtraced child).linkPtraced child pid1).set child
          (some { proc with ppid_parent := pid1 }))
    else none
  | .finalize pid => do
    let proc ← state.proc pid
    if proc.status = .cleaning ∧ pid ≠ pid1 ∧
        ((state.children pid = [] ∧ state.ptraced pid = []) ∨
          state.all (fun other => !(other.hashed && other.ppid_parent == pid))) then
      let next := state.set pid (some { proc with status := .zombie })
      if proc.parent = pid1 then some (next.release pid proc.held) else some next
    else none
  | .letGo pid => do
    let proc ← state.proc pid
    if proc.status = .zombie ∧ proc.held ∧ ¬proc.traced ∧ pid ≠ pid1 then
      if state.released pid = 0 then some (state.set pid (some { proc with held := false }))
      else some (state.free pid)
    else none

/-- The tree without processes. -/
def boot : State where
  proc pid := if pid = pid1 then some ⟨pid1, pid1, .running, false, true, true, none⟩ else none
  children _ := []
  ptraced _ := []
  reads _ := none
  released _ := 0
  pids := [pid1]

def machine : Machine State Op where
  init state := state = boot
  step state op next := exec state op = some next

end McKernel.ProcessTree
