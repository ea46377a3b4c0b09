import McKernel.Clone.Model

/-!
# What a failed clone leaves behind

A failed `fork` takes back everything: the new objects are linked to nothing but the lists
and tables that the release functions unlink them from.  A failed clone within a process
does not: it drops a reference of the address space that it never took, and it may free the
table of thread ids that the other threads use.
-/

namespace McKernel.Clone

open Errno List Function State

open Vm (hasFlag)

variable {child routine : Nat} {middle initial : State}

variable {env : Env} {req : Request} {old cpuid : Nat} {before s after : State}

/-- Nothing names a new process: the other processes, with their tables, lists and counts, the
other address spaces and the hash tables are as they were. -/
structure Removed (env : Env) (before after : State) : Prop where
  processes : ∀ proc, proc ≠ env.process → after.processes proc = before.processes proc
  vms : ∀ vm, vm ≠ env.vm → after.vms vm = before.vms vm
  threadHash : after.threadHash = before.threadHash
  processHash : after.processHash = before.processHash

/-- All that was there before is as it was, also the caller but for the start routine, which every
call consumes, and the reservations; and no entry of the table of the caller names the new
thread. -/
structure Restored (env : Env) (old : Nat) (before after : State) : Prop extends
    Removed env before after where
  caller : after.threads old = { before.threads old with clonePthreadStartRoutine := 0 }
  reserved : ∀ cpu, (after.cpus cpu).runqReserved = (before.cpus cpu).runqReserved
  unnamed : ∀ table ∈ (after.processes (before.threads old).proc).tids, ∀ entry ∈ table,
    entry.thread ≠ some env.thread

/-! ## Removing a new process -/

/-- A new thread has a process and an address space of its own, with some references. -/
@[mk_iff]
structure Owns (env : Env) (state : State) (refcount : Int) : Prop where
  proc : (state.threads env.thread).proc = env.process
  vm : (state.threads env.thread).vm = env.vm
  vmRefcount : (state.vms env.vm).refcount = refcount
  vmProc : (state.vms env.vm).proc = env.process
  mainThread : (state.processes env.process).mainThread = env.thread

/-- A new process that only its parent and the hash tables name. -/
structure Removable (env : Env) (before state : State) : Prop extends Owns env state 1 where
  parent : (state.processes env.process).parent ≠ env.process
  linked : ∀ proc, proc ≠ env.process →
    (if proc = (state.processes env.process).parent then
      (state.processes proc).removeChild env.process
    else state.processes proc) = before.processes proc
  vms : ∀ vm, vm ≠ env.vm → state.vms vm = before.vms vm
  threadHash : state.threadHash.erase env.thread = before.threadHash
  processHash : state.processHash.erase env.process = before.processHash

/-- The last references of a new process are dropped: it leaves its parent and the hash
tables. -/
theorem destroy_spec (forks : hasFlag req.cloneFlags CLONE_VM = false)
    (owns : Owns env s 1) :
    ∃ after, destroy req s env.thread = some after ∧
      (∀ o, o ≠ env.process → after.processes o =
        if o = (s.processes env.process).parent then
          (s.processes o).removeChild env.process
        else s.processes o) ∧
      (∀ o, o ≠ env.vm → after.vms o = s.vms o) ∧
      after.threadHash = s.threadHash.erase env.thread ∧
      after.processHash = s.processHash.erase env.process ∧ after.cpus = s.cpus ∧
      ∀ o, o ≠ env.thread → after.threads o = s.threads o := by
  -- Every count that is dropped here is one, so that the functions run to their ends.
  simp [destroy, forks, releaseThread, destroyThread, releaseProcessVm, releaseProcess,
    updateThread, updateProcess, updateVm, owns.proc, owns.vm, owns.mainThread, owns.vmRefcount,
    owns.vmProc]
  refine ⟨?_, ?_, ?_⟩
  · intro o ne
    by_cases isParent : o = (s.processes env.process).parent
    · subst isParent
      simp [update_of_ne ne]
    · simp [isParent, ne]
  · intro o ne
    simp [ne]
  · intro o ne
    simp [ne]

theorem Removable.destroy (removable : Removable env before s)
    (forks : hasFlag req.cloneFlags CLONE_VM = false) :
    ∃ after, destroy req s env.thread = some after ∧ Removed env before after ∧
      after.cpus = s.cpus ∧ ∀ o, o ≠ env.thread → after.threads o = s.threads o := by
  obtain ⟨after, runs, processes, vms, threadHash, processHash, cpus, threads⟩ :=
    destroy_spec forks removable.toOwns
  refine ⟨after, runs, ⟨?_, ?_, ?_, ?_⟩, cpus, threads⟩
  · intro proc ne
    rw [processes proc ne, removable.linked proc ne]
  · intro vm ne
    rw [vms vm ne, removable.vms vm ne]
  · rw [threadHash, removable.threadHash]
  · rw [processHash, removable.processHash]

/-! ## Setting up a new process -/

/-- A new process that is not linked to anything. -/
structure Unlinked (env : Env) (old : Nat) (before state : State) : Prop extends
    Owns env state 1 where
  parent : (state.processes env.process).parent = (before.threads old).proc
  processes : ∀ proc, proc ≠ env.process → state.processes proc = before.processes proc
  vms : ∀ vm, vm ≠ env.vm → state.vms vm = before.vms vm
  threadHash : state.threadHash = before.threadHash
  processHash : state.processHash = before.processHash
  caller : (state.threads old).proc = (before.threads old).proc
  ptrace : (state.threads old).ptrace = (before.threads old).ptrace
  cpus : state.cpus = before.cpus

/-- The new objects are not in use. -/
structure Fresh (env : Env) (old : Nat) (before : State) : Prop where
  thread : env.thread ≠ old
  threadHash : env.thread ∉ before.threadHash
  processHash : env.process ∉ before.processHash
  vm : env.vm ≠ (before.threads old).vm
  process : ∀ proc ∈ relatives env before old, proc ≠ env.process
  lists : ∀ proc ∈ relatives env before old,
    env.process ∉ (before.processes proc).childrenList ∧
    env.process ∉ (before.processes proc).ptracedChildrenList
  tids : ∀ table ∈ (before.processes (before.threads old).proc).tids, ∀ entry ∈ table,
    entry.thread ≠ some env.thread

theorem mem_relatives_caller : (before.threads old).proc ∈ relatives env before old := by
  simp [relatives]

theorem Process.removeChild_of_notMem {proc : Process} (absent : child ∉ proc.childrenList) :
    proc.removeChild child = proc := by
  rw [Process.removeChild, erase_of_not_mem absent]

theorem Process.removeChild_addChild {proc : Process} (absent : child ∉ proc.childrenList) :
    (proc.addChild child).removeChild child = proc := by
  simp [Process.removeChild, Process.addChild, erase_append_right _ absent]

theorem Unlinked.removable (unlinked : Unlinked env old before s)
    (fresh : Fresh env old before) : Removable env before s where
  toOwns := unlinked.toOwns
  parent := unlinked.parent ▸ fresh.process _ mem_relatives_caller
  linked proc ne := by
    rw [unlinked.processes proc ne, unlinked.parent]
    split
    next isCaller =>
      rw [isCaller]
      exact Process.removeChild_of_notMem (fresh.lists _ mem_relatives_caller).1
    · rfl
  vms := unlinked.vms
  threadHash := by
    rw [unlinked.threadHash]
    exact erase_of_not_mem fresh.threadHash
  processHash := by
    rw [unlinked.processHash]
    exact erase_of_not_mem fresh.processHash

def linkParent (env : Env) (request : Request) (before : State) (old : Nat) : Nat :=
  let caller := (before.threads old).proc
  if hasFlag request.cloneFlags CLONE_PARENT then
    let ppid := (before.processes caller).ppidParent
    if (before.processes ppid).status = .exited ∨ (before.processes ppid).status = .zombie then
      env.pid1
    else ppid
  else caller

theorem linkParent_mem : linkParent env req before old ∈ relatives env before old := by
  unfold linkParent relatives
  simp only
  split
  · split <;> simp
  · simp

theorem Fresh.caller_ne (fresh : Fresh env old before) : (before.threads old).proc ≠ env.process :=
  fresh.process _ mem_relatives_caller

theorem Fresh.linkParent_ne (fresh : Fresh env old before) :
    linkParent env req before old ≠ env.process :=
  fresh.process _ linkParent_mem

/-- A new process that its parent and the hash tables name. -/
structure Linked (env : Env) (request : Request) (old : Nat) (before state : State) : Prop extends
    Owns env state 2 where
  parent : (state.processes env.process).parent = linkParent env request before old
  processes : ∀ proc, proc ≠ env.process → state.processes proc =
    if proc = linkParent env request before old then
      (before.processes proc).addChild env.process
    else before.processes proc
  vms : ∀ vm, vm ≠ env.vm → state.vms vm = before.vms vm
  threadHash : state.threadHash = before.threadHash ++ [env.thread]
  processHash : state.processHash = before.processHash ++ [env.process]
  caller : (state.threads old).proc = (before.threads old).proc
  ptrace : (state.threads old).ptrace = (before.threads old).ptrace
  cpus : state.cpus = before.cpus

theorem chainProcess_linked (unlinked : Unlinked env old before s)
    (parentNew : linkParent env req before old ≠ env.process) {self : Process}
    (mainThread : self.mainThread = env.thread)
    (parent : self.parent = linkParent env req before old) :
    Linked env req old before (chainProcess { chainThread s env.thread with
      processes := Function.update s.processes env.process self } env.process) := by
  have childNew := parentNew.symm
  obtain ⟨⟨proc, vm, vmRefcount, vmProc, -⟩, -, processes, vms, threadHash, processHash, caller,
    ptrace, cpus⟩ := unlinked
  constructor
  case processes =>
    intro o ne
    rw [← processes o ne]
    split
    next isParent =>
      subst isParent
      simp [chainProcess, updateProcess, parent, ne]
    next isOther => simp [chainProcess, updateProcess, parent, isOther, ne]
  all_goals
    simp +contextual [owns_iff, chainProcess, chainThread, updateProcess, updateVm, *]

theorem Unlinked.link (unlinked : Unlinked env old before s) (fresh : Fresh env old before)
    (forks : hasFlag req.cloneFlags CLONE_VM = false) :
    Linked env req old before (link env req s old) := by
  have callerNew := fresh.caller_ne
  have ppidNew : (before.processes (before.threads old).proc).ppidParent ≠ env.process :=
    fresh.process _ (by simp [relatives])
  by_cases toParent : hasFlag req.cloneFlags CLONE_PARENT = true
  · have same : (if (before.processes
          (before.processes (before.threads old).proc).ppidParent).status = .exited ∨
        (before.processes
          (before.processes (before.threads old).proc).ppidParent).status = .zombie
        then env.pid1 else (before.processes (before.threads old).proc).ppidParent) =
        linkParent env req before old := by
      simp [linkParent, toParent]
    simp only [Clone.link, forks, toParent, chainThread, updateProcess, updateVm,
      unlinked.proc, unlinked.caller, update_self, update_of_ne callerNew,
      unlinked.processes _ callerNew, update_of_ne ppidNew, unlinked.processes _ ppidNew,
      same, update_idem]
    exact chainProcess_linked unlinked fresh.linkParent_ne unlinked.mainThread rfl
  · have same : (before.threads old).proc = linkParent env req before old := by
      simp [linkParent, toParent]
    simp only [Clone.link, forks, toParent, chainThread, updateProcess, updateVm,
      unlinked.proc]
    exact chainProcess_linked unlinked fresh.linkParent_ne unlinked.mainThread
      (unlinked.parent.trans same)

theorem Owns.freeModCloneArg (owns : Owns env s 2) :
    Owns env (freeModCloneArg s env.thread) 1 := by
  constructor <;> simp [Clone.freeModCloneArg, updateThread, updateVm, owns.proc, owns.vm,
    owns.vmRefcount, owns.vmProc, owns.mainThread]

theorem Linked.removable (linked : Linked env req old before s)
    (fresh : Fresh env old before) : Removable env before (freeModCloneArg s env.thread) where
  toOwns := linked.toOwns.freeModCloneArg
  parent := linked.parent ▸ fresh.linkParent_ne
  linked proc ne := by
    show (if proc = (s.processes env.process).parent then _ else s.processes proc) = _
    simp only [freeModCloneArg, updateThread, updateVm]
    rw [linked.parent, linked.processes proc ne]
    split
    next isParent =>
      subst isParent
      exact Process.removeChild_addChild (fresh.lists _ linkParent_mem).1
    · rfl
  vms vm ne := by
    simp [freeModCloneArg, updateThread, updateVm, linked.vm, ne, linked.vms]
  threadHash := by
    show s.threadHash.erase env.thread = _
    rw [linked.threadHash, erase_append_right _ fresh.threadHash]
    simp
  processHash := by
    show s.processHash.erase env.process = _
    rw [linked.processHash, erase_append_right _ fresh.processHash]
    simp

theorem Unlinked.updateVm (unlinked : Unlinked env old before s)
    (change : ProcessVm → ProcessVm)
    (refcount : ∀ vm, (change vm).refcount = vm.refcount)
    (proc : ∀ vm, (change vm).proc = vm.proc) :
    Unlinked env old before (s.updateVm env.vm change) :=
  { unlinked with
    vmRefcount := by simp [State.updateVm, refcount, unlinked.vmRefcount]
    vmProc := by simp [State.updateVm, proc, unlinked.vmProc]
    vms := fun vm ne => by simp [State.updateVm, ne, unlinked.vms] }

variable {removed : State} {res : Except Stop State} {t : Nat}

/-- What the unwinding of a failure needs of a state in which the tracer has been told. -/
structure Told (thread old : Nat) (before state : State) : Prop where
  proc : (state.threads thread).proc = (before.threads thread).proc
  vm : (state.threads thread).vm = (before.threads thread).vm
  vms : state.vms = before.vms
  cpus : state.cpus = before.cpus
  mainThread : ∀ proc, (state.processes proc).mainThread = (before.processes proc).mainThread
  caller : (state.threads old).status = .traced

theorem updateProcess_mainThread (s : State) (target : Nat) (change : Process → Process)
    (kept : ∀ proc, (change proc).mainThread = proc.mainThread) (proc : Nat) :
    ((s.updateProcess target change).processes proc).mainThread =
      (s.processes proc).mainThread := by
  by_cases same : proc = target
  · subst same
    simp [updateProcess, kept]
  · simp [updateProcess, same]

theorem Told.updateProcess (told : Told t old before s) (target : Nat)
    {change : Process → Process} (kept : ∀ proc, (change proc).mainThread = proc.mainThread) :
    Told t old before (s.updateProcess target change) :=
  { told with
    mainThread := fun proc =>
      (updateProcess_mainThread s target change kept proc).trans (told.mainThread proc) }

theorem Told.updateThread (told : Told t old before s) (ne : t ≠ old)
    {change : Thread → Thread} (proc : ∀ thread, (change thread).proc = thread.proc)
    (vm : ∀ thread, (change thread).vm = thread.vm) :
    Told t old before (s.updateThread t change) where
  proc := by simp [State.updateThread, proc, told.proc]
  vm := by simp [State.updateThread, vm, told.vm]
  vms := told.vms
  cpus := told.cpus
  mainThread := told.mainThread
  caller := by simp [State.updateThread, ne.symm, told.caller]

theorem Told.attach (told : Told t old before s) (ne : t ≠ old) (tracer : Nat) :
    Told t old before (ptraceAttachThread env s t tracer) := by
  have reported : Told t old before ((s.updateProcess tracer (.addReporter t)).updateThread t
      fun thread => { thread with reportProc := some tracer }) :=
    (told.updateProcess tracer (fun _ => by rfl)).updateThread ne (fun _ => by rfl)
      (fun _ => by rfl)
  -- What follows changes lists and parents of processes and the count of the thread.
  unfold ptraceAttachThread
  simp only
  split <;> split
  · refine Told.updateThread (.updateProcess (.updateProcess (.updateProcess reported _ ?_) _ ?_)
      _ ?_) ne ?_ ?_ <;> exact fun _ => rfl
  · refine Told.updateThread reported ne ?_ ?_ <;> exact fun _ => rfl
  · refine .updateProcess (.updateProcess (.updateProcess reported _ ?_) _ ?_) _ ?_ <;>
      exact fun _ => rfl
  · exact reported

theorem Told.owns (told : Told env.thread old before s) (owns : Owns env before 2) :
    Owns env s 2 := by
  constructor <;> simp [told.proc, told.vm, told.vms, told.mainThread, owns.proc, owns.vm,
    owns.vmRefcount, owns.vmProc, owns.mainThread]

/-- The new thread is in the address space of the caller, and no reference of an address
space was taken or dropped. -/
structure Shares (env : Env) (old : Nat) (before state : State) : Prop where
  vm : (state.threads env.thread).vm = (before.threads old).vm
  refcount : ∀ vm, (state.vms vm).refcount = (before.vms vm).refcount

/-- A step takes no reference, also when it fails. -/
def Keeps (env : Env) (old : Nat) (before : State) : Except Stop State → Prop
  | .ok state => Shares env old before state
  | .error .crash => True
  | .error (.jump label _ state) => label ≠ .freeModCloneArg ∧ Shares env old before state

/-- Every jump keeps what `Shares` says. -/
def FailsClean (env : Env) (old : Nat) (before : State) (result : Except Stop State) : Prop :=
  ∀ label err state, result = .error (.jump label err state) →
    label ≠ .freeModCloneArg ∧ Shares env old before state

theorem Keeps.bind {next : State → Except Stop State} (keeps : Keeps env old before res)
    (then_ : ∀ s, Shares env old before s → FailsClean env old before (next s)) :
    FailsClean env old before (res >>= next) := by
  intro label err s failed
  cases res with
  | ok middle => exact then_ middle keeps label err s failed
  | error stop =>
    cases stop with
    | crash => cases failed
    | jump => cases failed; exact keeps

section

variable (shared : hasFlag req.cloneFlags CLONE_VM = true)
include shared

end

/-! ## `do_fork` -/

/-- The state in which the thread is created: the caller has its start routine and where it
spawns to, and the processor may be reserved. -/
def prepared (initial : State) (old : Nat) : State :=
  rankSpawn (initial.updateThread old fun thread =>
    { thread with clonePthreadStartRoutine := 0 }) old

/-- Preparing a clone changes the caller only. -/
structure Prepares (env : Env) (old : Nat) (initial middle : State) : Prop where
  processes : middle.processes = initial.processes
  vms : middle.vms = initial.vms
  threadHash : middle.threadHash = initial.threadHash
  processHash : middle.processHash = initial.processHash
  threads : middle.threads = (prepared initial old).threads
  proc : (middle.threads old).proc = (initial.threads old).proc
  vm : (middle.threads old).vm = (initial.threads old).vm
  ptrace : (middle.threads old).ptrace = (initial.threads old).ptrace
  caller : middle.threads old = { initial.threads old with
    clonePthreadStartRoutine := 0, modClone := (middle.threads old).modClone }

/-- The processor has one more reservation, unless it is for a helper thread. -/
def Reserves (env : Env) (routine cpuid : Nat) (initial middle : State) : Prop :=
  ∀ cpu, (middle.cpus cpu).runqReserved = (initial.cpus cpu).runqReserved +
    if cpu = cpuid ∧ isHelper env routine = false then 1 else 0

/-- The new thread and process are removed and the processor is released: nothing else has
changed when the processor had been reserved. -/
theorem Removed.restored (isRemoved : Removed env middle removed)
    (cpus : removed.cpus = middle.cpus) (fresh : Fresh env old middle)
    (prepares : Prepares env old initial middle) (noHelper : isHelper env routine = false)
    (reserved : Reserves env routine cpuid initial middle)
    (caller : removed.threads old = { initial.threads old with clonePthreadStartRoutine := 0 }) :
    Restored env old initial (releaseCpuid removed cpuid) where
  caller := caller
  processes proc ne := by
    show removed.processes proc = _
    rw [isRemoved.processes proc ne, prepares.processes]
  vms vm ne := by
    show removed.vms vm = _
    rw [isRemoved.vms vm ne, prepares.vms]
  threadHash := isRemoved.threadHash.trans prepares.threadHash
  processHash := isRemoved.processHash.trans prepares.processHash
  reserved cpu := by
    have before := reserved cpu
    simp only [releaseCpuid, updateCpu, cpus]
    by_cases same : cpu = cpuid
    · subst same
      simp only [noHelper, and_self, if_true] at before
      simp [before]
    · simp only [same, false_and, if_false, Int.add_zero] at before
      rw [update_of_ne same, before]
  unnamed := by
    show ∀ table ∈ (removed.processes (initial.threads old).proc).tids, _
    rw [← prepares.proc, isRemoved.processes _ fresh.caller_ne]
    exact fresh.tids

end McKernel.Clone
