import McKernel.Lib.FirstMatch
import McKernel.Lib.Machine

/-!
# Requests handed to the proxy process

The model of the way a system call request takes through `executer/kernel/mcctrl/control.c`:
it arrives as an IKC packet (`mcexec_syscall`), is given to a thread of the proxy process
that waits in `mcexec_wait_syscall` or is queued until one comes, is registered for that
thread, and is answered by `mcexec_ret_syscall`, `mcexec_terminate_thread` or, when the
process is gone, by `mcctrl_put_per_proc_data`.  The model follows one process; what it
shares with others is the list of host threads, in which only its own matter.  A step is
what a call does under one hold of a lock, or between two of them; the calls that finish a
request, `mcexec_ret_syscall` and `mcexec_terminate_thread`, are one step each, apart from
their last references to the process.
-/

namespace McKernel.Mcctrl

open FirstMatch

/-- A thread of the proxy process, `task_pid_vnr(current)`. -/
abbrev Tid := Nat

/-! ## Packets and lists -/

/-- How the host treats a request, as told by `req.number` and `req.args[0]`. -/
inductive Call where
  /-- `PAGER_REQ_RELEASE`, served by `__do_in_kernel_irq_syscall` when the packet comes. -/
  | pagerRelease
  /-- Served by `__do_in_kernel_syscall` in the thread that takes the request. -/
  | inKernel
  /-- `__NR_move_pages`: zeroing of pages, which `__do_in_kernel_syscall` does not answer. -/
  | movePages
  /-- `__NR_sched_setaffinity` of thread `0`: the requesting thread goes on under Linux. -/
  | migrate
  /-- Any other request, which the proxy process carries out, and the result of a system
  call that the proxy has sent the other way. -/
  | proxy
  deriving DecidableEq, Repr

/-- `struct ikc_scd_packet` of a system call request.  The acknowledgement in
`mcexec_wait_syscall` clears `valid`, which nothing reads afterwards; here it stays as it
arrived. -/
structure Packet where
  id : Nat
  ttid : Tid
  call : Call
  valid : Bool
  deriving DecidableEq, Repr

/-- `struct wait_queue_head_list_node`. -/
structure Node where
  task : Option Tid
  rtid : Tid
  packet : Option Packet
  deriving DecidableEq, Repr

/-- `wqhln->req`, which is set together with the packet. -/
def Node.req (node : Node) : Bool := node.packet.isSome

/-- `struct mcctrl_per_thread_data`. -/
structure PerThreadData where
  tid : Tid
  data : Packet
  refcount : Nat
  deriving DecidableEq, Repr

/-- Where a thread stands in `mcexec_wait_syscall` or `syscall_backward`. -/
inductive Phase where
  /-- At `retry`. -/
  | entering
  /-- In `wait_event_interruptible`, on `wq_list`. -/
  | waiting
  /-- The wait has returned `-ERESTARTSYS`; the node is still on `wq_list`. -/
  | signalled
  | interrupted (node : Node)
  /-- A request has been taken. -/
  | claimed (packet : Packet)
  /-- The request is registered for the thread, before `__do_in_kernel_syscall`. -/
  | handling
  /-- In `syscall_backward`, on `wq_list_exact`. -/
  | backward
  deriving DecidableEq, Repr

/-- A thread inside one of the two calls; it holds a reference to the process. -/
structure Worker where
  tid : Tid
  phase : Phase
  deriving DecidableEq, Repr

/-- `struct mcctrl_per_proc_data` of the process, which exists as long as `refcount` is not
zero, with the threads and handlers that work on it.  The fields from `received` on record
what has happened. -/
structure State where
  refcount : Nat
  opened : Bool
  wqList : List Node
  wqListExact : List Node
  wqReqList : List Node
  perThreadData : List PerThreadData
  /-- Packets in `mcexec_syscall`, which has a reference, before it takes the lock. -/
  arriving : List Packet
  inside : List Worker
  /-- References that calls on their way out have yet to drop. -/
  puts : Nat
  hostThreads : List Tid
  received : List Packet
  handed : List (Packet × Tid)
  answered : List Packet
  released : List Packet
  /-- Packets released without a thread: by `mcexec_syscall`, for the pager or a process that
  is gone, and by the last reference to the process. -/
  unserved : List Packet
  deriving Repr

def getRecord (tid : Tid) (records : List PerThreadData) : List PerThreadData :=
  update (·.tid == tid) (fun ptd => { ptd with refcount := ptd.refcount + 1 }) records

def putRecord (tid : Tid) (records : List PerThreadData) : List PerThreadData :=
  match records.find? (·.tid == tid) with
  | none => records
  | some ptd =>
    if ptd.refcount = 1 then records.eraseP (·.tid == tid)
    else update (·.tid == tid) (fun ptd => { ptd with refcount := ptd.refcount - 1 }) records

namespace State

/-! ## References and records -/

/-- `__return_syscall`. -/
def answer (state : State) (packet : Packet) : State :=
  { state with answered := packet :: state.answered }

/-- `ihk_ikc_release_packet`. -/
def release (state : State) (packet : Packet) : State :=
  { state with released := packet :: state.released }

def hand (state : State) (packet : Packet) (tid : Tid) : State :=
  { state with handed := (packet, tid) :: state.handed }

def phase (state : State) (tid : Tid) : Option Phase :=
  (state.inside.find? (·.tid == tid)).map Worker.phase

def goto (state : State) (tid : Tid) (phase : Phase) : State :=
  { state with inside := ⟨tid, phase⟩ :: state.inside.eraseP (·.tid == tid) }

def leave (state : State) (tid : Tid) : State :=
  { state with inside := state.inside.eraseP (·.tid == tid), puts := state.puts + 1 }

/-- A call that takes a reference and finds nothing to do. -/
def pass (state : State) : State :=
  { state with refcount := state.refcount + 1, puts := state.puts + 1 }

/-- The record of a thread in `per_thread_data_hash`. -/
def findPerThreadData (state : State) (tid : Tid) : Option PerThreadData :=
  state.perThreadData.find? (·.tid == tid)

/-- The effect of `mcctrl_get_per_thread_data` on the record that is found. -/
def getPerThreadData (state : State) (tid : Tid) : State :=
  { state with perThreadData := getRecord tid state.perThreadData }

def putPerThreadData (state : State) (tid : Tid) : State :=
  { state with perThreadData := putRecord tid state.perThreadData }

def packetsOf (nodes : List Node) : List Packet := nodes.filterMap Node.packet

/-- `mcctrl_put_per_proc_data`: the last reference answers and releases the requests that
are registered for threads and those that wait for one, and frees the structure. -/
def putPerProcData (state : State) : State :=
  if state.refcount = 1 then
    let left := state.perThreadData.map PerThreadData.data ++ packetsOf state.wqReqList
    { state with
      refcount := 0
      wqList := []
      wqListExact := []
      wqReqList := []
      perThreadData := []
      answered := left ++ state.answered
      released := left ++ state.released
      unserved := packetsOf state.wqReqList ++ state.unserved }
  else { state with refcount := state.refcount - 1 }

/-! ## `mcexec_syscall` -/

/-- A waiting thread without a request. -/
def available (node : Node) : Bool := node.task.isSome && !node.req

def meantFor (packet : Packet) (node : Node) : Bool := node.rtid == packet.ttid

/-- `wqhln->packet = packet; wqhln->req = 1`. -/
def fill (packet : Packet) (node : Node) : Node := { node with packet := some packet }

/-- A request for which no thread waits. -/
def queued (packet : Packet) : Node where
  task := none
  rtid := if packet.call = .migrate then packet.ttid else 0
  packet := some packet

/-- `mcexec_syscall` under `wq_list_lock`. -/
def deliver (state : State) (packet : Packet) : State :=
  if packet.ttid = 0 then
    if state.wqList.any available then
      { state with wqList := update available (fill packet) state.wqList }
    else { state with wqReqList := state.wqReqList ++ [queued packet] }
  else if packet.call = .migrate ∧ ((state.wqList.find? (meantFor packet)).any available) then
    { state with wqList := update (meantFor packet) (fill packet) state.wqList }
  else if state.wqListExact.any (meantFor packet) then
    { state with wqListExact := update (meantFor packet) (fill packet) state.wqListExact }
  else { state with wqReqList := state.wqReqList ++ [queued packet] }

/-! ## `mcexec_wait_syscall` -/

/-- A queued request that any thread may take. -/
def untaken (node : Node) : Bool := node.rtid == 0 && node.task.isNone && node.req

def takeQueued (state : State) (tid : Tid) (test : Node → Bool) (node : Node) : Option State :=
  node.packet.map fun packet =>
    ({ state with wqReqList := state.wqReqList.eraseP test }.hand packet tid).goto tid
      (.claimed packet)

/-- From `retry` on: take a queued request, one for this thread first, or wait for one. -/
def claim (state : State) (tid : Tid) : Option State :=
  match state.wqReqList.find? (·.rtid == tid) with
  | some node => state.takeQueued tid (·.rtid == tid) node
  | none =>
    match state.wqReqList.find? untaken with
    | some node => state.takeQueued tid untaken node
    | none =>
      some ({ state with wqList := ⟨some tid, tid, none⟩ :: state.wqList }.goto tid .waiting)

/-- `syscall_backward` puts a node on `wq_list_exact` and waits. -/
def startBackward (state : State) (tid : Tid) : State :=
  { state with
    refcount := state.refcount + 1
    wqListExact := state.wqListExact ++ [⟨some tid, tid, none⟩]
    inside := ⟨tid, .backward⟩ :: state.inside }

/-- `list_del` of the node that a thread has put on a list. -/
def unlist (nodes : List Node) (tid : Tid) : List Node := nodes.eraseP (·.rtid == tid)

def requeue (state : State) (tid : Tid) (node : Node) : State :=
  (if node.req then { state with wqReqList := state.wqReqList ++ [node] } else state).leave tid

/-- The references to a record that is in use: that of the table, that of the call, and one
more for a thread that goes on under Linux. -/
def initialRefcount (packet : Packet) : Nat := if packet.call = .migrate then 3 else 2

/-- `mcctrl_add_per_thread_data` and the references that the call takes to the new record. -/
def addPerThreadData (state : State) (tid : Tid) (packet : Packet) : State :=
  { state with
    perThreadData := state.perThreadData ++ [⟨tid, packet, initialRefcount packet⟩] }

def register (state : State) (tid : Tid) (packet : Packet) (allocated : Bool) : State :=
  if packet.valid = false then (state.release packet).goto tid .entering
  else if allocated ∧ state.findPerThreadData tid = none then
    (state.addPerThreadData tid packet).goto tid .handling
  else state.leave tid

/-- `__do_in_kernel_syscall`, and the return to the proxy process when it has nothing to do.
The record stays, whether or not the request can be copied to the caller. -/
def execute (state : State) (tid : Tid) (packet : Packet) : State :=
  match packet.call with
  | .pagerRelease | .inKernel =>
    ((((state.answer packet).release packet).putPerThreadData tid).putPerThreadData tid).goto tid
      .entering
  | .movePages =>
    (((state.release packet).putPerThreadData tid).putPerThreadData tid).goto tid .entering
  | .migrate | .proxy => (state.putPerThreadData tid).leave tid

/-! ## The end of a request -/

/-- `mcexec_ret_syscall`; `copied` tells whether the result data could be copied, if there
are any. -/
def ret (state : State) (tid : Tid) (copied : Bool) : State :=
  match state.findPerThreadData tid with
  | none => state.pass
  | some ptd =>
    let looked := state.pass.getPerThreadData tid
    let replied := if copied then looked.answer ptd.data else looked
    ((replied.release ptd.data).putPerThreadData tid).putPerThreadData tid

/-- `mcexec_terminate_thread_unsafe`, which drops the reference of the host thread too.
Without a reference of its own for Linux the record is freed before its last use. -/
def terminate (state : State) (tid tsk : Tid) : Option State :=
  let held := { state with refcount := state.refcount + 1, puts := state.puts + 2 }
  match state.findPerThreadData tsk with
  | none => some held
  | some ptd =>
    let looked := held.getPerThreadData tsk
    if tsk ≠ tid then some looked
    else if ptd.refcount < 2 then none
    else
      let finished := (looked.answer ptd.data).release ptd.data
      some (((finished.putPerThreadData tid).putPerThreadData tid).putPerThreadData tid)

end State

/-! ## Steps -/

/-- What can happen. -/
inductive Op where
  /-- `mcexec_create_per_process_data`. -/
  | create
  /-- `mcexec_destroy_per_process_data`, on the release of the file. -/
  | destroy
  /-- A call on its way out drops a reference to the process. -/
  | put
  /-- A packet comes. -/
  | arrive (ttid : Tid) (call : Call) (valid : Bool)
  | deliver (id : Nat)
  | enter (tid : Tid)
  | claim (tid : Tid)
  /-- The wait ends because of a request, or because of a signal when there is none. -/
  | wake (tid : Tid)
  | signal (tid : Tid)
  | unlink (tid : Tid)
  | requeue (tid : Tid)
  | register (tid : Tid) (allocated : Bool)
  | execute (tid : Tid)
  /-- `mcexec_ret_syscall`, whose descriptor and data may be unreadable. -/
  | ret (tid : Tid) (readable copied : Bool)
  /-- `mcexec_util_thread2`. -/
  | utilThread (tid : Tid)
  | terminate (tid tsk : Tid)
  /-- `syscall_backward`: it starts, gets the result, or gives up. -/
  | backward (tid : Tid)
  | backwardWake (tid : Tid)
  | backwardQuit (tid : Tid)
  deriving DecidableEq, Repr

open State

/-- One step.  There is none where the code would use the structure of the process, or the
record of a thread, after it has been freed. -/
def exec (state : State) : Op → Option State
  | .create =>
    if state.refcount = 0 then some { state with refcount := 1, opened := true }
    else some state.pass
  | .destroy =>
    if state.opened = false then none
    else if state.refcount = 0 then some { state with opened := false }
    else
      some { state with
        opened := false, refcount := state.refcount + 1, puts := state.puts + 2 }
  | .put =>
    if state.puts = 0 ∨ state.refcount = 0 then none
    else some { state with puts := state.puts - 1 }.putPerProcData
  | .arrive ttid call valid =>
    let packet : Packet := ⟨state.received.length, ttid, call, valid⟩
    let received := { state with received := packet :: state.received }
    if call = .pagerRelease ∨ state.refcount = 0 then
      some { (received.answer packet).release packet with unserved := packet :: state.unserved }
    else
      some { received with
        refcount := state.refcount + 1, arriving := packet :: state.arriving }
  | .deliver id =>
    if state.refcount = 0 then none
    else
      (state.arriving.find? (·.id == id)).map fun packet =>
        { state with
          arriving := state.arriving.eraseP (·.id == id), puts := state.puts + 1 }.deliver packet
  | .enter tid =>
    if state.phase tid ≠ none then none
    else if state.refcount = 0 then some state
    else if state.findPerThreadData tid ≠ none then some state.pass
    else
      some { state with
        refcount := state.refcount + 1, inside := ⟨tid, .entering⟩ :: state.inside }
  | .claim tid =>
    if state.refcount ≠ 0 ∧ state.phase tid = some .entering then state.claim tid else none
  | .wake tid =>
    if state.refcount ≠ 0 ∧ state.phase tid = some .waiting then
      ((state.wqList.find? (·.rtid == tid)).bind Node.packet).map fun packet =>
        ({ state with wqList := unlist state.wqList tid }.hand packet tid).goto tid
          (.claimed packet)
    else none
  | .signal tid =>
    if state.refcount ≠ 0 ∧ state.phase tid = some .waiting ∧
        ((state.wqList.find? (·.rtid == tid)).bind Node.packet) = none then
      some (state.goto tid .signalled)
    else none
  | .unlink tid =>
    if state.refcount ≠ 0 ∧ state.phase tid = some .signalled then
      (state.wqList.find? (·.rtid == tid)).map fun node =>
        { state with wqList := unlist state.wqList tid }.goto tid (.interrupted node)
    else none
  | .requeue tid =>
    match state.phase tid with
    | some (.interrupted node) =>
      if state.refcount = 0 then none else some (state.requeue tid node)
    | _ => none
  | .register tid allocated =>
    match state.phase tid with
    | some (.claimed packet) =>
      if state.refcount = 0 then none else some (state.register tid packet allocated)
    | _ => none
  | .execute tid =>
    if state.refcount ≠ 0 ∧ state.phase tid = some .handling then
      (state.findPerThreadData tid).map fun ptd => state.execute tid ptd.data
    else none
  | .ret tid readable copied =>
    if state.phase tid ≠ none then none
    else if readable = false ∨ state.refcount = 0 then some state
    else some (state.ret tid copied)
  | .utilThread tid =>
    some { state with
      hostThreads := tid :: state.hostThreads
      refcount := if state.refcount = 0 then 0 else state.refcount + 1 }
  | .terminate tid tsk =>
    if tid ∉ state.hostThreads then some state
    else
      let removed := { state with hostThreads := state.hostThreads.erase tid }
      if state.refcount = 0 then some removed else removed.terminate tid tsk
  | .backward tid =>
    if state.phase tid ≠ none then none
    else if state.refcount = 0 then some state
    else if state.findPerThreadData tid = none then some state.pass
    else
      some ((state.startBackward tid).getPerThreadData tid)
  | .backwardWake tid =>
    if state.refcount ≠ 0 ∧ state.phase tid = some .backward then
      ((state.wqListExact.find? (·.rtid == tid)).bind Node.packet).map fun packet =>
        ((({ state with wqListExact := unlist state.wqListExact tid }.hand packet tid).release
          packet).putPerThreadData tid).leave tid
    else none
  | .backwardQuit tid =>
    if state.refcount ≠ 0 ∧ state.phase tid = some .backward then
      some (({ state with wqListExact := unlist state.wqListExact tid }.putPerThreadData
        tid).leave tid)
    else none

/-- No process, and nothing has happened. -/
def boot : State := ⟨0, false, [], [], [], [], [], [], 0, [], [], [], [], [], []⟩

/-- The driver of one proxy process. -/
def machine : Machine State Op where
  init state := state = boot
  step state op next := exec state op = some next

/-! ## Where a packet is -/

def Packet.weight (packet other : Packet) : Nat := if other = packet then 1 else 0

def Node.weight (packet : Packet) (node : Node) : Nat := node.packet.elim 0 packet.weight

def Worker.pendingWeight (packet : Packet) (worker : Worker) : Nat :=
  match worker.phase with
  | .interrupted node => node.weight packet
  | _ => 0

def Worker.claimedWeight (packet : Packet) (worker : Worker) : Nat :=
  match worker.phase with
  | .claimed claimed => packet.weight claimed
  | _ => 0

def PerThreadData.weight (packet : Packet) (ptd : PerThreadData) : Nat := packet.weight ptd.data

namespace State

/-- The places in which a packet waits. -/
def pending (state : State) (packet : Packet) : Nat :=
  total packet.weight state.arriving + total (Node.weight packet) state.wqList +
    total (Node.weight packet) state.wqListExact + total (Node.weight packet) state.wqReqList +
    total (Worker.pendingWeight packet) state.inside

/-- The workers and records that hold a packet. -/
def owned (state : State) (packet : Packet) : Nat :=
  total (Worker.claimedWeight packet) state.inside +
    total (PerThreadData.weight packet) state.perThreadData

/-- How often a packet was handed over. -/
def handovers (state : State) (packet : Packet) : Nat :=
  total (fun entry : Packet × Tid => packet.weight entry.1) state.handed

end State

/-- The requests that have to be answered: those that are not results of system calls sent
the other way, except for the zeroing of pages. -/
def Packet.owed (packet : Packet) : Prop :=
  packet.valid = true ∧ packet.call ≠ .movePages ∧ (packet.ttid = 0 ∨ packet.call = .migrate)

instance (packet : Packet) : Decidable packet.owed := by
  unfold Packet.owed
  infer_instance

/-- The exceptions: a packet for a thread that does not wait for it in `syscall_backward`, or
already has one, unless it asks for the thread to migrate; a failed allocation; data that
cannot be copied; a request that is not finished by the call meant for it; a result that
comes when `syscall_backward` has given up; and a host thread without a process. -/
def regular (state : State) : Op → Bool
  | .deliver id =>
    (state.arriving.find? (·.id == id)).all fun packet =>
      packet.ttid == 0 ||
        match state.wqListExact.find? (meantFor packet) with
        | some node => decide (packet.call ≠ .migrate) && node.packet.isNone
        | none => decide (packet.call = .migrate)
  | .register _ allocated => allocated
  | .ret tid _ copied =>
    copied && (state.findPerThreadData tid).all fun ptd => decide (ptd.data.call ≠ .migrate)
  | .utilThread _ => decide (state.refcount ≠ 0)
  | .terminate tid tsk =>
    decide (tsk = tid) && (state.phase tid).isNone &&
      (state.findPerThreadData tid).all fun ptd => decide (ptd.data.call = .migrate)
  | .backwardQuit tid => ((state.wqListExact.find? (·.rtid == tid)).bind Node.packet).isNone
  | _ => true

/-- `regular` as a proposition. -/
def Regular (state : State) (op : Op) : Prop := regular state op = true

end McKernel.Mcctrl
