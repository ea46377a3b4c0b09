import McKernel.Lib.Machine

/-!
# The handshake of an offloaded system call

A McKernel thread that offloads a system call publishes a response block on its stack and
waits until Linux has written the result there.  It spins, or it goes to sleep after it has
announced this in the block; Linux then has to send a message to wake it up.  While a
request is served Linux may ask the thread to execute system calls on its behalf, through
the same block.  Every load, store and compare-and-swap of the two sides is one step here.
-/

namespace McKernel.Offload

/-- `IHK_SCD_REQ_THREAD_*` -/
inductive ReqThreadStatus where
  | spinning
  | descheduled
  | toBeWoken
  deriving DecidableEq, Repr

/-- `STATUS_*` -/
inductive Status where
  | inProgress
  | completed
  | syscall
  deriving DecidableEq, Repr

/-- The fields of `struct syscall_response` that the two sides synchronise on. -/
@[ext] structure SyscallResponse where
  reqThreadStatus : ReqThreadStatus
  status : Status
  deriving DecidableEq, Repr

/-- Where the requester is in `do_syscall`. The flag of the publishing states tells the
result of a backward call (`true`) from the request itself. -/
inductive Requester where
  | outside
  /-- `res.req_thread_status = IHK_SCD_REQ_THREAD_SPINNING` -/
  | publish (again : Bool)
  /-- `res->status = 0` in `send_syscall` -/
  | clear (again : Bool)
  /-- `ihk_ikc_send` in `send_syscall` -/
  | send (again : Bool)
  /-- `while (res.status != STATUS_COMPLETED)` -/
  | outer
  /-- `while (res.status == STATUS_IN_PROGRESS)` -/
  | inner
  /-- The decision to go to sleep or to spin. -/
  | decide
  /-- `res.req_thread_status == IHK_SCD_REQ_THREAD_DESCHEDULED`, interrupts are off -/
  | load
  /-- `cmpxchg(.., SPINNING, DESCHEDULED)`, interrupts are off -/
  | cas
  /-- `waitq_prepare_to_wait`, interrupts are off -/
  | prepare
  /-- In `schedule()`, entered in `scd_wq`. -/
  | asleep
  /-- `if (res.status == STATUS_SYSCALL)` -/
  | after
  /-- The backward call is executed. -/
  | handle
  deriving DecidableEq, Repr

/-- What the responder is about to tell. -/
inductive Reply where
  /-- `__return_syscall` -/
  | final
  | backward
  deriving DecidableEq, Repr

inductive Responder where
  /-- No request is served. -/
  | idle
  | serving
  /-- The result, or the request of a backward call, is stored into the block. -/
  | fill (reply : Reply)
  /-- `cmpxchg(.., SPINNING, TO_BE_WOKEN)` in `__notify_syscall_requester` -/
  | notify (reply : Reply)
  /-- The check for a competing wake-up, which only prints. -/
  | recheck (reply : Reply)
  /-- `cmpxchg(.., DESCHEDULED, TO_BE_WOKEN)` -/
  | notifySlow (reply : Reply)
  /-- `ihk_ikc_send` of `SCD_MSG_WAKE_UP_SYSCALL_THREAD` -/
  | wake (reply : Reply)
  /-- `res->status = ..` -/
  | post (reply : Reply)
  /-- `wait_event_interruptible` in `syscall_backward`, with the value of `retry`. -/
  | waiting (retry : Nat)
  deriving DecidableEq, Repr

/-- The block, both sides, and the messages between them. -/
structure State where
  block : SyscallResponse
  /-- `do_syscall` has not returned: the block exists. -/
  live : Bool
  requester : Requester
  responder : Responder
  /-- Wake-up messages on their way to McKernel. -/
  wakeups : Nat
  requests : Nat
  /-- Results of backward calls on their way to Linux. -/
  replies : Nat
  inconsistent : Bool
  lateTouch : Bool
  deriving DecidableEq, Repr

namespace State

def setReqThreadStatus (state : State) (value : ReqThreadStatus) : State :=
  { state with block := { state.block with reqThreadStatus := value } }

def setStatus (state : State) (value : Status) : State :=
  { state with block := { state.block with status := value } }

def goto (state : State) (requester : Requester) : State :=
  { state with requester := requester }

def respond (state : State) (responder : Responder) : State :=
  { state with responder := responder }

def touch (state : State) : State :=
  { state with lateTouch := state.lateTouch || !state.live }

end State

/-- `do_syscall`, one step; `sleep` is the outcome of the look at the run queue. -/
def requesterStep (sleep : Bool) (state : State) : Option State :=
  match state.requester with
  | .outside => none
  | .publish again => some ((state.setReqThreadStatus .spinning).goto (.clear again))
  | .clear again => some ((state.setStatus .inProgress).goto (.send again))
  | .send true => some { state with replies := state.replies + 1, requester := .outer }
  | .send false => some { state with requests := state.requests + 1, requester := .outer }
  | .outer =>
    if state.block.status = .completed then
      some { state with live := false, requester := .outside }
    else some (state.goto .inner)
  | .inner => some (state.goto (if state.block.status = .inProgress then .decide else .after))
  | .decide => some (state.goto (if sleep then .load else .inner))
  | .load =>
    some (state.goto (if state.block.reqThreadStatus = .descheduled then .prepare else .cas))
  | .cas =>
    if state.block.reqThreadStatus = .spinning then
      some ((state.setReqThreadStatus .descheduled).goto .prepare)
    else some (state.goto .inner)
  | .prepare => some (state.goto .asleep)
  | .asleep => none
  | .after => some (state.goto (if state.block.status = .syscall then .handle else .outer))
  | .handle => some (state.goto (.publish true))

/-- One step in mcctrl. -/
def responderStep (state : State) : Option State :=
  match state.responder with
  | .fill reply => some (state.touch.respond (.notify reply))
  | .notify reply =>
    if state.block.reqThreadStatus = .spinning then
      some ((state.touch.setReqThreadStatus .toBeWoken).respond (.post reply))
    else some (state.touch.respond (.recheck reply))
  | .recheck reply => some (state.touch.respond (.notifySlow reply))
  | .notifySlow reply =>
    if state.block.reqThreadStatus = .descheduled then
      some ((state.touch.setReqThreadStatus .toBeWoken).respond (.wake reply))
    else some { state.touch with inconsistent := true, responder := .post reply }
  | .wake reply => some { state with wakeups := state.wakeups + 1, responder := .post reply }
  | .post .final => some ((state.touch.setStatus .completed).respond .idle)
  | .post .backward => some ((state.touch.setStatus .syscall).respond (.waiting 0))
  | _ => none

/-- Interrupts are on, so that messages are received. -/
def Requester.interruptible : Requester → Bool
  | .load => false
  | .cas => false
  | .prepare => false
  | _ => true

def Requester.woken : Requester → Requester
  | .asleep => .inner
  | requester => requester

inductive Action where
  /-- `do_syscall` is called; the block holds what was on the stack. -/
  | call (stale : SyscallResponse)
  | requester (sleep : Bool)
  /-- A wake-up message arrives. -/
  | deliver
  /-- The thread is woken up for another reason. -/
  | spurious
  /-- A worker takes the request. -/
  | accept
  /-- The worker returns, or makes a backward call. -/
  | begin (reply : Reply)
  | responder
  /-- The result of a backward call arrives. Without a waiter it is queued as a request. -/
  | arrive
  /-- A signal ends `wait_event_interruptible`. -/
  | interrupt
  deriving DecidableEq, Repr

def exec (state : State) : Action → Option State
  | .call stale =>
    if state.requester = .outside then
      some { state with block := stale, live := true, requester := .publish false }
    else none
  | .requester sleep => requesterStep sleep state
  | .deliver =>
    if 0 < state.wakeups ∧ state.requester.interruptible then
      some { state with wakeups := state.wakeups - 1, requester := state.requester.woken }
    else none
  | .spurious => if state.requester = .asleep then some (state.goto .inner) else none
  | .accept =>
    if 0 < state.requests ∧ state.responder = .idle then
      some { state with requests := state.requests - 1, responder := .serving }
    else none
  | .begin reply =>
    if state.responder = .serving then some (state.respond (.fill reply)) else none
  | .responder => responderStep state
  | .arrive =>
    if 0 < state.replies then
      match state.responder with
      | .waiting _ => some { state with replies := state.replies - 1, responder := .serving }
      | _ => some { state with replies := state.replies - 1, requests := state.requests + 1 }
    else none
  | .interrupt =>
    match state.responder with
    | .waiting retry =>
      some (state.respond (if retry + 1 < 5 then .waiting (retry + 1) else .serving))
    | _ => none

/-- No call is in progress. -/
def Quiet (state : State) : Prop :=
  state.live = false ∧ state.requester = .outside ∧ state.responder = .idle ∧
    state.requests = 0 ∧ state.replies = 0 ∧ state.inconsistent = false ∧ state.lateTouch = false

instance (state : State) : Decidable (Quiet state) := by
  unfold Quiet
  infer_instance

def machine : Machine State Action where
  init := Quiet
  step state action next := exec state action = some next

end McKernel.Offload
