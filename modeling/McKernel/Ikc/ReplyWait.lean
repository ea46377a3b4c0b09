import McKernel.Lib.Machine

/-!
# Waiting for a reply from McKernel

`mcctrl_ikc_send_wait` sends a message that names a wake-up descriptor and waits until the
reply callback has set the status of the descriptor.  A waiter that gives up leaves the
descriptor and the buffers of its caller to the callback, or to the cleanup at shutdown.
Which side came first is decided by a compare-and-swap on the status; each access to the
descriptor is one step here.
-/

namespace McKernel.Ikc

/-- Where the memory of the descriptor comes from. -/
inductive Desc where
  /-- `desc == NULL`: allocated by `mcctrl_ikc_send_wait` and added to `free_addrs`. -/
  | allocated
  /-- Part of a buffer that the caller lists in `free_addrs`. -/
  | embedded
  /-- A block of the caller's that is not listed, as in `remote_page_fault`. -/
  | separate
  /-- The allocation failed. -/
  | missing
  deriving DecidableEq, Repr

/-- Where the caller of `mcctrl_ikc_send_wait` is. -/
inductive Waiter where
  /-- `mcctrl_ikc_send` -/
  | send
  /-- One of the three waits; a signal or the timeout may end it at any time. -/
  | waiting
  /-- `cmpxchg(&desc->status, 0, 1)` -/
  | cas
  /-- `ihk_host_os_get_usrdata` after the wait was given up -/
  | lookup
  /-- `list_add` under the lock -/
  | link
  /-- `READ_ONCE(desc->err)` -/
  | readErr
  /-- The label `out` -/
  | release
  /-- Back in the caller. -/
  | returned
  /-- The caller has acted on `do_frees`. -/
  | finished
  deriving DecidableEq, Repr

/-- Where the reply is, and then `mcctrl_wakeup_cb`. -/
inductive Callback where
  /-- No message has been sent. -/
  | idle
  /-- The reply has not been received. -/
  | pending
  /-- `WRITE_ONCE(desc->err, ..)` -/
  | store
  /-- `cmpxchg(&desc->status, 0, 1)` -/
  | cas
  /-- `wake_up_interruptible(&desc->wq)` -/
  | wake
  /-- `ihk_host_os_get_usrdata` when the waiter has gone -/
  | lookup
  /-- `mcctrl_wakeup_desc_cleanup` under the lock -/
  | cleanup
  | done
  deriving DecidableEq, Repr

/-- How far `destroy_ikc_channels` has come. -/
inductive Shutdown where
  | up
  /-- The user data of the OS is `NULL`. -/
  | nulled
  | cleaned
  deriving DecidableEq, Repr

/-- One call of `mcctrl_ikc_send_wait`. -/
structure Request where
  desc : Desc
  waiter : Waiter
  callback : Callback
  status : Bool
  /-- The descriptor is in `wakeup_descs_list`. -/
  linked : Bool
  /-- `*do_frees` -/
  doFrees : Bool
  /-- How often each buffer of the caller in `free_addrs` has been freed. -/
  bufferFrees : Nat
  /-- How often the block of a descriptor outside the buffers has been freed. -/
  descFrees : Nat
  useAfterFree : Bool
  /-- `list_del` of a descriptor that is not in the list. -/
  badUnlink : Bool
  deriving DecidableEq, Repr

namespace Request

/-- The descriptor has been freed. -/
def gone (request : Request) : Bool :=
  match request.desc with
  | .embedded => decide (0 < request.bufferFrees)
  | _ => decide (0 < request.descFrees)

def access (request : Request) : Request :=
  { request with useAfterFree := request.useAfterFree || request.gone }

def waits (request : Request) (waiter : Waiter) : Request := { request with waiter := waiter }

def calls (request : Request) (callback : Callback) : Request :=
  { request with callback := callback }

/-- `kfree(desc)` of an allocated descriptor. -/
def freeDesc (request : Request) : Request :=
  if request.desc = .allocated then { request with descFrees := request.descFrees + 1 }
  else request

/-- `mcctrl_wakeup_desc_cleanup`: the descriptor is unlinked and everything in
`free_addrs` is freed, an allocated descriptor last. -/
def cleanup (request : Request) : Request :=
  { (request.access.freeDesc) with
    badUnlink := request.badUnlink || !request.linked
    linked := false
    bufferFrees := request.bufferFrees + 1 }

/-- The caller frees what `do_frees` leaves to it. -/
def callerFrees (request : Request) : Request :=
  if request.doFrees then
    { request with
      bufferFrees := request.bufferFrees + 1
      descFrees := request.descFrees + if request.desc = .separate then 1 else 0 }
  else request

end Request

/-- A new call. `do_frees` is set first, and stays set when the allocation fails. -/
def create (desc : Desc) : Request where
  desc := desc
  waiter := if desc = .missing then .returned else .send
  callback := .idle
  status := false
  linked := false
  doFrees := true
  bufferFrees := 0
  descFrees := 0
  useAfterFree := false
  badUnlink := false

/-- The waiter, one step; `sent` is the outcome of `mcctrl_ikc_send`. -/
def waiterStep (shutdown : Shutdown) (sent : Bool) (request : Request) : Option Request :=
  match request.waiter with
  | .send =>
    if sent then some ((request.waits .waiting).calls .pending)
    else some (request.freeDesc.waits .returned)
  | .waiting => some (request.access.waits .cas)
  | .cas =>
    if request.status then some (request.access.waits .readErr)
    else some ({ request.access with status := true }.waits .lookup)
  | .lookup => some (request.waits (if shutdown = .up then .link else .release))
  | .link => some ({ request.access with linked := true, doFrees := false }.waits .returned)
  | .readErr => some (request.access.waits .release)
  | .release => some (request.freeDesc.waits .returned)
  | .returned => some (request.callerFrees.waits .finished)
  | .finished => none

/-- The reply, one step. `syscall_packet_handler` drops it once the user data are gone. -/
def callbackStep (shutdown : Shutdown) (request : Request) : Option Request :=
  match request.callback with
  | .idle => none
  | .pending => some (request.calls (if shutdown = .up then .store else .done))
  | .store => some (request.access.calls .cas)
  | .cas =>
    if request.status then some (request.access.calls .lookup)
    else some ({ request.access with status := true }.calls .wake)
  | .wake => some (request.access.calls .done)
  | .lookup => some (request.calls (if shutdown = .up then .cleanup else .done))
  | .cleanup => some (request.cleanup.calls .done)
  | .done => none

/-- All requests of an OS. -/
structure State where
  requests : Nat → Option Request
  shutdown : Shutdown

inductive Action where
  | create (id : Nat) (desc : Desc)
  | waiter (id : Nat) (sent : Bool)
  | callback (id : Nat)
  /-- `ihk_host_os_set_usrdata(os, NULL)` -/
  | nullUsrdata
  /-- The loop over `wakeup_descs_list`, under the lock. -/
  | cleanDescs

def State.set (state : State) (id : Nat) (request : Request) : State :=
  { state with requests := Function.update state.requests id (some request) }

def State.update (state : State) (id : Nat) (step : Request → Option Request) : Option State :=
  (state.requests id).bind fun request => (step request).map (state.set id)

def exec (state : State) : Action → Option State
  | .create id desc =>
    match state.requests id with
    | none => some (state.set id (create desc))
    | some _ => none
  | .waiter id sent => state.update id (waiterStep state.shutdown sent)
  | .callback id => state.update id (callbackStep state.shutdown)
  | .nullUsrdata =>
    if state.shutdown = .up then some { state with shutdown := .nulled } else none
  | .cleanDescs =>
    if state.shutdown = .nulled then
      some ⟨fun id => (state.requests id).map fun request =>
        if request.linked then request.cleanup else request, .cleaned⟩
    else none

def machine : Machine State Action where
  init state := (∀ id, state.requests id = none) ∧ state.shutdown = .up
  step state action next := exec state action = some next

end McKernel.Ikc
