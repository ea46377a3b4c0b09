import McKernel.Lib.FirstMatch
import McKernel.Lib.Machine

/-!
# The channel for remote sysfs files

`remote_show`, `remote_store` and `remote_release` of `executer/kernel/mcctrl/sysfs.c` send
one request at a time to McKernel.  They share a semaphore, the flag `busy`, which the
response clears, and the result word.  Signals interrupt every wait of a call; the request of
a call that has given up stays with McKernel, and its response comes later.
-/

namespace McKernel.Sysfs

open FirstMatch

inductive Kind where
  | show
  | store
  | release
  deriving DecidableEq, Repr

/-- How a call ends: with the result word, without one, or with an error. -/
inductive Outcome where
  | result (value : Int)
  /-- The buffer of McKernel is not known yet: an empty file. -/
  | eof
  | EINTR
  | ENOSPC
  /-- The error of `mcctrl_ikc_send`. -/
  | sendFailed (error : Int)
  deriving DecidableEq, Repr

/-- Where a call is. -/
inductive Phase where
  /-- `down_interruptible` -/
  | down
  | wait0
  /-- `req->busy = 1` and `mcctrl_ikc_send` -/
  | send
  | wait
  /-- `req->lresult` and `up` -/
  | read
  | done (outcome : Outcome)
  deriving DecidableEq, Repr

structure Call where
  id : Nat
  kind : Kind
  node : Nat
  /-- `bufsize` of a store. -/
  size : Nat
  phase : Phase
  deriving DecidableEq, Repr

namespace Call

def isDone (call : Call) : Bool :=
  match call.phase with
  | .done _ => true
  | _ => false

/-- The call is between `down_interruptible` and `up`. -/
def holds (call : Call) : Bool :=
  match call.phase with
  | .wait0 | .send | .wait | .read => true
  | .down | .done _ => false

def goto (phase : Phase) (call : Call) : Call := { call with phase := phase }

end Call

/-- A message to McKernel that its response names the node of. -/
structure Request where
  call : Nat
  node : Nat
  deriving DecidableEq, Repr

/-- The life of `struct sysfsm_node`. -/
inductive Node where
  | live
  /-- `sysfs_remove_file` has returned: no `show` or `store` is running or will start. -/
  | removed
  /-- `kfree(np)` -/
  | freed
  deriving DecidableEq, Repr

structure State where
  inited : Bool
  bufsize : Nat
  busy : Bool
  /-- `req->lresult`, with the call whose request it answers. -/
  lresult : Option (Nat × Int)
  /-- The call that is in the critical section of `sysfs_io_sem`. -/
  holder : Option Nat
  calls : List Call
  nodes : Nat → Node
  outstanding : List Request

inductive Op where
  | setup (bufsize : Nat)
  | call (id : Nat) (kind : Kind) (node size : Nat)
  | down (id : Nat)
  /-- The channel is found free. -/
  | proceed (id : Nat)
  /-- The request is sent; the error of `mcctrl_ikc_send` if there is one. -/
  | send (id : Nat) (error : Option Int)
  | wake (id : Nat)
  | read (id : Nat)
  /-- A signal ends the wait that the call is in. -/
  | interrupt (id : Nat)
  /-- `kfree(np)` in `release_i`, after `remote_release` has returned. -/
  | free (id : Nat)
  /-- McKernel answers; `delivered` is false if its `ihk_ikc_send` fails, or the `kzalloc` of
  `sysfsm_packet_handler`. -/
  | respond (request : Request) (value : Int) (delivered : Bool)
  deriving DecidableEq, Repr

namespace State

variable (state : State)

def find (id : Nat) : Option Call := state.calls.find? (·.id == id)

def goto (id : Nat) (phase : Phase) : State :=
  { state with calls := update (·.id == id) (Call.goto phase) state.calls }

/-- The call ends; a call in the critical section does `up`. -/
def finish (call : Call) (outcome : Outcome) : State :=
  { state with holder := if call.holds then none else state.holder }.goto call.id (.done outcome)

/-- Nobody is in `show` or `store` of the node. -/
def drained (node : Nat) : Bool :=
  state.calls.all fun call => call.node != node || call.isDone

def setNode (node : Nat) (value : Node) : State :=
  { state with nodes := Function.update state.nodes node value }

def start (kind : Kind) : Phase :=
  if state.inited then .down
  else
    match kind with
    | .show => .done .eof
    | .store => .done .ENOSPC
    | .release => .done .eof

/-- `sysfsm_resp_show`, `sysfsm_resp_store` and `sysfsm_resp_release`. -/
def respond (request : Request) (value : Int) : State :=
  { state with
    lresult := some (request.call, value), busy := false
    outstanding := state.outstanding.erase request }

end State

/-- A step, if it is possible. -/
def exec (state : State) : Op → Option State
  | .setup bufsize =>
    if state.inited then none else some { state with inited := true, bufsize := bufsize }
  | .call id kind node size =>
    if state.nodes node = .live ∧ state.find id = none then
      let started : State :=
        { state with calls := ⟨id, kind, node, size, state.start kind⟩ :: state.calls }
      match kind with
      | .show | .store => some started
      | .release => if state.drained node then some (started.setNode node .removed) else none
    else none
  | .down id => do
    let call ← state.find id
    if call.phase = .down ∧ state.holder = none then
      some ({ state with holder := some id }.goto id .wait0)
    else none
  | .proceed id => do
    let call ← state.find id
    if call.phase = .wait0 ∧ state.busy = false then
      if call.kind = .store ∧ state.bufsize < call.size then some (state.finish call .ENOSPC)
      else some (state.goto id .send)
    else none
  | .send id error => do
    let call ← state.find id
    if call.phase = .send then
      let marked : State := { state with busy := true }
      match error with
      | some error => some (marked.finish call (.sendFailed error))
      | none =>
        some ({ marked with outstanding := ⟨id, call.node⟩ :: state.outstanding }.goto id .wait)
    else none
  | .wake id => do
    let call ← state.find id
    if call.phase = .wait ∧ state.busy = false then some (state.goto id .read) else none
  | .read id => do
    let call ← state.find id
    let (_, value) ← state.lresult
    if call.phase = .read then some (state.finish call (.result value)) else none
  | .interrupt id => do
    let call ← state.find id
    match call.phase with
    | .down | .wait0 | .wait => some (state.finish call .EINTR)
    | .send | .read | .done _ => none
  | .free id => do
    let call ← state.find id
    if call.kind = .release ∧ call.isDone ∧ state.nodes call.node = .removed then
      some (state.setNode call.node .freed)
    else none
  | .respond request value delivered =>
    if request ∈ state.outstanding then
      if delivered then some (state.respond request value)
      else some { state with outstanding := state.outstanding.erase request }
    else none

/-- Nothing has been requested; there are files. -/
def boot : State := ⟨false, 0, false, none, none, [], fun _ => .live, []⟩

def machine : Machine State Op where
  init state := state = boot
  step state op next := exec state op = some next

end McKernel.Sysfs
