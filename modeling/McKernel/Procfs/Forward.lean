import McKernel.Lib.Errno
import McKernel.Lib.Machine

/-!
# Forwarding procfs to McKernel

`__mckernel_procfs_read_write` of `executer/kernel/mcctrl/procfs.c` lends McKernel a request
block and a data buffer, chunk by chunk, and waits for the answers with
`mcctrl_ikc_send_wait`.  The files with an output of their own, read through
`mckernel_procfs_buff_read`, lend the request block only.  Bytes are followed by where they
come from.
-/

namespace McKernel.Procfs

inductive Byte where
  /-- Whatever the pages of the buffer held when they were allocated. -/
  | stale
  | caller (index : Nat)
  | mckernel (position : Nat)
  deriving DecidableEq, Repr

/-- The files that are forwarded with a data buffer, and all others. -/
inductive Entry where
  | mem
  | pagemap
  | buffered
  deriving DecidableEq, Repr

/-- What happens to a page of the process in `mcos%d/PID/mem`. -/
inductive PageOutcome where
  | ok
  /-- `page_fault_process_vm` or `ihk_mc_pt_virt_to_phys` fails. -/
  | fault
  /-- `is_mckernel_memory` fails. -/
  | foreign
  deriving DecidableEq, Repr

/-! ## McKernel -/

/-- The fields of `struct procfs_read` of a request. -/
structure Request where
  entry : Entry
  write : Bool
  offset : Nat
  count : Nat
  deriving DecidableEq, Repr

/-- The loop over the pages of `mem`: `ret`, and the number of bytes that were copied.  Every
round copies at least one byte. -/
def memLoop (pages : Nat → PageOutcome) : (fuel offset left ans : Nat) → Int × Nat
  | 0, _, _, ans => (ans, ans)
  | fuel + 1, offset, left, ans =>
    if left = 0 then (ans, ans)
    else
      let size := min (pageSize - offset % pageSize) left
      match pages offset with
      | .fault => (if ans = 0 then Errno.EIO.code else ans, ans)
      | .foreign => ( Errno.EIO.code, ans)
      | .ok => memLoop pages fuel (offset + size) (left - size) (ans + size)

/-- The loop of `pagemap`: the number of entries that are stored. -/
def pagemapLoop : (fuel start end_ : Nat) → Nat
  | 0, _, _ => 0
  | fuel + 1, start, end_ =>
    if start < end_ then pagemapLoop fuel (start + pageSize) end_ + 1 else 0

/-- The first address of `pagemap`, an `unsigned long`. -/
def Request.start (request : Request) : Nat := request.offset / 8 * pageSize % 2 ^ 64

/-- The address behind the last one, an `unsigned long`. -/
def Request.end_ (request : Request) : Nat :=
  (request.start + request.count / 8 * pageSize) % 2 ^ 64

/-- `mcos%d/PID/pagemap`: `ret`, and the number of bytes that are stored. -/
def Request.pagemap (request : Request) : Int × Nat :=
  if request.offset % 8 ≠ 0 ∨ request.count % 8 ≠ 0 then (Errno.EINVAL.code, 0)
  else (request.count, 8 * pagemapLoop (request.count / 8) request.start request.end_)

/-- How McKernel deals with a request. -/
inductive Handling where
  /-- The label `err`: the answer carries an error, and `ret` keeps its default. -/
  | failed
  /-- No such process, or another entry that answers without data. -/
  | refused (ret : Int)
  | handled (pages : Nat → PageOutcome)

/-- What the request block holds when the answer is sent. -/
structure Reply where
  err : Int
  ret : Int
  deriving DecidableEq, Repr

def Request.handle (request : Request) : Handling → Reply × Nat
  | .failed => (⟨ Errno.EIO.code, Errno.EIO.code⟩, 0)
  | .refused ret => (⟨0, min ret 0⟩, 0)
  | .handled pages =>
    match request.entry with
    | .mem =>
      let (ret, copied) := memLoop pages request.count request.offset request.count 0
      (⟨0, ret⟩, copied)
    | .pagemap =>
      let (ret, stored) := request.pagemap
      (⟨0, ret⟩, stored)
    | .buffered => (⟨0, 0⟩, 0)

/-! ## Linux -/

/-- Who will free the request block. -/
inductive Owner where
  | caller
  | callback
  | freed
  deriving DecidableEq, Repr

inductive Phase where
  | loop
  /-- `mcctrl_ikc_send_wait` after the request has been sent. -/
  | waiting
  | check
  /-- The label `out`. -/
  | out (ret : Int)
  | returned (ret : Int)
  deriving DecidableEq, Repr

/-- A call of one of the forwarding functions. -/
structure Call where
  entry : Entry
  write : Bool
  offset : Nat
  /-- `count`: the bytes that are left. -/
  left : Nat
  copied : Nat
  /-- `copy_size`. -/
  size : Nat
  phase : Phase
  /-- A request has been sent and its answer has not been received. -/
  pending : Bool
  reply : Option Reply
  /-- The contents of `kern_buffer`. -/
  buffer : Nat → Byte
  bufferFreed : Bool
  block : Owner
  /-- The bytes that `copy_to_user` has given to the program. -/
  delivered : List Byte
  transferred : List Byte

namespace Call

variable (call : Call)

def request : Request := ⟨call.entry, call.write, call.offset, min call.left call.size⟩

/-- The request is sent, or `mcctrl_ikc_send_wait` fails before. -/
def send (error : Option Int) : Option Call :=
  if call.phase = .loop then
    match error with
    | some error => some { call with phase := .out (-error) }
    | none => some { call with phase := .waiting, pending := true, reply := none }
  else none

def process (handling : Handling) : Option Call :=
  if call.pending ∧ call.reply = none then
    let (reply, bytes) := call.request.handle handling
    some
      (if call.write then
        { call with
          reply := some reply
          transferred := call.transferred ++ (List.range bytes).map call.buffer }
      else
        { call with
          reply := some reply
          buffer := fun index =>
            if index < bytes then .mckernel (call.offset + index) else call.buffer index })
  else none

/-- `mcctrl_wakeup_cb`: the waiter goes on, or what it has left is freed. -/
def answer : Option Call := do
  let reply ← call.reply
  if call.pending then
    match call.phase with
    | .waiting =>
      some { call with
        pending := false, phase := if reply.err < 0 then .out reply.err else .check }
    | _ =>
      some { call with
        pending := false
        block := if call.block = .callback then .freed else call.block }
  else none

/-- A signal or the timeout ends the wait.  Without the data of the OS nothing is left to the
callback, and `do_free` stays set. -/
def giveUp (error : Int) (usrdata : Bool) : Option Call :=
  if call.phase = .waiting then
    some { call with
      phase := .out (-error), block := if usrdata then .callback else call.block }
  else none

/-- `copy_to_user` and the end of a round. -/
def check (copies : Bool) : Option Call := do
  let reply ← call.reply
  if call.phase = .check then
    if call.entry = .buffered ∨ reply.ret ≤ 0 then
      some { call with phase := .out (if call.copied = 0 then reply.ret else call.copied) }
    else if call.write = false ∧ copies = false then
      some { call with phase := .out Errno.EFAULT.code }
    else
      let ret := reply.ret.toNat
      let next : Call :=
        { call with
          offset := call.offset + ret, copied := call.copied + ret, left := call.left - ret
          delivered :=
            if call.write then call.delivered
            else call.delivered ++ (List.range ret).map call.buffer }
      some { next with phase := if next.left = 0 then .out next.copied else .loop }
  else none

/-- The label `out`. -/
def out : Option Call :=
  match call.phase with
  | .out ret =>
    some { call with
      phase := .returned ret
      bufferFreed := call.entry ≠ .buffered
      block := if call.block = .caller then .freed else call.block }
  | _ => none

end Call

def create (entry : Entry) (write : Bool) (offset count size : Nat) (allocated : Bool) : Call where
  entry := entry
  write := write
  offset := offset
  left := count
  copied := 0
  size := size
  phase := if allocated then .loop else .out Errno.ENOMEM.code
  pending := false
  reply := none
  buffer _ := .stale
  bufferFreed := false
  block := if allocated then .caller else .freed
  delivered := []
  transferred := []

/-- The calls, and whether the OS still has its `usrdata`. -/
structure State where
  calls : Nat → Option Call
  usrdata : Bool

inductive Op where
  | create (id : Nat) (entry : Entry) (write : Bool) (offset count size : Nat) (allocated : Bool)
  | send (id : Nat) (error : Option Int)
  | process (id : Nat) (handling : Handling)
  | answer (id : Nat)
  | giveUp (id : Nat) (error : Int)
  | check (id : Nat) (copies : Bool)
  | out (id : Nat)
  | destroyIkcChannels

def State.update (state : State) (id : Nat) (step : Call → Option Call) : Option State := do
  let call ← state.calls id
  let next ← step call
  some { state with calls := Function.update state.calls id (some next) }

/-- `mcctrl_wakeup_desc_cleanup` of the descriptor of a call, if it is in
`wakeup_descs_list`. -/
def Call.cleanup (call : Call) : Call :=
  { call with block := if call.block = .callback then .freed else call.block }

/-- `destroy_ikc_channels`, when the OS is shut down. -/
def State.destroyIkcChannels (state : State) : State :=
  ⟨fun id => (state.calls id).map Call.cleanup, false⟩

def exec (state : State) : Op → Option State
  | .create id entry write offset count size allocated =>
    -- `count <= 0 || offset < 0` is answered without a request.
    if (state.calls id).isNone ∧ 0 < count ∧ offset < 2 ^ 63 ∧ 0 < size then
      some { state with
        calls := Function.update state.calls id
          (some (create entry write offset count size allocated)) }
    else none
  | .send id error =>
    if error.isNone ∧ state.usrdata = false then none else state.update id (·.send error)
  | .process id handling => state.update id (·.process handling)
  -- Without `usrdata` the packet handler drops every answer.
  | .answer id => if state.usrdata then state.update id Call.answer else none
  | .giveUp id error => state.update id (·.giveUp error state.usrdata)
  | .check id copies => state.update id (·.check copies)
  | .out id => state.update id Call.out
  | .destroyIkcChannels => if state.usrdata then some state.destroyIkcChannels else none

def machine : Machine State Op where
  init state := state.usrdata = true ∧ ∀ id, state.calls id = none
  step state op next := exec state op = some next

end McKernel.Procfs
