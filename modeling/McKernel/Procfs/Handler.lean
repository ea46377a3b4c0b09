import McKernel.Lib.CInt
import McKernel.Lib.Ledger
import McKernel.Procfs.Forward

/-!
# `_process_procfs_request`

The handler of procfs requests in `kernel/procfs.c`: the path is parsed with `sscanf` and
`strchr`, the process and the thread are looked up and held, and every entry produces its
output and leaves by one of the labels `end`, `err` and `out`.  What has been taken on the way
is kept in a ledger.  Output is kept as lengths.  What else the handler finds is an input.
-/

namespace McKernel.Procfs.Handler

/-! ## The path -/

def isSpace (char : Char) : Bool := char == ' ' || ('\t' ≤ char && char ≤ '\r')

/-- `simple_strtol` on the digits at the front. -/
def decimal (value : Nat) : List Char → Nat
  | [] => value
  | char :: rest =>
    if char.isDigit then decimal (10 * value + (char.toNat - '0'.toNat)) rest else value

/-- `%d`. -/
def scanInt (text : List Char) : Option Int :=
  match text.dropWhile isSpace with
  | '-' :: char :: rest =>
    if char.isDigit then some (CInt.toInt (-decimal 0 (char :: rest))) else none
  | char :: rest => if char.isDigit then some (CInt.toInt (decimal 0 (char :: rest))) else none
  | [] => none

/-- `sscanf` with a literal before and a slash behind `%d`.  The slash need not be there: one
conversion is what is counted. -/
def sscanf : List Char → List Char → Option Int
  | [], text => scanInt text
  | literal :: rest, char :: text => if literal = char then sscanf rest text else none
  | _ :: _, [] => none

/-- `strchr(p, '/') + 1`; there is nothing behind a slash that does not exist. -/
def behindSlash : List Char → Option (List Char)
  | [] => none
  | char :: rest => if char = '/' then some rest else behindSlash rest

/-! ## What is taken -/

inductive Resource where
  | parg
  | request
  | pbuf
  | vbuf
  | tmp
  | hashLock
  | threadsLock
  | proc
  | thread
  | vm
  | rangeLock
  | bitmasks
  | page (index : Nat)
  deriving DecidableEq, Repr

/-- What the cursor of a list ends on. -/
inductive Pointer where
  | null
  | thread (tid : Int)
  /-- `list_for_each_entry` that has come around to the head of the list: an address in the
  process, not a thread. -/
  | head
  deriving DecidableEq, Repr

/-- A process that `find_process` finds. -/
structure Proc where
  threads : List Int
  /-- There is a `vm`; the first process has none. -/
  hasVm : Bool
  savedCmdline : Option Nat
  deriving DecidableEq, Repr

inductive Msg where
  | request
  /-- `SCD_MSG_PROCFS_RELEASE`, with the number of pages that are given back. -/
  | release (pages : Nat)
  deriving DecidableEq, Repr

/-- `struct procfs_read`. -/
structure Query where
  msg : Msg
  fname : List Char
  offset : Nat
  count : Nat
  readwrite : Bool
  /-- `pbuf` is not `PA_NULL`. -/
  hasBuf : Bool
  deriving DecidableEq, Repr

structure Env where
  osnum : Int
  requestMapped : Bool
  tmpPage : Bool
  bufMapped : Bool
  process : Int → Option Proc
  /-- `ihk_rwspinlock_read_trylock_noirq` on the ranges. -/
  trylock : Bool
  /-- The result of `procfs_backlog`. -/
  backlog : Int
  bitmasks : Bool
  page : Nat → Bool
  /-- `mcos%d/PID/mem`. -/
  mem : Nat → PageOutcome
  /-- The lengths of the lines for the CPUs in `/proc/stat`. -/
  cpuLines : List Nat
  /-- The lengths of the lines of `maps`. -/
  mapLines : List Nat
  /-- The lengths of the lines of `status`. -/
  statusLine : Nat
  statusLines : List Nat
  /-- The length of the only line of `mckernel`, `comm` and `stat`. -/
  line : Nat

/-- What changes while output is produced. -/
structure Acc where
  ledger : Ledger Resource
  /-- The pages of `buf_top`. -/
  pages : Nat
  /-- What is free in the last one. -/
  room : Nat
  stored : Nat

/-- How the handling of an entry goes on. -/
inductive Exit where
  | toEnd (ans : Int)
  | toErr (err : Int)
  /-- `goto out`: the request is in the backlog. -/
  | toOut
  /-- A wild pointer is followed. -/
  | fault
  deriving DecidableEq, Repr

/-! ## Output -/

def bufMax : Nat := pageSize - 24

def chain : Nat → List Resource
  | 0 => []
  | pages + 1 => .page pages :: chain pages

def Acc.bufFree (acc : Acc) : Acc :=
  { acc with ledger := (chain acc.pages).foldl Ledger.giveBack acc.ledger, pages := 0 }

def Acc.bufAlloc (env : Env) (acc : Acc) : Option Acc :=
  if env.page acc.pages then
    some { acc with
      ledger := acc.ledger.take (.page acc.pages), pages := acc.pages + 1, room := bufMax }
  else none

/-- The loop of `buf_add`; every round takes at least one byte.  Without a page, what there is
of the chain is freed. -/
def bufLoop (env : Env) : (fuel len : Nat) → Acc → Acc × Bool
  | 0, _, acc => (acc, true)
  | fuel + 1, len, acc =>
    if len = 0 then (acc, true)
    else if acc.room = 0 then
      match acc.bufAlloc env with
      | none => (acc.bufFree, false)
      | some acc =>
        bufLoop env fuel (len - min acc.room len)
          { acc with room := acc.room - min acc.room len }
    else
      bufLoop env fuel (len - min acc.room len) { acc with room := acc.room - min acc.room len }

def bufAdd (env : Env) (len : Nat) (acc : Acc) : Acc × Bool :=
  if acc.pages = 0 then
    match acc.bufAlloc env with
    | none => (acc, false)
    | some acc => bufLoop env len len acc
  else bufLoop env len len acc

/-- `snprintf` into the buffer. -/
def snprintf (count len : Nat) (acc : Acc) : Acc :=
  { acc with stored := max acc.stored (min (len + 1) count) }

/-- `snprintf`, the check of its result and `buf_add`. -/
def printLine (env : Env) (count len : Nat) (acc : Acc) : Acc × Bool :=
  let acc := snprintf count len acc
  if len > count then (acc, false) else bufAdd env len acc

def printLines (env : Env) (count : Nat) : List Nat → Acc → Acc × Bool
  | [], acc => (acc, true)
  | len :: rest, acc =>
    match printLine env count len acc with
    | (acc, false) => (acc, false)
    | (acc, true) => printLines env count rest acc

/-- `goto err` if something has failed, or else `ans` is 0. -/
def endOr (result : Acc × Bool) : Exit × Acc :=
  (if result.2 then .toEnd 0 else .toErr Errno.EIO.code, result.1)

/-! ## Entries -/

/-- The lock could not be taken: into the backlog, or to stay there. -/
def again (env : Env) (retry : Bool) : Exit :=
  if retry then .toOut else if env.backlog ≠ 0 then .toErr env.backlog else .toOut

def Acc.take (acc : Acc) (resource : Resource) : Acc :=
  { acc with ledger := acc.ledger.take resource }

def Acc.giveBack (acc : Acc) (resource : Resource) : Acc :=
  { acc with ledger := acc.ledger.giveBack resource }

/-- `mcos%d/PID/mem`. -/
def mem (env : Env) (query : Query) (readwrite : Bool) (proc : Proc) (acc : Acc) : Exit × Acc :=
  if !proc.hasVm then (.fault, acc)
  else
    let (ans, copied) := memLoop env.mem query.count query.offset query.count 0
    (.toEnd ans, if readwrite then acc else { acc with stored := copied })

/-- `mcos%d/PID/maps`. -/
def maps (env : Env) (retry : Bool) (count : Nat) (proc : Proc) (acc : Acc) : Exit × Acc :=
  if !proc.hasVm then (.fault, acc)
  else if !env.trylock then (again env retry, acc)
  else
    let result := printLines env count env.mapLines (acc.take .rangeLock)
    endOr (result.1.giveBack .rangeLock, result.2)

/-- `mcos%d/PID/pagemap`. -/
def pagemap (env : Env) (retry : Bool) (query : Query) (count : Nat) (proc : Proc) (acc : Acc) :
    Exit × Acc :=
  let request : Request := ⟨.pagemap, false, query.offset, count⟩
  if query.offset % 8 ≠ 0 ∨ count % 8 ≠ 0 then (.toEnd Errno.EINVAL.code, acc)
  else if !proc.hasVm then (.fault, acc)
  else if !env.trylock then (again env retry, acc)
  else
    let locked := acc.take .rangeLock
    let stored := { locked with stored := request.pagemap.2 }
    (.toEnd count, stored.giveBack .rangeLock)

/-- `mcos%d/PID/status`. -/
def status (env : Env) (retry : Bool) (count : Nat) (proc : Proc) (acc : Acc) : Exit × Acc :=
  if !env.bitmasks then (.toErr Errno.EIO.code, acc)
  else
    let acc := acc.take .bitmasks
    if !proc.hasVm then (.fault, acc)
    else if !env.trylock then (again env retry, acc)
    else
      let acc := (acc.take .rangeLock).giveBack .rangeLock
      let acc := (acc.take .threadsLock).giveBack .threadsLock
      match printLine env count env.statusLine acc with
      -- `bitmasks` is not freed here
      | (acc, false) => (.toErr Errno.EIO.code, acc)
      | (acc, true) =>
        let result := printLines env count env.statusLines acc
        endOr (result.1.giveBack .bitmasks, result.2)

/-- `mcos%d/PID/cmdline`. -/
def cmdline (env : Env) (proc : Proc) (acc : Acc) : Exit × Acc :=
  endOr (bufAdd env (proc.savedCmdline.getD 0) acc)

/-- `mcos%d/PID/comm` and `mcos%d/mckernel`, which do not check the result of `snprintf`. -/
def unchecked (env : Env) (count : Nat) (acc : Acc) : Exit × Acc :=
  endOr (bufAdd env env.line (snprintf count env.line acc))

/-- `mcos%d/PID/stat`. -/
def stat (env : Env) (count : Nat) (acc : Acc) : Exit × Acc :=
  let acc := (acc.take .threadsLock).giveBack .threadsLock
  endOr (printLine env count env.line acc)

/-- `AUXV_LEN * sizeof(unsigned long)`. -/
def auxvLen : Nat := 20 * 8

def processEntry (env : Env) (retry : Bool) (query : Query) (readwrite : Bool) (count : Nat)
    (proc : Proc) (entry : List Char) (acc : Acc) : Exit × Acc :=
  if entry = "mem".toList then mem env query readwrite proc acc
  else if entry = "maps".toList then maps env retry count proc acc
  else if entry = "pagemap".toList then pagemap env retry query count proc acc
  else if entry = "status".toList then status env retry count proc acc
  else if entry = "auxv".toList then endOr (bufAdd env auxvLen acc)
  else if entry = "cmdline".toList then cmdline env proc acc
  else if entry = "comm".toList then unchecked env count acc
  else if entry = "stat".toList then stat env count acc
  else (.toEnd Errno.EIO.code, acc)

/-! ## The handler -/

/-- What is released at the label `out`. -/
structure Held where
  /-- The buffer of the request, or else a page of our own. -/
  hasBuf : Bool
  /-- The process, if one is held, and whether a `vm` is. -/
  proc : Option Bool
  thread : Pointer
  deriving DecidableEq, Repr

/-- In the order of the label `out`. -/
def Held.resources (held : Held) : List Resource :=
  (if held.hasBuf then [.vbuf, .pbuf] else []) ++ [.request, .parg] ++
    (if held.hasBuf then [] else [.tmp]) ++
    (match held.proc with
      | none => []
      | some hasVm => .proc :: .thread :: if hasVm then [.vm] else [])

/-- The loop over `threads_list`: the thread, or the head of the list when there is none.  It
is never NULL, so that the branch for a thread that was not found is never taken. -/
def lookup (threads : List Int) (tid : Int) : Pointer :=
  if tid ∈ threads then .thread tid else .head

def task (pid : Int) (path : List Char) : Option (Int × List Char) :=
  match sscanf "task/".toList path with
  | some tid => do
    let path ← behindSlash path
    let path ← behindSlash path
    return (tid, path)
  | none => some (pid, path)

/-- `mcos%d/PID/`: the process and its thread are held, and the entry is handled. -/
def processPath (env : Env) (retry : Bool) (query : Query) (readwrite : Bool) (count : Nat)
    (pid : Int) (path : List Char) (held : Held) (acc : Acc) : Held × Exit × Acc :=
  match (if pid ≤ 0 then none else env.process pid) with
  | none => (held, .toEnd Errno.EIO.code, acc)
  | some proc =>
    let acc := acc.take .hashLock
    match (behindSlash path).bind (task pid) with
    | none => (held, .fault, acc)
    | some (tid, entry) =>
      let acc := acc.take .threadsLock
      let acc := (acc.take .thread).giveBack .threadsLock
      let acc := acc.take .proc
      let acc := if proc.hasVm then acc.take .vm else acc
      let acc := acc.giveBack .hashLock
      ({ held with proc := some proc.hasVm, thread := lookup proc.threads tid },
        processEntry env retry query readwrite count proc entry acc)

/-- From the check for `mcos%d/` to the label `end`. -/
def dispatch (env : Env) (retry : Bool) (query : Query) (readwrite : Bool) (count : Nat)
    (held : Held) (acc : Acc) : Held × Exit × Acc :=
  match sscanf "mcos".toList query.fname with
  | none => (held, .toEnd Errno.EIO.code, acc)
  | some rosnum =>
    if env.osnum ≠ rosnum then (held, .toEnd Errno.EIO.code, acc)
    else
      match behindSlash query.fname with
      | none => (held, .fault, acc)
      | some path =>
        match sscanf [] path with
        | some pid => processPath env retry query readwrite count pid path held acc
        | none =>
          if path = "mckernel".toList then (held, unchecked env count acc)
          else if path = "stat".toList then
            (held, endOr (printLines env count env.cpuLines acc))
          else (held, .toEnd Errno.EIO.code, acc)

/-- What is left of a request that has been dealt with. -/
structure Done where
  /-- The `err` of each answer that was sent. -/
  answers : List Int
  /-- `r->ret`, if it was set. -/
  ret : Option Int
  /-- The request is in the backlog. -/
  requeued : Bool
  stored : Nat
  thread : Pointer
  ledger : Ledger Resource

/-- Nothing is left after a wild pointer was followed. -/
abbrev Result := Option Done

/-- The labels `end`, `err` and `out`. -/
def conclude : Held × Exit × Acc → Result
  | (held, exit, acc) =>
    let out (ledger : Ledger Resource) := held.resources.foldl Ledger.giveBack ledger
    match exit with
    | .fault => none
    | .toEnd ans =>
      -- `r->pbuf` takes the output over
      let acc := if held.hasBuf then acc else acc.bufFree
      some ⟨[0], some ans, false, acc.stored, held.thread, out acc.ledger⟩
    | .toErr err => some ⟨[err], none, false, acc.stored, held.thread, out acc.ledger⟩
    | .toOut => some ⟨[], none, true, acc.stored, held.thread, out acc.ledger⟩

/-- `_process_procfs_request`; `retry` when it is called from the backlog. -/
def handle (env : Env) (retry : Bool) (query : Query) : Result :=
  let ledger := Ledger.take {} Resource.parg
  if !env.requestMapped then
    some ⟨[ Errno.EIO.code], none, false, 0, .null, ledger.giveBack .parg⟩
  else
    let ledger := ledger.take .request
    match query.msg with
    | .release _ =>
      some ⟨[0], some 0, false, 0, .null, (ledger.giveBack .request).giveBack .parg⟩
    | .request =>
      if query.hasBuf then
        let ledger := ledger.take .pbuf
        if !env.bufMapped then
          some ⟨[ Errno.EIO.code], none, false, 0, .null,
            ((ledger.giveBack .pbuf).giveBack .request).giveBack .parg⟩
        else
          conclude (dispatch env retry query query.readwrite query.count
            ⟨true, none, .null⟩ ⟨ledger.take .vbuf, 0, 0, 0⟩)
      else if !env.tmpPage then
        some ⟨[ Errno.EIO.code], none, false, 0, .null, (ledger.giveBack .request).giveBack .parg⟩
      else
        conclude (dispatch env retry query false pageSize
          ⟨false, none, .null⟩ ⟨ledger.take .tmp, 0, 0, 0⟩)

/-! ## The backlog -/

structure State where
  arrived : List Nat
  backlog : List (Nat × Query)
  answered : List Nat
  log : List (Query × Env × Done)

inductive Op where
  /-- `process_procfs_request`. -/
  | arrive (id : Nat) (query : Query) (env : Env)
  /-- `do_backlog` calls `do_procfs_backlog`. -/
  | retry (id : Nat) (query : Query) (env : Env)

/-- A step, if it is possible; there is none through a wild pointer. -/
def exec (state : State) : Op → Option State
  | .arrive id query env =>
    if id ∈ state.arrived then none
    else (handle env false query).map fun done =>
      { arrived := id :: state.arrived
        backlog := if done.requeued then state.backlog ++ [(id, query)] else state.backlog
        answered := done.answers.map (fun _ => id) ++ state.answered
        log := (query, env, done) :: state.log }
  | .retry id query env =>
    if (id, query) ∈ state.backlog then
      (handle env true query).map fun done =>
        { state with
          backlog := if done.requeued then state.backlog else state.backlog.erase (id, query)
          answered := done.answers.map (fun _ => id) ++ state.answered
          log := (query, env, done) :: state.log }
    else none

def machine : Machine State Op where
  init state := state = ⟨[], [], [], []⟩
  step state op next := exec state op = some next

end McKernel.Procfs.Handler
