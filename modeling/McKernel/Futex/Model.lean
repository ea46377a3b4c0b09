import McKernel.Lib.Errno
import McKernel.Lib.Machine

/-!
# Futexes

`futex_wait`, `futex_wake`, `futex_requeue` and `futex_wake_op` of `kernel/futex.c`, called by any
number of threads.  A chain lists its waiters in the order of their arrival, as `plist_add` does,
since all of them have one priority.  The hash of a key can be any function, and no page of a futex
is remapped.

A waker holds the locks of its chains from the first waiter to the last, so what it does is one
step.  A waiter takes several: others store to its word while it holds the lock, and wake or requeue
it while it wants the lock.  When it runs again is left to the scheduler.
-/

namespace McKernel.Futex

/-- `union futex_key`, with the names of `both`. -/
structure Key where
  word : Nat
  ptr : Nat
  offset : Nat
  deriving DecidableEq

/-- A futex as a caller names it. -/
structure Word where
  mm : Nat
  uaddr : Nat
  fshared : Bool
  deriving DecidableEq

structure Env where
  /-- `ihk_mc_pt_virt_to_phys`, after a page fault if need be. -/
  virtToPhys : Nat → Nat → Option Nat
  hashFutex : Key → Nat

def Env.phys (env : Env) (word : Word) : Option Nat := env.virtToPhys word.mm word.uaddr

/-- `get_futex_key`. -/
def getFutexKey (env : Env) (word : Word) : Except Errno Key :=
  let offset := word.uaddr % pageSize
  if word.uaddr % 4 ≠ 0 then .error .EINVAL
  else if !word.fshared then .ok ⟨word.uaddr - offset, word.mm, offset⟩
  else
    match env.phys word with
    | none => .error .EFAULT
    | some phys => .ok ⟨0, phys, offset ||| 2⟩

/-- Stores of user code, the last one first. -/
abbrev Stores := List (Nat × BitVec 32)

def load (stores : Stores) (addr : Nat) : BitVec 32 :=
  ((stores.find? (·.1 == addr)).map Prod.snd).getD 0

/-- `struct futex_q`.  `since` are the stores made when the waiter came to its key, `moved` tells
whether it was requeued. -/
structure Entry where
  key : Key := ⟨0, 0, 0⟩
  bitset : BitVec 32 := 0
  lockPtr : Option Nat := none
  since : Stores := []
  moved : Bool := false

structure WaitCall where
  word : Word
  val : BitVec 32
  bitset : BitVec 32

/-- Where a thread is in `futex_wait`. -/
inductive Pc where
  | user
  | locking
  | locked
  | checked
  | queued
  | unqueueing (lockPtr : Nat)
  | holding (lockPtr : Nat)
  deriving DecidableEq

/-- A thread with its last call, how often it was woken and how often a call returned 0. -/
structure Thread where
  pc : Pc := .user
  call : WaitCall := ⟨⟨0, 0, false⟩, 0, 0⟩
  q : Entry := {}
  ret : Except Errno Unit := .ok ()
  wakes : Nat := 0
  zeros : Nat := 0

/-- Memory, hash chains and threads. -/
structure State where
  stores : Stores := []
  lock : Nat → Option Nat := fun _ => none
  chain : Nat → List Nat := fun _ => []
  thread : Nat → Thread := fun _ => {}
  /-- The stores made when a call has last left no waiter of a key. -/
  woken : Key → Stores := fun _ => []

namespace State

def setThread (s : State) (t : Nat) (thread : Thread) : State :=
  { s with thread := fun u => if u = t then thread else s.thread u }

def setLock (s : State) (b : Nat) (holder : Option Nat) : State :=
  { s with lock := fun c => if c = b then holder else s.lock c }

def setChain (s : State) (b : Nat) (chain : List Nat) : State :=
  { s with chain := fun c => if c = b then chain else s.chain c }

/-- No waiter of the key is left. -/
def setWoken (s : State) (key : Key) : State :=
  { s with woken := fun k => if k = key then s.stores else s.woken k }

end State

/-! ## Waiting -/

/-- `ihk_mc_spinlock_lock_noirq`, once the lock is free. -/
def spinlockLock (s : State) (t b : Nat) (pc : Pc) : Option State :=
  if s.lock b = none then some ((s.setLock b (some t)).setThread t { s.thread t with pc })
  else none

/-- `futex_wait` up to the lock of `queue_lock`. -/
def futexWait (env : Env) (thread : Thread) (call : WaitCall) : Thread :=
  if call.bitset = 0 then { thread with pc := .user, ret := .error .EINVAL }
  else
    match getFutexKey env call.word with
    | .error errno => { thread with pc := .user, ret := .error errno }
    | .ok key =>
      { thread with
        pc := .locking
        call
        q := { key, bitset := call.bitset, lockPtr := some (env.hashFutex key) } }

/-- The rest of `futex_wait_setup`: read the word and compare. -/
def compare (env : Env) (s : State) (t addr : Nat) : State :=
  let thread := s.thread t
  if load s.stores addr = thread.call.val then
    s.setThread t { thread with pc := .checked, q := { thread.q with since := s.stores } }
  else
    (s.setLock (env.hashFutex thread.q.key) none).setThread t
      { thread with pc := .user, ret := .error .EAGAIN }

/-- `queue_me`. -/
def queueMe (env : Env) (s : State) (t : Nat) : State :=
  let b := env.hashFutex (s.thread t).q.key
  ((s.setChain b (s.chain b ++ [t])).setLock b none).setThread t { s.thread t with pc := .queued }

/-- `unqueue_me` reads `lock_ptr` without a lock. -/
def resume (thread : Thread) : Thread :=
  match thread.q.lockPtr with
  | none => { thread with pc := .user, ret := .ok (), zeros := thread.zeros + 1 }
  | some b => { thread with pc := .unqueueing b }

/-- The end of `unqueue_me` and what `futex_wait` makes of it: an error, or another round. -/
def unqueueMe (env : Env) (s : State) (t b : Nat) (errno : Option Errno) : State :=
  let thread := s.thread t
  let s := s.setLock b none
  if thread.q.lockPtr ≠ some b then s.setThread t { thread with pc := .queued }
  else
    (s.setChain b ((s.chain b).erase t)).setThread t
      (match errno with
      | some errno => { thread with pc := .user, ret := .error errno }
      | none => futexWait env thread thread.call)

/-! ## Waking -/

/-- `wake_futex`. -/
def wakeFutex (s : State) (b t : Nat) : State :=
  let thread := s.thread t
  (s.setChain b ((s.chain b).erase t)).setThread t
    { thread with q := { thread.q with lockPtr := none }, wakes := thread.wakes + 1 }

/-- `requeue_futex`. -/
def requeueFutex (env : Env) (s : State) (b t : Nat) (key : Key) : State :=
  let thread := s.thread t
  let q := { thread.q with key, since := s.stores, moved := true }
  let c := env.hashFutex key
  if b = c then s.setThread t { thread with q }
  else
    ((s.setChain b ((s.chain b).erase t)).setChain c (s.chain c ++ [t])).setThread t
      { thread with q := { q with lockPtr := some c } }

/-- The loops of `futex_wake` and `futex_wake_op`. -/
def wakeLoop (test : Entry → Bool) (nrWake : Int) (b : Nat) :
    Int → List Nat → State → State × Int
  | ret, [], s => (s, ret)
  | ret, t :: rest, s =>
    if test (s.thread t).q then
      if nrWake ≤ ret + 1 then (wakeFutex s b t, ret + 1)
      else wakeLoop test nrWake b (ret + 1) rest (wakeFutex s b t)
    else wakeLoop test nrWake b ret rest s

/-- The loop of `futex_requeue`. -/
def requeueLoop (env : Env) (key1 key2 : Key) (nrWake nrRequeue : Int) :
    Int → List Nat → State → State × Int
  | taskCount, [], s => (s, taskCount)
  | taskCount, t :: rest, s =>
    if nrRequeue ≤ taskCount - nrWake then (s, taskCount)
    else if (s.thread t).q.key ≠ key1 then
      requeueLoop env key1 key2 nrWake nrRequeue taskCount rest s
    else
      let b := env.hashFutex key1
      requeueLoop env key1 key2 nrWake nrRequeue (taskCount + 1) rest
        (if taskCount + 1 ≤ nrWake then wakeFutex s b t else requeueFutex env s b t key2)

/-- A call may also have woken or moved the last waiter of a key when it reaches its limit. -/
def noteWoken (env : Env) (s : State) (key : Key) : State :=
  if ∀ t ∈ s.chain (env.hashFutex key), (s.thread t).q.key ≠ key then s.setWoken key else s

/-- Wake the waiters of a key, with the test of the bit set if there is one. -/
def wakeKey (env : Env) (s : State) (key : Key) (bitset : Option (BitVec 32)) (nrWake : Int) :
    State × Int :=
  let b := env.hashFutex key
  let test q := q.key == key && bitset.all fun bits => q.bitset &&& bits != 0
  let (s, ret) := wakeLoop test nrWake b 0 (s.chain b) s
  (if ret < nrWake ∧ bitset.all (· == 0xffffffff) then s.setWoken key else noteWoken env s key, ret)

/-- `none` says that the lock is not free. -/
def futexWake (env : Env) (s : State) (word : Word) (nrWake : Int) (bitset : BitVec 32) :
    Option (State × Except Errno Int) :=
  if bitset = 0 then some (s, .error .EINVAL)
  else
    match getFutexKey env word with
    | .error errno => some (s, .error errno)
    | .ok key =>
      if s.lock (env.hashFutex key) = none then
        some ((wakeKey env s key (some bitset) nrWake).map id .ok)
      else none

/-- `double_lock_hb` finds both locks free. -/
def doubleLock (env : Env) (s : State) (key1 key2 : Key) : Bool :=
  s.lock (env.hashFutex key1) = none ∧ s.lock (env.hashFutex key2) = none

/-- `none` also says that the value cannot be read. -/
def futexRequeue (env : Env) (s : State) (word1 word2 : Word) (nrWake nrRequeue : Int)
    (cmpval : Option (BitVec 32)) : Option (State × Except Errno Int) :=
  match getFutexKey env word1, getFutexKey env word2 with
  | .error errno, _ | _, .error errno => some (s, .error errno)
  | .ok key1, .ok key2 =>
    let curval := (env.phys word1).map (load s.stores)
    if !doubleLock env s key1 key2 ∨ cmpval ≠ none ∧ curval = none then none
    else if cmpval ≠ none ∧ curval ≠ cmpval then some (s, .error .EAGAIN)
    else
      let chain := s.chain (env.hashFutex key1)
      let (s, taskCount) := requeueLoop env key1 key2 nrWake nrRequeue 0 chain s
      some (noteWoken env s key1, .ok taskCount)

/-- `futex_atomic_op_inuser`: the new value of the word and the result of the comparison, where
`none` is `-ENOSYS`. The processor takes the count of a shift modulo 32. -/
def futexAtomicOpInuser (encodedOp oldval : BitVec 32) : BitVec 32 × Option Bool :=
  let shift := (encodedOp &&& 0x00fff000) >>> 12
  let oparg := if encodedOp.msb then 1#32 <<< (shift.toNat % 32) else shift
  let cmparg := encodedOp &&& 0xfff
  let result :=
    match (encodedOp >>> 24 &&& 15).toNat with
    | 0 => some (oldval == cmparg)
    | 1 => some (oldval != cmparg)
    | 2 => some (oldval.slt cmparg)
    | 3 => some (oldval.sle cmparg)
    | 4 => some (cmparg.slt oldval)
    | 5 => some (cmparg.sle oldval)
    | _ => none
  match (encodedOp >>> 28 &&& 7).toNat with
  | 0 => (oparg, result)
  | 1 => (oldval + oparg, result)
  | 2 => (oldval ||| oparg, result)
  | 3 => (oldval &&& ~~~oparg, result)
  | 4 => (oldval ^^^ oparg, result)
  | _ => (oldval, none)

/-- `none` also says that the word cannot be written, and the call retries for ever. -/
def futexWakeOp (env : Env) (s : State) (word1 word2 : Word) (nrWake nrWake2 : Int)
    (op : BitVec 32) : Option (State × Except Errno Int) :=
  match getFutexKey env word1, getFutexKey env word2, env.phys word2 with
  | .error errno, _, _ | _, .error errno, _ => some (s, .error errno)
  | _, _, none => none
  | .ok key1, .ok key2, some addr =>
    if doubleLock env s key1 key2 then
      let (value, opRet) := futexAtomicOpInuser op (load s.stores addr)
      let s := { s with stores := (addr, value) :: s.stores }
      match opRet with
      | none => some (s, .error .ENOSYS)
      | some opRet =>
        let (s, ret) := wakeKey env s key1 none nrWake
        if opRet then some ((wakeKey env s key2 none nrWake2).map id fun ret2 => .ok (ret + ret2))
        else some (s, .ok ret)
    else none

/-! ## Runs -/

inductive Op where
  | store (addr : Nat) (value : BitVec 32)
  | wait (t : Nat) (call : WaitCall)
  | lock (t : Nat)
  | compare (t : Nat)
  | queue (t : Nat)
  /-- The thread runs again, woken by a waker, a signal or a timeout. -/
  | resume (t : Nat)
  | unqueue (t : Nat) (errno : Option Errno)
  | wake (word : Word) (nrWake : Int) (bitset : BitVec 32)
  | requeue (word1 word2 : Word) (nrWake nrRequeue : Int) (cmpval : Option (BitVec 32))
  | wakeOp (word1 word2 : Word) (nrWake nrWake2 : Int) (op : BitVec 32)

/-- `none` says that the operation is not the next one of its thread, or waits for a lock. -/
def exec (env : Env) (s : State) : Op → Option State
  | .store addr value => some { s with stores := (addr, value) :: s.stores }
  | .wait t call =>
    if (s.thread t).pc = .user then some (s.setThread t (futexWait env (s.thread t) call))
    else none
  | .lock t =>
    match (s.thread t).pc with
    | .locking => spinlockLock s t (env.hashFutex (s.thread t).q.key) .locked
    | .unqueueing b => spinlockLock s t b (.holding b)
    | _ => none
  | .compare t =>
    if (s.thread t).pc = .locked then
      (env.phys (s.thread t).call.word).map (compare env s t)
    else none
  | .queue t => if (s.thread t).pc = .checked then some (queueMe env s t) else none
  | .resume t =>
    if (s.thread t).pc = .queued then some (s.setThread t (resume (s.thread t))) else none
  | .unqueue t errno =>
    match (s.thread t).pc with
    | .holding b => some (unqueueMe env s t b errno)
    | _ => none
  | .wake word nrWake bitset => (futexWake env s word nrWake bitset).map Prod.fst
  | .requeue word1 word2 nrWake nrRequeue cmpval =>
    (futexRequeue env s word1 word2 nrWake nrRequeue cmpval).map Prod.fst
  | .wakeOp word1 word2 nrWake nrWake2 op =>
    (futexWakeOp env s word1 word2 nrWake nrWake2 op).map Prod.fst

def machine (env : Env) : Machine State Op where
  init s := s = {}
  step s op next := exec env s op = some next

end McKernel.Futex
