import McKernel.Lib.Errno

/-!
# Signal masks

The blocked signals of a thread are one 64-bit word.  It is written by the system calls
that take a signal set from user memory, by the delivery of a signal to a handler, by the
return from a handler and by the creation of a thread.  The calls that wait with a
temporary mask are cut at the wait: the thread keeps what it saved until the wait ends.
-/

namespace McKernel.Signal

open Function

/-- `__sigset_t`: bit `sig - 1` stands for the signal `sig`. -/
abbrev SigSet := BitVec 64

def sigmask (sig : Nat) : SigSet := BitVec.twoPow 64 (sig - 1)

def SIGKILL : Nat := 9
def SIGSTOP : Nat := 19

def NSIG : Nat := 64

/-- `sizeof(sigset_t)` -/
def sigsetBytes : Nat := 8

inductive Handler where
  | dfl
  | ign
  | user (entry : Nat)
  deriving DecidableEq, Repr

/-- The part of `struct k_sigaction` that bears on the mask. -/
structure SigAction where
  handler : Handler
  nodefer : Bool
  resethand : Bool
  deriving DecidableEq, Repr

/-- The zeroed `struct k_sigaction`. -/
def SigAction.zero : SigAction := ⟨.dfl, false, false⟩

/-- `struct sig_pending` -/
structure SigPending where
  sigmask : SigSet
  ptracecont : Nat
  deriving DecidableEq, Repr

/-- The record `do_kill` queues for a signal it accepts: `sig > 64` and `sig < 0` are
refused, and 0 only probes for the process. -/
def SigPending.ofKill (sig ptracecont : Nat) : Option SigPending :=
  if 1 ≤ sig ∧ sig ≤ NSIG then some ⟨Signal.sigmask sig, ptracecont⟩ else none

/-- `for (w = mask, sig = 0; w; sig++, w >>= 1);` after at most `n` rounds. -/
def shiftsToZero : Nat → SigSet → Nat
  | 0, _ => 0
  | n + 1, w => if w = 0 then 0 else shiftsToZero n (w >>> 1) + 1

def SigPending.signo (pending : SigPending) : Nat := shiftsToZero 64 pending.sigmask

/-- What the kernel finds behind a pointer it was given by user space. -/
inductive UserPtr (α : Type) where
  | null
  | bad
  | points (value : α)
  deriving DecidableEq, Repr

/-- Where a thread is. The waiting calls hold their local variables. -/
inductive Call where
  /-- In user mode, or in a call that does not touch the mask. -/
  | none
  /-- `epoll_pwait`, `ppoll` or `pselect6`, forwarded to Linux. -/
  | forwarded (oldset : SigSet)
  /-- `rt_sigtimedwait`, in its loop. -/
  | timedwait (bset wset : SigSet) (timeout : Bool)
  /-- `do_sigsuspend`, in its loop. -/
  | suspended (bset wset : SigSet)
  deriving DecidableEq, Repr

structure Thread where
  sigmask : SigSet
  /-- The `struct sig_common` the thread shares with its thread group. -/
  sigcommon : Nat
  /-- `thread->ptrace & PT_TRACED` -/
  traced : Bool
  call : Call
  deriving DecidableEq, Repr

structure System where
  threads : Nat → Option Thread
  /-- `sigcommon->action[sig - 1]` -/
  action : Nat → Nat → SigAction

namespace Thread

def setMask (thread : Thread) (mask : SigSet) : Thread := { thread with sigmask := mask }

def setCall (thread : Thread) (call : Call) : Thread := { thread with call := call }

@[simp] theorem sigmask_setMask (t : Thread) (mask : SigSet) :
    (t.setMask mask).sigmask = mask := rfl

end Thread

/-! ## Calls that take a set -/

/-- The common body of `epoll_pwait` and `ppoll`, up to the forwarded request. The user's
word is stored as it is. -/
def pollWithSet (thread : Thread) (set : UserPtr SigSet) : Except Errno Thread :=
  let oldset := thread.sigmask
  match set with
  | .null => .ok (thread.setCall (.forwarded oldset))
  | .bad => .error .EFAULT
  | .points wset => .ok ((thread.setMask wset).setCall (.forwarded oldset))

def epollPwait (thread : Thread) (set : UserPtr SigSet) : Except Errno Thread :=
  pollWithSet thread set

def ppoll (thread : Thread) (set : UserPtr SigSet) : Except Errno Thread :=
  pollWithSet thread set

/-- `pselect6` finds the pointer to the set in a structure of the user's. -/
def pselect6 (thread : Thread) (indirect : UserPtr (UserPtr SigSet)) : Except Errno Thread :=
  match indirect with
  | .null => pollWithSet thread .null
  | .bad => .error .EFAULT
  | .points set => pollWithSet thread set

def forwardedReturn (thread : Thread) : Thread :=
  match thread.call with
  | .forwarded oldset => (thread.setMask oldset).setCall .none
  | _ => thread

inductive How where
  | SIG_BLOCK | SIG_UNBLOCK | SIG_SETMASK
  | other
  deriving DecidableEq, Repr

/-- The `switch (how)` of `rt_sigprocmask`. -/
def How.apply (mask wsig : SigSet) : How → SigSet
  | .SIG_BLOCK => mask ||| wsig
  | .SIG_UNBLOCK => mask &&& ~~~wsig
  | .SIG_SETMASK => wsig
  | .other => mask

/-- `w &= ~__sigmask(SIGKILL); w &= ~__sigmask(SIGSTOP);` -/
def dropUnblockable (mask : SigSet) : SigSet :=
  mask &&& ~~~sigmask SIGKILL &&& ~~~sigmask SIGSTOP

/-- `rt_sigprocmask`. -/
def rtSigprocmask (thread : Thread) (how : How) (set : UserPtr SigSet) (oldset : UserPtr Unit)
    (sigsetsize : Nat) : Except Errno Thread :=
  if sigsetsize ≠ sigsetBytes then .error .EINVAL
  else if set ≠ .null ∧ how = .other then .error .EINVAL
  else if oldset = .bad then .error .EFAULT
  else
    match set with
    | .null => .ok (thread.setMask (dropUnblockable thread.sigmask))
    | .bad => .error .EFAULT
    | .points wsig => .ok (thread.setMask (dropUnblockable (how.apply thread.sigmask wsig)))

structure Timespec where
  tvSec : Int
  tvNsec : Int
  deriving DecidableEq, Repr

/-- The check of the timeout of `rt_sigtimedwait`; the result says whether one is set. -/
def checkTimeout (gettimeLocalSupport : Bool) : UserPtr Timespec → Except Errno Bool
  | .null => .ok false
  | .bad => .error .EFAULT
  | .points wtimeout =>
    if wtimeout.tvNsec ≥ 1000000000 ∨ wtimeout.tvNsec < 0 ∨ wtimeout.tvSec < 0 then
      .error .EINVAL
    else if gettimeLocalSupport = false ∧ (wtimeout.tvSec ≠ 0 ∨ wtimeout.tvNsec ≠ 0) then
      .error .EOPNOTSUPP
    else .ok true

/-- `rt_sigtimedwait` up to its loop. -/
def rtSigtimedwait (gettimeLocalSupport : Bool) (thread : Thread) (set : UserPtr SigSet)
    (timeout : UserPtr Timespec) (sigsetsize : Nat) : Except Errno Thread :=
  if sigsetsize > sigsetBytes then .error .EINVAL
  else
    match set with
    | .null => .error .EFAULT
    | .bad => .error .EFAULT
    | .points set =>
      match checkTimeout gettimeLocalSupport timeout with
      | .error errno => .error errno
      | .ok timed =>
        let wset := dropUnblockable set
        let bset := thread.sigmask
        .ok ((thread.setMask (bset ||| wset)).setCall (.timedwait bset wset timed))

/-- `do_sigsuspend` up to its loop. -/
def doSigsuspend (thread : Thread) (set : SigSet) : Thread :=
  let wset := dropUnblockable set
  (thread.setMask wset).setCall (.suspended thread.sigmask wset)

/-- `rt_sigsuspend`. -/
def rtSigsuspend (thread : Thread) (set : UserPtr SigSet) (sigsetsize : Nat) :
    Except Errno Thread :=
  if sigsetsize > sigsetBytes then .error .EINVAL
  else
    match set with
    | .null => .error .EFAULT
    | .bad => .error .EFAULT
    | .points wset => .ok (doSigsuspend thread wset)

def pause (thread : Thread) : Thread := doSigsuspend thread thread.sigmask

/-! ## Handlers -/

/-- The field of `struct sigsp` that the mask is saved in. -/
structure Sigsp where
  oldmask : SigSet
  deriving DecidableEq, Repr

/-- `rt_sigreturn`: the frame is whatever stands at the user's stack pointer. The call that
is restarted afterwards, or the trap that is delivered, is a step of its own. -/
def rtSigreturn (thread : Thread) (sigsp : UserPtr Sigsp) : Except Errno Thread :=
  match sigsp with
  | .null => .error .EFAULT
  | .bad => .error .EFAULT
  | .points ksigsp => .ok (thread.setMask ksigsp.oldmask)

/-- The signal whose action `do_signal` looks up: a traced thread stops for its tracer. -/
def deliveredSignal (thread : Thread) (pending : SigPending) : Nat :=
  if thread.traced ∧ pending.ptracecont = 0 ∧ pending.signo ≠ SIGKILL then SIGSTOP
  else pending.signo

/-- `do_signal`. Ignored signals and default actions do not touch the mask; a handler is
entered when its frame could be written, and otherwise the thread is terminated. -/
def doSignal (action : Nat → SigAction) (thread : Thread) (pending : SigPending)
    (frameWritten : Bool) : Thread × (Nat → SigAction) :=
  let sig := deliveredSignal thread pending
  let k := action sig
  match k.handler with
  | .ign => (thread, action)
  | .dfl => (thread, action)
  | .user _ =>
    if frameWritten then
      let action :=
        if k.resethand then update action sig { k with handler := .dfl } else action
      if k.nodefer then (thread, action)
      else (thread.setMask (thread.sigmask ||| pending.sigmask), action)
    else (thread, action)

/-- `do_sigaction` as `rt_sigaction` calls it. -/
def rtSigaction (action : Nat → SigAction) (sig : Int) (act : UserPtr SigAction)
    (sigsetsize : Nat) : Except Errno (Nat → SigAction) :=
  if sigsetsize ≠ sigsetBytes then .error .EINVAL
  else if act = .bad then .error .EFAULT
  else if sig > NSIG ∨ sig < 1 then .error .EINVAL
  else
    match act with
    | .points act =>
      if sig = SIGKILL ∨ sig = SIGSTOP then .error .EINVAL
      else .ok (update action sig.toNat act)
    | _ => .ok action

/-- The loop of `do_execveat` that resets the handlers. -/
def resetHandlers (action : Nat → SigAction) (sig : Nat) : SigAction :=
  match (action sig).handler with
  | .user _ => { action sig with handler := .dfl }
  | _ => action sig

/-! ## The system -/

namespace System

def setThread (system : System) (tid : Nat) (thread : Thread) : System :=
  { system with threads := update system.threads tid (some thread) }

def setAction (system : System) (sigcommon : Nat) (action : Nat → SigAction) : System :=
  { system with action := update system.action sigcommon action }

def finish (system : System) (tid : Nat) : Except Errno Thread → System
  | .ok thread => system.setThread tid thread
  | .error _ => system

/-- `do_signal` for a thread of the system. -/
def signal (system : System) (tid : Nat) (thread : Thread) (pending : SigPending)
    (frameWritten : Bool) : System :=
  let result := doSignal (system.action thread.sigcommon) thread pending frameWritten
  (system.setThread tid result.1).setAction thread.sigcommon result.2

end System

/-- What a thread, a sender of signals, a tracer or Linux can do to a thread. Which signals
are pending is left open: any signal that can be sent may be found by a wait or at the
return to user mode. -/
inductive Op where
  | epollPwait (set : UserPtr SigSet)
  | ppoll (set : UserPtr SigSet)
  | pselect6 (set : UserPtr (UserPtr SigSet))
  | forwardedReturn
  | rtSigprocmask (how : How) (set : UserPtr SigSet) (oldset : UserPtr Unit) (sigsetsize : Nat)
  | rtSigtimedwait (set : UserPtr SigSet) (timeout : UserPtr Timespec) (sigsetsize : Nat)
  /-- The timeout of `rt_sigtimedwait` expires. -/
  | expire
  | rtSigsuspend (set : UserPtr SigSet) (sigsetsize : Nat)
  | pause
  /-- The loop of a waiting call, or `check_signal`, finds a pending signal. -/
  | found (sig ptracecont : Nat) (frameWritten : Bool)
  | rtSigreturn (sigsp : UserPtr Sigsp)
  | rtSigaction (sig : Int) (act : UserPtr SigAction) (sigsetsize : Nat)
  | execve
  | ptrace (traced : Bool)
  /-- `clone_thread`; without `CLONE_SIGHAND` the actions are copied to `sigcommon`. -/
  | clone (child sigcommon : Nat) (cloneSighand : Bool)

/-- A wait or `check_signal` that finds a pending signal. -/
def foundSignal (system : System) (tid : Nat) (thread : Thread) (pending : SigPending)
    (frameWritten : Bool) : System :=
  match thread.call with
  | .forwarded _ => system
  | .none =>
    if pending.sigmask &&& thread.sigmask = 0 then
      system.signal tid thread pending frameWritten
    else system
  | .timedwait bset wset _ =>
    let woken := (thread.setMask bset).setCall .none
    if pending.sigmask &&& wset ≠ 0 then system.setThread tid woken
    else if pending.sigmask &&& ~~~(bset ||| wset) ≠ 0 then
      system.signal tid woken pending frameWritten
    else system
  | .suspended bset wset =>
    if pending.sigmask &&& wset = 0 then
      system.signal tid ((thread.setMask bset).setCall .none) pending frameWritten
    else system

/-- `-EAGAIN` from `rt_sigtimedwait`: the mask is not put back. -/
def expireWait (thread : Thread) : Thread :=
  match thread.call with
  | .timedwait _ _ true => thread.setCall .none
  | _ => thread

def exec (gettimeLocalSupport : Bool) (system : System) (tid : Nat) (op : Op) : System :=
  match system.threads tid with
  | none => system
  | some thread =>
    match op with
    | .forwardedReturn => system.setThread tid (forwardedReturn thread)
    | .expire => system.setThread tid (expireWait thread)
    | .ptrace traced => system.setThread tid { thread with traced := traced }
    | .found sig ptracecont frameWritten =>
      match SigPending.ofKill sig ptracecont with
      | none => system
      | some pending => foundSignal system tid thread pending frameWritten
    | op =>
      if thread.call ≠ .none then system
      else
        match op with
        | .epollPwait set => system.finish tid (epollPwait thread set)
        | .ppoll set => system.finish tid (ppoll thread set)
        | .pselect6 set => system.finish tid (pselect6 thread set)
        | .rtSigprocmask how set oldset sigsetsize =>
          system.finish tid (rtSigprocmask thread how set oldset sigsetsize)
        | .rtSigtimedwait set timeout sigsetsize =>
          system.finish tid
            (rtSigtimedwait gettimeLocalSupport thread set timeout sigsetsize)
        | .rtSigsuspend set sigsetsize =>
          system.finish tid (rtSigsuspend thread set sigsetsize)
        | .pause => system.setThread tid (pause thread)
        | .rtSigreturn sigsp => system.finish tid (rtSigreturn thread sigsp)
        | .rtSigaction sig act sigsetsize =>
          match rtSigaction (system.action thread.sigcommon) sig act sigsetsize with
          | .ok action => system.setAction thread.sigcommon action
          | .error _ => system
        | .execve =>
          system.setAction thread.sigcommon
            (resetHandlers (system.action thread.sigcommon))
        | .clone child sigcommon cloneSighand =>
          if system.threads child ≠ none then system
          else if cloneSighand then system.setThread child thread
          else
            (system.setThread child { thread with sigcommon := sigcommon }).setAction
              sigcommon (system.action thread.sigcommon)
        | _ => system

end McKernel.Signal
