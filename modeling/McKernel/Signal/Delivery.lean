import McKernel.Lib.ULong
import McKernel.Signal.Model

/-!
# The course of `do_signal`

What `do_signal` does with `sigcommon->lock`, with the pending entry, with the mask and with the
user stack, on each of its ways out.  `terminate` does not return.
-/

namespace McKernel.Signal.Delivery

inductive Event where
  | lock | unlock | sleep | terminate
  /-- `kfree(pending)` -/
  | free
  /-- `thread->ptrace_recvsig = pending` -/
  | recvsig
  deriving DecidableEq, Repr

/-- The thread does not go on. -/
def Event.leaves (event : Event) : Bool := event == .sleep || event == .terminate

/-- `struct k_sigaction`, all of it. -/
structure Action extends SigAction where
  onstack : Bool
  mask : SigSet

structure Input where
  thread : Thread
  pending : SigPending
  action : Nat → Action
  rsp : Nat
  /-- `ss_sp + ss_size`, without `SS_DISABLE` and `SS_ONSTACK`. -/
  sigstack : Option Nat
  xsavesize : Nat
  /-- Whether the memory for the registers can be had, and they and the frame can be stored. -/
  kmalloc : Bool
  fpregsCopied : Bool
  sigspCopied : Bool

namespace Input

variable (input : Input)

/-- The number of the signal. -/
def sig : Nat := deliveredSignal input.thread input.pending

/-- Its disposition. -/
def k : Action := input.action input.sig

/-- The signal is reported to a tracer. -/
def ptraceflag : Bool :=
  input.thread.traced && input.pending.ptracecont == 0 && input.pending.signo != SIGKILL

/-- Whether the handler runs on the alternative stack. -/
def onSigstack : Bool := input.k.onstack && input.sigstack.isSome

/-- Where the handler's stack begins. -/
def usp : Nat :=
  match input.sigstack with
  | some top => if input.k.onstack then ULong.roundDown 3 top else input.rsp
  | none => input.rsp

/-- `sizeof(struct sigsp)` -/
def sigspBytes : Nat := 456

/-- Where the registers are stored. -/
def fpregs : Nat := ULong.sub input.usp input.xsavesize

/-- Where the frame is stored. -/
def sigsp : Nat := ULong.roundDown 4 (ULong.sub input.fpregs sigspBytes)

/-- The registers, the frame and the address of `sa_restorer`, each from where to where. -/
def written : List (Nat × Nat) :=
  [(input.fpregs, input.usp), (input.sigsp, input.sigsp + sigspBytes),
    (ULong.sub input.sigsp 8, input.sigsp)]

/-- What a handler does not find blocked otherwise. -/
def deferred : SigSet := if input.k.nodefer then 0 else input.pending.sigmask

end Input

/-- The `switch (sig)` for the default actions: stop, `SIGTRAP`, ignore, and terminate. -/
def defaultAction (sig : Nat) (traced : Bool) : List Event :=
  if sig ∈ [19, 20, 21, 22] then [.sleep]
  else if sig = 5 then [if traced then .sleep else .terminate]
  else if sig ∈ [17, 18, 23, 28] then []
  else [.terminate]

/-- What has happened in the end; `entered` is what was written for a handler. -/
structure Course where
  events : List Event
  sigmask : SigSet
  entered : Option (List (Nat × Nat))

def doSignal (input : Input) : Course :=
  let old := input.thread.sigmask
  match input.k.handler with
  | .ign => ⟨[.lock, .free, .unlock], old, none⟩
  | .user _ =>
    if input.xsavesize ≠ 0 ∧ !input.kmalloc then ⟨[.lock, .free, .terminate], old, none⟩
    else if input.xsavesize ≠ 0 ∧ !input.fpregsCopied then ⟨[.lock, .free, .terminate], old, none⟩
    else if !input.sigspCopied then ⟨[.lock, .free, .unlock, .terminate], old, none⟩
    else
      ⟨[.lock, .free, .unlock],
        if input.k.nodefer then old else old ||| input.pending.sigmask, some input.written⟩
  | .dfl =>
    ⟨[.lock, if input.ptraceflag then .recvsig else .free, .unlock] ++
      defaultAction input.sig input.thread.traced, old, none⟩

/-- The lock is released once, before the thread leaves, and the entry is consumed once. -/
def Disciplined (events : List Event) : Prop :=
  events.count .unlock = 1 ∧ .unlock ∈ events.takeWhile (!·.leaves) ∧
    events.count .free + events.count .recvsig = 1

instance (events : List Event) : Decidable (Disciplined events) :=
  inferInstanceAs (Decidable (_ ∧ _ ∧ _))

/-- A handler has the right mask and, on the normal stack, leaves the red zone alone. -/
structure Ok (input : Input) (course : Course) : Prop where
  disciplined : Disciplined course.events
  mask : course.entered ≠ none →
    course.sigmask = input.thread.sigmask ||| input.k.mask ||| input.deferred
  redZone : ∀ written, course.entered = some written → input.onSigstack = false →
    ∀ part ∈ written, part.2 ≤ input.rsp - 128 ∨ input.rsp ≤ part.1

variable {input : Input}

end McKernel.Signal.Delivery
