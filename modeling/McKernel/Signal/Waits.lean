import McKernel.Lib.Machine
import McKernel.Signal.Model

/-!
# Waiting for signals

`rt_sigtimedwait` and `do_sigsuspend` store a mask of their own and search the signals that are
pending for the thread group and for the thread, one list after the other, whenever `sigevent`
is set.  Signals come at any time, and other threads of the group take them.
-/

namespace McKernel.Signal

open List

inductive Status where
  | PS_RUNNING | PS_INTERRUPTIBLE
  deriving DecidableEq, Repr

/-- A signal is returned, or handled before `-EINTR` is; or the result is `-EAGAIN`. -/
inductive Outcome where
  | reported (pending : SigPending)
  | interrupted (pending : SigPending)
  | expired
  deriving DecidableEq, Repr

/-- The search of `sigcommon->sigpending`, or else of `thread->sigpending`. -/
structure Scan where
  shared : Bool
  test : SigPending → Bool
  outcome : SigPending → Outcome

/-- The searches of one round. -/
def Call.scans : Call → List Scan
  | .timedwait bset wset _ =>
    let nset := ~~~(bset ||| wset)
    [⟨true, (·.sigmask &&& wset ≠ 0), .reported⟩, ⟨false, (·.sigmask &&& wset ≠ 0), .reported⟩,
      ⟨true, (·.sigmask &&& nset ≠ 0), .interrupted⟩,
      ⟨false, (·.sigmask &&& nset ≠ 0), .interrupted⟩]
  | .suspended _ wset =>
    [⟨true, (·.sigmask &&& wset = 0), .interrupted⟩,
      ⟨false, (·.sigmask &&& wset = 0), .interrupted⟩]
  | _ => []

def Call.timed : Call → Bool
  | .timedwait _ _ timeout => timeout
  | _ => false

inductive Position where
  | asleep
  | scanning (rest : List Scan)
  | returned (outcome : Outcome)

structure Waiter where
  thread : Thread
  status : Status
  sigevent : Bool
  sigcommon : List SigPending
  pending : List SigPending
  position : Position
  set : SigSet
  before : SigSet

/-- `thread->sigmask.__val[0] = bset` -/
def Thread.restore (thread : Thread) : Thread :=
  match thread.call with
  | .timedwait bset _ _ | .suspended bset _ => (thread.setMask bset).setCall .none
  | _ => thread

namespace Waiter

/-- `list_del`, and the way out. -/
def take (waiter : Waiter) (scan : Scan) (found : SigPending) : Waiter :=
  let waiter := { waiter with
    thread := waiter.thread.restore, position := .returned (scan.outcome found) }
  if scan.shared then { waiter with sigcommon := waiter.sigcommon.eraseP scan.test }
  else { waiter with pending := waiter.pending.eraseP scan.test }

def go (waiter : Waiter) (late : Bool) : Waiter :=
  match waiter.position with
  | .returned _ => waiter
  | .scanning [] => { waiter with position := .asleep }
  | .scanning (scan :: rest) =>
    match (if scan.shared then waiter.sigcommon else waiter.pending).find? scan.test with
    | some found => waiter.take scan found
    | none => { waiter with position := .scanning rest }
  | .asleep =>
    if waiter.sigevent then
      { waiter with
        sigevent := false, status := .PS_RUNNING, position := .scanning waiter.thread.call.scans }
    else
      let waiter := { waiter with status := .PS_INTERRUPTIBLE }
      if late && waiter.thread.call.timed then
        { waiter with thread := expireWait waiter.thread, position := .returned .expired }
      else waiter

end Waiter

/-- The end of `do_kill`. -/
def queueSignal (sig : Nat) (pending : SigPending) (queue : List SigPending) : List SigPending :=
  if sig < 33 ∧ pending ∈ queue then queue
  else if sig = SIGKILL ∨ sig = SIGSTOP then pending :: queue
  else queue ++ [pending]

inductive WaitOp where
  | go (late : Bool)
  /-- A signal for the group, which may wake up another thread, or for the thread. -/
  | kill (shared sigevent : Bool) (sig ptracecont : Nat)
  | take (index : Nat)

def Waiter.exec (waiter : Waiter) : WaitOp → Option Waiter
  | .go late => some (waiter.go late)
  | .kill shared sigevent sig ptracecont =>
    (SigPending.ofKill sig ptracecont).map fun pending =>
      let waiter := { waiter with sigevent := waiter.sigevent || sigevent }
      if shared then { waiter with sigcommon := queueSignal sig pending waiter.sigcommon }
      else { waiter with pending := queueSignal sig pending waiter.pending }
  | .take index => some { waiter with sigcommon := waiter.sigcommon.eraseIdx index }

/-- A call that has come to its loop. -/
structure Waiter.Starts (waiter : Waiter) : Prop where
  called : ∃ thread, thread.sigmask = waiter.before ∧
    ((∃ support timeout size,
        rtSigtimedwait support thread (.points waiter.set) timeout size = .ok waiter.thread) ∨
      (∃ size, rtSigsuspend thread (.points waiter.set) size = .ok waiter.thread) ∨
      waiter.set = thread.sigmask ∧ pause thread = waiter.thread)
  status : waiter.status = .PS_RUNNING
  sigevent : waiter.sigevent = true
  position : waiter.position = .asleep

def waitMachine : Machine Waiter WaitOp where
  init := Waiter.Starts
  step waiter op next := waiter.exec op = some next

/-- No timeout of `rt_sigtimedwait` expires. -/
def inTime : WaitOp → Bool
  | .go late => !late
  | _ => true

def timelyMachine : Machine Waiter WaitOp := waitMachine.restrict fun _ op => inTime op = true

/-! ## Invariant -/

def Waiter.Waits (waiter : Waiter) : Prop :=
  (∃ timed, waiter.thread.call = .timedwait waiter.before (dropUnblockable waiter.set) timed) ∨
    waiter.thread.call = .suspended waiter.before (dropUnblockable waiter.set)

/-- The mask to restore is kept until it is restored. -/
def Waiter.Ok (waiter : Waiter) : Prop :=
  match waiter.position with
  | .asleep => waiter.Waits
  | .scanning rest => waiter.Waits ∧ waiter.status = .PS_RUNNING ∧ rest ⊆ waiter.thread.call.scans
  | .returned _ => waiter.thread.sigmask = waiter.before ∧ waiter.status = .PS_RUNNING

variable {waiter next : Waiter}

theorem Waiter.Starts.waits (starts : waiter.Starts) : waiter.Waits := by
  obtain ⟨t, isBefore, ⟨support, timeout, size, called⟩ | ⟨size, called⟩ | ⟨isSet, paused⟩⟩ :=
    starts.called
  · unfold rtSigtimedwait at called
    split at called
    · cases called
    · simp only at called
      split at called
      · cases called
      next timed _ =>
        rw [Waits, ← Except.ok.inj called, ← isBefore]
        exact .inl ⟨timed, rfl⟩
  · unfold rtSigsuspend at called
    split at called
    · cases called
    · rw [Waits, ← Except.ok.inj called, ← isBefore]
      exact .inr rfl
  · rw [Waits, ← paused, isSet, ← isBefore]
    exact .inr rfl

theorem Waiter.Waits.restore (waits : waiter.Waits) :
    waiter.thread.restore.sigmask = waiter.before := by
  unfold Thread.restore
  rcases waits with ⟨timed, isCall⟩ | isCall
  · rw [isCall]
    rfl
  · rw [isCall]
    rfl

theorem Waiter.Ok.go (ok : waiter.Ok) : (waiter.go false).Ok := by
  unfold Waiter.go
  split
  · exact ok
  next isPosition =>
    rw [Ok, isPosition] at ok
    exact ok.1
  next scan rest isPosition =>
    rw [Ok, isPosition] at ok
    split
    next found _ =>
      unfold Waiter.take
      split <;> exact ⟨ok.1.restore, ok.2.1⟩
    · exact ⟨ok.1, ok.2.1, fun _ later => ok.2.2 (mem_cons_of_mem _ later)⟩
  next isPosition =>
    rw [Ok, isPosition] at ok
    split
    · exact ⟨ok, rfl, List.Subset.refl _⟩
    · simp only [Bool.false_and, Bool.false_eq_true, if_false, Ok, isPosition]
      exact ok

theorem Waiter.Ok.exec (ok : waiter.Ok) (timely : inTime op = true)
    (ran : waiter.exec op = some next) : next.Ok := by
  cases op with
  | go late =>
    cases ran
    cases late with
    | false => exact ok.go
    | true => cases timely
  | kill shared sigevent sig ptracecont =>
    obtain ⟨pending, -, rfl⟩ := Option.map_eq_some_iff.mp ran
    split <;> exact ok
  | take i =>
    cases ran
    exact ok

/-! ## Returns -/

def Removes (pending : SigPending) (queue queue' : List SigPending) : Prop :=
  ∃ front back, queue = front ++ pending :: back ∧ queue' = front ++ back

/-- One entry has left one of the lists. -/
def Waiter.Loses (waiter next : Waiter) (pending : SigPending) : Prop :=
  Removes pending waiter.sigcommon next.sigcommon ∧ next.pending = waiter.pending ∨
    next.sigcommon = waiter.sigcommon ∧ Removes pending waiter.pending next.pending

/-- The signal ends the wait with `EINTR`. -/
def Waiter.Interrupts (waiter : Waiter) (pending : SigPending) : Prop :=
  match waiter.thread.call with
  | .timedwait bset wset _ => pending.sigmask &&& ~~~(bset ||| wset) ≠ 0
  | .suspended _ wset => pending.sigmask &&& wset = 0
  | _ => False

/-- No entry is lost: one that leaves a list ends the wait. -/
def Waiter.Step (waiter next : Waiter) : Prop :=
  next.sigcommon = waiter.sigcommon ∧ next.pending = waiter.pending ∧
      (∀ outcome, next.position = .returned outcome → waiter.position = next.position) ∨
    ∃ pending, waiter.Loses next pending ∧
      (next.position = .returned (.reported pending) ∧ pending.sigmask &&& waiter.set ≠ 0 ∨
        next.position = .returned (.interrupted pending) ∧ waiter.Interrupts pending)

theorem removes_eraseP {test : SigPending → Bool}
    (isFound : queue.find? test = some found) : Removes found queue (queue.eraseP test) := by
  obtain ⟨passes, front, back, rfl, missed⟩ := find?_eq_some_iff_append.mp isFound
  refine ⟨front, back, rfl, ?_⟩
  rw [eraseP_append_right _ (by simpa using missed), eraseP_cons_of_pos passes]

theorem and_ne_zero_of_dropUnblockable {mask set : SigSet}
    (meets : mask &&& dropUnblockable set ≠ 0) : mask &&& set ≠ 0 := by
  intro apart
  rw [dropUnblockable, ← BitVec.and_assoc, ← BitVec.and_assoc, apart] at meets
  simp at meets

theorem Waiter.Waits.outcome {scan : Scan} (waits : waiter.Waits)
    (isScan : scan ∈ waiter.thread.call.scans) (passes : scan.test found = true) :
    scan.outcome found = .reported found ∧ found.sigmask &&& waiter.set ≠ 0 ∨
      scan.outcome found = .interrupted found ∧ waiter.Interrupts found := by
  rcases waits with ⟨timed, isCall⟩ | isCall
  · simp only [isCall, Call.scans, mem_cons, not_mem_nil, or_false] at isScan
    simp only [Interrupts, isCall]
    rcases isScan with rfl | rfl | rfl | rfl
    · exact .inl ⟨rfl, and_ne_zero_of_dropUnblockable (of_decide_eq_true passes)⟩
    · exact .inl ⟨rfl, and_ne_zero_of_dropUnblockable (of_decide_eq_true passes)⟩
    · exact .inr ⟨rfl, of_decide_eq_true passes⟩
    · exact .inr ⟨rfl, of_decide_eq_true passes⟩
  · simp only [isCall, Call.scans, mem_cons, not_mem_nil, or_false] at isScan
    simp only [Interrupts, isCall]
    rcases isScan with rfl | rfl
    · exact .inr ⟨rfl, of_decide_eq_true passes⟩
    · exact .inr ⟨rfl, of_decide_eq_true passes⟩

theorem Waiter.Ok.step (ok : waiter.Ok) : waiter.Step (waiter.go false) := by
  unfold Waiter.go
  split
  · exact .inl ⟨rfl, rfl, fun _ _ => rfl⟩
  · exact .inl ⟨rfl, rfl, by simp⟩
  next scan rest isPosition =>
    rw [Ok, isPosition] at ok
    split
    next found isFound =>
      have outcome := ok.1.outcome (ok.2.2 mem_cons_self) (find?_some isFound)
      refine .inr ⟨found, ?_⟩
      unfold Waiter.take
      split
      next shared =>
        rw [if_pos shared] at isFound
        exact ⟨.inl ⟨removes_eraseP isFound, rfl⟩, by simpa using outcome⟩
      next own =>
        rw [if_neg own] at isFound
        exact ⟨.inr ⟨rfl, removes_eraseP isFound⟩, by simpa using outcome⟩
    · exact .inl ⟨rfl, rfl, by simp⟩
  next isPosition =>
    split
    · exact .inl ⟨rfl, rfl, by simp⟩
    · simp only [Bool.false_and, Bool.false_eq_true, if_false]
      exact .inl ⟨rfl, rfl, fun _ _ => rfl⟩

/-- A wait that does not time out leaves the thread running with the mask from before the call,
which a handler finds in its frame, and takes one signal off the lists, which is one of the set
if it is reported. -/
theorem sigwait_restores (reached : timelyMachine.Reachable waiter) :
    (∀ outcome, waiter.position = .returned outcome → waiter.status = .PS_RUNNING ∧
      waiter.thread.sigmask = waiter.before ∧ ∀ action pending frameWritten,
        rtSigreturn (doSignal action waiter.thread pending frameWritten).1
            (.points ⟨waiter.thread.sigmask⟩) =
          .ok ((doSignal action waiter.thread pending frameWritten).1.setMask waiter.before)) ∧
    waiter.Step (waiter.go false) := by
  have ok : waiter.Ok := by
    refine reached.invariant Waiter.Ok ?_ ?_
    · intro waiter starts
      rw [Waiter.Ok, starts.position]
      exact starts.waits
    · rintro waiter op next - ok ⟨timely, executed⟩
      exact ok.exec timely executed
  refine ⟨fun outcome isReturned => ?_, ok.step⟩
  rw [Waiter.Ok, isReturned] at ok
  refine ⟨ok.2, ok.1, fun action pending frameWritten => ?_⟩
  rw [rtSigreturn, ok.1]

/-- `rt_sigtimedwait` for signal 10, with a timeout, by a thread that blocks signal 12. -/
def waitsFor10 : Waiter where
  thread := ⟨sigmask 12 ||| sigmask 10, 0, false, .timedwait (sigmask 12) (sigmask 10) true⟩
  status := .PS_RUNNING
  sigevent := true
  sigcommon := []
  pending := []
  position := .asleep
  set := sigmask 10
  before := sigmask 12

theorem starts_waitsFor10 : waitMachine.init waitsFor10 where
  called := ⟨⟨sigmask 12, 0, false, .none⟩, rfl, .inl ⟨true, .points ⟨1, 0⟩, 8, by decide⟩⟩
  status := rfl
  sigevent := rfl
  position := rfl

def Position.outcome? : Position → Option Outcome
  | .returned outcome => some outcome
  | _ => none

theorem outcome?_eq_some {position : Position} {outcome : Outcome}
    (isOutcome : position.outcome? = some outcome) : position = .returned outcome := by
  cases position with
  | returned => exact congrArg _ (Option.some.inj isOutcome)
  | asleep | scanning => cases isOutcome

/-- Signal 12 stays pending while signal 10 is taken. -/
theorem sigwait_restores_reported :
    ∃ waiter, timelyMachine.Reachable waiter ∧
      waiter.position = .returned (.reported ⟨sigmask 10, 0⟩) ∧
      waiter.sigcommon = [⟨sigmask 12, 0⟩] ∧ waiter.status = .PS_RUNNING ∧
      waiter.thread.sigmask = waiter.before := by
  obtain ⟨waiter, reached, isOutcome, stays⟩ : ∃ waiter,
      timelyMachine.Reachable waiter ∧
        waiter.position.outcome? = some (.reported ⟨sigmask 10, 0⟩) ∧
        waiter.sigcommon = [⟨sigmask 12, 0⟩] :=
    Machine.exists_restrict_run (fun _ _ => id) starts_waitsFor10
      (fun _ _ _ => id) [.go false, .kill true true 12 0, .go false, .go false, .go false,
        .go false, .kill true true 10 0, .go false, .go false, .go false] (by decide +kernel)
  have returned := outcome?_eq_some isOutcome
  obtain ⟨status, mask, -⟩ := (sigwait_restores reached).1 _ returned
  exact ⟨waiter, reached, returned, stays, status, mask⟩

/-- The timeout expires: the mask keeps the signals of the set, and the thread its state. -/
theorem expired_wait_keeps_mask :
    ∃ waiter, waitMachine.Reachable waiter ∧ waiter.position.outcome? = some .expired ∧
      waiter.thread.sigmask ≠ waiter.before ∧ waiter.status = .PS_INTERRUPTIBLE :=
  Machine.exists_run starts_waitsFor10 (fun _ _ _ => id)
    [.go false, .go false, .go false, .go false, .go false, .go false, .go true]
    (by decide +kernel)

end McKernel.Signal
