import McKernel.Lib.Machine
import McKernel.Signal.Model

/-!
# Signals that cannot be blocked

`SIGKILL` and `SIGSTOP` stay out of the mask of a thread as long as user space hands in
no word that contains them to one of the calls that store the word unfiltered.  Every
word a waiting call has saved is free of them as well, and neither signal ever has a
handler, so that no delivery adds them.
-/

namespace McKernel.Signal

variable {sig ptracecont sigsetsize : Nat} {action : Nat → SigAction} {pending : SigPending}
  {system : System} {t after : Thread} {set : UserPtr SigSet}

/-! ## Words -/

/-- The signal is in the set. -/
def Blocks (mask : SigSet) (sig : Nat) : Prop := mask.getLsbD (sig - 1) = true

instance (mask : SigSet) (sig : Nat) : Decidable (Blocks mask sig) :=
  inferInstanceAs (Decidable (_ = true))

/-- Neither of the two unblockable signals is in the set. -/
structure Unblocking (mask : SigSet) : Prop where
  kill : ¬Blocks mask SIGKILL
  stop : ¬Blocks mask SIGSTOP

instance (mask : SigSet) : Decidable (Unblocking mask) :=
  decidable_of_iff (¬Blocks mask SIGKILL ∧ ¬Blocks mask SIGSTOP)
    ⟨fun both => ⟨both.1, both.2⟩, fun unblocking => ⟨unblocking.kill, unblocking.stop⟩⟩

theorem unblocking_iff (mask : SigSet) :
    Unblocking mask ↔ mask.getLsbD 8 = false ∧ mask.getLsbD 18 = false := by
  constructor
  · rintro ⟨kill, stop⟩
    simpa [Blocks, SIGKILL, SIGSTOP] using And.intro kill stop
  · rintro ⟨kill, stop⟩
    exact ⟨Bool.eq_false_iff.mp kill, Bool.eq_false_iff.mp stop⟩

theorem Unblocking.or {first second : SigSet} (left : Unblocking first)
    (right : Unblocking second) : Unblocking (first ||| second) := by
  rw [unblocking_iff] at left right ⊢
  simp only [BitVec.getLsbD_or, left, right, Bool.or_self, and_self]

theorem unblocking_zero : Unblocking 0 := by
  rw [unblocking_iff]
  simp

theorem unblocking_dropUnblockable (mask : SigSet) : Unblocking (dropUnblockable mask) := by
  rw [unblocking_iff]
  simp [dropUnblockable, sigmask, SIGKILL, SIGSTOP]

theorem unblocking_sigmask (notKill : sig ≠ SIGKILL) (notStop : sig ≠ SIGSTOP) : Unblocking
    (sigmask sig) := by
  rw [unblocking_iff]
  simp only [SIGKILL, SIGSTOP] at notKill notStop
  simp only [sigmask, BitVec.getLsbD_twoPow]
  constructor <;> simp <;> omega

theorem shiftsToZero_sigmask (sig : Fin 64) :
    shiftsToZero 64 (sigmask (sig.val + 1)) = sig.val + 1 := by
  revert sig
  decide

theorem signo_ofKill (sent : SigPending.ofKill sig ptracecont = some pending) :
    pending.sigmask = sigmask sig ∧ pending.signo = sig := by
  unfold SigPending.ofKill at sent
  split at sent
  next bounds =>
    cases sent
    simp only [NSIG] at bounds
    have recovered := shiftsToZero_sigmask ⟨sig - 1, by omega⟩
    have back : sig - 1 + 1 = sig := by omega
    simp only [back] at recovered
    exact ⟨rfl, recovered⟩
  · cases sent

/-! ## Threads and actions -/

def Call.Saved : Call → Prop
  | .none => True
  | .forwarded oldset => Unblocking oldset
  | .timedwait bset _ _ => Unblocking bset
  | .suspended bset _ => Unblocking bset

/-- A thread blocks neither signal, now or once the call it is in has ended. -/
structure ThreadOk (thread : Thread) : Prop where
  mask : Unblocking thread.sigmask
  saved : thread.call.Saved

/-- Neither signal has a handler. -/
structure ActionOk (action : Nat → SigAction) : Prop where
  kill : (action SIGKILL).handler = .dfl
  stop : (action SIGSTOP).handler = .dfl

/-- Nothing blocks or handles SIGKILL and SIGSTOP. -/
structure SystemOk (system : System) : Prop where
  threads : ∀ tid thread, system.threads tid = some thread → ThreadOk thread
  actions : ∀ sigcommon, ActionOk (system.action sigcommon)

theorem SystemOk.setThread (ok : SystemOk system) (tid : Nat) (threadOk : ThreadOk t) :
    SystemOk (system.setThread tid t) := by
  refine ⟨?_, ok.actions⟩
  intro o found stored
  by_cases same : o = tid
  · subst same
    simp only [System.setThread, Function.update_self, Option.some.injEq] at stored
    exact stored ▸ threadOk
  · simp only [System.setThread, Function.update_of_ne same] at stored
    exact ok.threads o found stored

theorem SystemOk.setAction (ok : SystemOk system) (sigcommon : Nat) (actionOk : ActionOk action) :
    SystemOk (system.setAction sigcommon action) := by
  refine ⟨ok.threads, ?_⟩
  intro o
  by_cases same : o = sigcommon
  · subst same
    simpa [System.setAction] using actionOk
  · simpa [System.setAction, Function.update_of_ne same] using ok.actions o

theorem SystemOk.finish (ok : SystemOk system) (tid : Nat)
    (threadOk : ∀ t, res = .ok t → ThreadOk t) :
    SystemOk (system.finish tid res) := by
  cases res with
  | error errno => exact ok
  | ok t => exact ok.setThread tid (threadOk t rfl)

theorem ThreadOk.leave {mask : SigSet} (unblocking : Unblocking mask) :
    ThreadOk ((t.setMask mask).setCall .none) :=
  ⟨unblocking, trivial⟩

theorem ActionOk.update (ok : ActionOk action)
    (harmless : act.handler = .dfl ∨ sig ≠ SIGKILL ∧ sig ≠ SIGSTOP) :
    ActionOk (Function.update action sig act) := by
  constructor
  · by_cases same : SIGKILL = sig
    · subst same
      rcases harmless with default | ⟨notKill, _⟩
      · simpa using default
      · exact absurd rfl notKill
    · simpa [Function.update_of_ne same] using ok.kill
  · by_cases same : SIGSTOP = sig
    · subst same
      rcases harmless with default | ⟨_, notStop⟩
      · simpa using default
      · exact absurd rfl notStop
    · simpa [Function.update_of_ne same] using ok.stop

/-! ## One lemma for each call -/

def UserPtr.Unblocking : UserPtr SigSet → Prop
  | .points set => Signal.Unblocking set
  | _ => True

instance : DecidablePred UserPtr.Unblocking
  | .null => .isTrue trivial
  | .bad => .isTrue trivial
  | .points set => inferInstanceAs (Decidable (Signal.Unblocking set))

section

variable (ok : ThreadOk t)
include ok

theorem pollWithSet_ok (harmless : set.Unblocking) (called : pollWithSet t set = .ok after) :
    ThreadOk after := by
  cases set with
  | null =>
    cases called
    exact ⟨ok.mask, ok.mask⟩
  | bad => cases called
  | points wset =>
    cases called
    exact ⟨harmless, ok.mask⟩

theorem rtSigprocmask_ok
    (called : rtSigprocmask t how set oldset sigsetsize = .ok after) : ThreadOk after := by
  unfold rtSigprocmask at called
  split at called
  · cases called
  split at called
  · cases called
  split at called
  · cases called
  split at called
  · cases called
    exact ⟨unblocking_dropUnblockable _, ok.saved⟩
  · cases called
  · cases called
    exact ⟨unblocking_dropUnblockable _, ok.saved⟩

theorem rtSigtimedwait_ok
    (called : rtSigtimedwait support t set timeout sigsetsize = .ok after) :
    ThreadOk after := by
  unfold rtSigtimedwait at called
  split at called
  · cases called
  split at called
  · cases called
  · cases called
  split at called
  · cases called
  · cases called
    exact ⟨ok.mask.or (unblocking_dropUnblockable _), ok.mask⟩

theorem doSigsuspend_ok (set : SigSet) :
    ThreadOk (doSigsuspend t set) :=
  ⟨unblocking_dropUnblockable set, ok.mask⟩

theorem rtSigsuspend_ok
    (called : rtSigsuspend t set sigsetsize = .ok after) : ThreadOk after := by
  unfold rtSigsuspend at called
  split at called
  · cases called
  split at called
  · cases called
  · cases called
  · cases called
    exact doSigsuspend_ok ok _

theorem forwardedReturn_ok :
    ThreadOk (forwardedReturn t) := by
  unfold forwardedReturn
  split
  next oldset inside =>
    have saved := ok.saved
    rw [inside] at saved
    exact .leave saved
  · exact ok

theorem expireWait_ok : ThreadOk (expireWait t) := by
  unfold expireWait
  split
  · exact ⟨ok.mask, trivial⟩
  · exact ok

end

theorem rtSigaction_ok {after : Nat → SigAction} {sig : Int}
    (ok : ActionOk action) (called : rtSigaction action sig act sigsetsize = .ok after) :
    ActionOk after := by
  unfold rtSigaction at called
  split at called
  · cases called
  split at called
  · cases called
  split at called
  · cases called
  next bounds =>
    split at called
    next act =>
      split at called
      · cases called
      next allowed =>
        cases called
        refine ok.update (.inr ?_)
        omega
    · cases called
      exact ok

theorem resetHandlers_ok (ok : ActionOk action) :
    ActionOk (resetHandlers action) := by
  constructor
  · simp [resetHandlers, ok.kill]
  · simp [resetHandlers, ok.stop]

theorem entered_signal (ok : ActionOk action)
    (handled : (action (deliveredSignal t pending)).handler = .user entry) :
    pending.signo ≠ SIGKILL ∧ pending.signo ≠ SIGSTOP := by
  unfold deliveredSignal at handled
  split at handled
  · rw [ok.stop] at handled
    cases handled
  · constructor
    · intro same
      rw [same, ok.kill] at handled
      cases handled
    · intro same
      rw [same, ok.stop] at handled
      cases handled

theorem doSignal_ok (actionOk : ActionOk action) (ok : ThreadOk t)
    (sent : SigPending.ofKill sig ptracecont = some pending) (frameWritten : Bool) :
    ThreadOk (doSignal action t pending frameWritten).1 ∧
      ActionOk (doSignal action t pending frameWritten).2 := by
  obtain ⟨maskEq, signoEq⟩ := signo_ofKill sent
  simp only [doSignal]
  split
  · exact ⟨ok, actionOk⟩
  · exact ⟨ok, actionOk⟩
  next entry handled =>
    obtain ⟨notKill, notStop⟩ := entered_signal actionOk handled
    rw [signoEq] at notKill notStop
    have resetOk : ActionOk
        (if (action (deliveredSignal t pending)).resethand = true then
          Function.update action (deliveredSignal t pending)
            { action (deliveredSignal t pending) with handler := .dfl }
        else action) := by
      split
      · exact actionOk.update (.inl rfl)
      · exact actionOk
    split
    · split
      · exact ⟨ok, resetOk⟩
      · refine ⟨⟨?_, ok.saved⟩, resetOk⟩
        rw [Thread.sigmask_setMask, maskEq]
        exact ok.mask.or (unblocking_sigmask notKill notStop)
    · exact ⟨ok, actionOk⟩

theorem SystemOk.signal (ok : SystemOk system) (tid : Nat) (threadOk : ThreadOk t)
    (sent : SigPending.ofKill sig ptracecont = some pending) (frameWritten : Bool) :
    SystemOk (system.signal tid t pending frameWritten) := by
  have delivered := doSignal_ok (ok.actions t.sigcommon) threadOk sent frameWritten
  exact (ok.setThread tid delivered.1).setAction _ delivered.2

theorem foundSignal_ok (ok : SystemOk system) (tid : Nat) (threadOk : ThreadOk t)
    (sent : SigPending.ofKill sig ptracecont = some pending) (frameWritten : Bool) :
    SystemOk (foundSignal system tid t pending frameWritten) := by
  have saved := threadOk.saved
  unfold foundSignal
  split
  · exact ok
  · split
    · exact ok.signal tid threadOk sent frameWritten
    · exact ok
  next bset wset timed inside =>
    rw [inside] at saved
    split
    · exact ok.setThread tid (.leave saved)
    · split
      · exact ok.signal tid (.leave saved) sent frameWritten
      · exact ok
  next bset wset inside =>
    rw [inside] at saved
    split
    · exact ok.signal tid (.leave saved) sent frameWritten
    · exact ok

/-! ## Runs -/

/-- The words that are stored as user space hands them in do not contain the two signals:
the sets of `epoll_pwait`, `ppoll` and `pselect6`, and the mask in the frame that
`rt_sigreturn` reads. -/
def HarmlessWords : Op → Prop
  | .epollPwait set => set.Unblocking
  | .ppoll set => set.Unblocking
  | .pselect6 (.points set) => set.Unblocking
  | .rtSigreturn (.points sigsp) => Unblocking sigsp.oldmask
  | _ => True

instance : DecidablePred HarmlessWords := by
  intro op
  unfold HarmlessWords
  split <;> infer_instance

theorem pselect6_ok {set : UserPtr (UserPtr SigSet)} (ok : ThreadOk t)
    (harmless : HarmlessWords (.pselect6 set)) (called : pselect6 t set = .ok after) :
    ThreadOk after := by
  cases set with
  | null =>
    cases called
    exact ⟨ok.mask, ok.mask⟩
  | bad => cases called
  | points set => exact pollWithSet_ok ok harmless called

theorem rtSigreturn_ok {sigsp : UserPtr Sigsp} (ok : ThreadOk t)
    (harmless : HarmlessWords (.rtSigreturn sigsp))
    (called : rtSigreturn t sigsp = .ok after) : ThreadOk after := by
  cases sigsp with
  | null => cases called
  | bad => cases called
  | points ksigsp =>
    cases called
    exact ⟨harmless, ok.saved⟩

theorem exec_ok (ok : SystemOk system) (tid : Nat)
    (harmless : HarmlessWords op) : SystemOk (exec support system tid op) := by
  unfold exec
  split
  · exact ok
  next t stored =>
    have threadOk := ok.threads tid t stored
    split
    · exact ok.setThread tid (forwardedReturn_ok threadOk)
    · exact ok.setThread tid (expireWait_ok threadOk)
    · exact ok.setThread tid ⟨threadOk.mask, threadOk.saved⟩
    next sig ptracecont frameWritten =>
      split
      · exact ok
      next pending sent => exact foundSignal_ok ok tid threadOk sent frameWritten
    · split
      · exact ok
      split
      · exact ok.finish tid fun _ called => pollWithSet_ok threadOk harmless called
      · exact ok.finish tid fun _ called => pollWithSet_ok threadOk harmless called
      · exact ok.finish tid fun _ called => pselect6_ok threadOk harmless called
      · exact ok.finish tid fun _ called => rtSigprocmask_ok threadOk called
      · exact ok.finish tid fun _ called => rtSigtimedwait_ok threadOk called
      · exact ok.finish tid fun _ called => rtSigsuspend_ok threadOk called
      · exact ok.setThread tid (doSigsuspend_ok threadOk _)
      · exact ok.finish tid fun _ called => rtSigreturn_ok threadOk harmless called
      · split
        next action called => exact ok.setAction _ (rtSigaction_ok (ok.actions _) called)
        · exact ok
      · exact ok.setAction _ (resetHandlers_ok (ok.actions _))
      · split
        · exact ok
        split
        · exact ok.setThread _ threadOk
        · refine (ok.setThread _ ?_).setAction _ (ok.actions _)
          exact ⟨threadOk.mask, threadOk.saved⟩
      · exact ok

/-- No signal is blocked or handled. -/
def Booted (system : System) : Prop :=
  (∀ tid thread, system.threads tid = some thread → thread.sigmask = 0 ∧ thread.call = .none) ∧
    ∀ sigcommon sig, system.action sigcommon sig = .zero

def machine (gettimeLocalSupport : Bool) : Machine System (Nat × Op) where
  init := Booted
  step system action next := exec gettimeLocalSupport system action.1 action.2 = next

theorem Booted.systemOk (booted : Booted system) : SystemOk system := by
  refine ⟨?_, ?_⟩
  · intro tid t stored
    obtain ⟨empty, idle⟩ := booted.1 tid t stored
    refine ⟨empty ▸ unblocking_zero, ?_⟩
    rw [idle]
    trivial
  · intro sigcommon
    constructor <;> rw [booted.2] <;> rfl

/-- In every run whose user words are harmless, no thread ever blocks `SIGKILL` or
`SIGSTOP`. -/
theorem kill_and_stop_unblocked (gettimeLocalSupport : Bool) {system : System}
    (reached : ((machine gettimeLocalSupport).restrict
      fun _ action => HarmlessWords action.2).Reachable system)
    (tid : Nat) (thread : Thread) (stored : system.threads tid = some thread) :
    ¬Blocks thread.sigmask SIGKILL ∧ ¬Blocks thread.sigmask SIGSTOP := by
  have ok : SystemOk system := by
    refine reached.invariant SystemOk (fun _ booted => Booted.systemOk booted) ?_
    rintro before ⟨actor, op⟩ after _ ok ⟨harmless, rfl⟩
    exact exec_ok ok actor harmless
  exact ⟨(ok.threads tid thread stored).mask.kill, (ok.threads tid thread stored).mask.stop⟩

def firstThread : System where
  threads tid := if tid = 0 then some ⟨0, 0, false, .none⟩ else none
  action _ _ := .zero

theorem firstThread_booted : Booted firstThread := by
  refine ⟨?_, fun _ _ => rfl⟩
  intro tid t stored
  simp only [firstThread] at stored
  split at stored
  · cases stored
    exact ⟨rfl, rfl⟩
  · cases stored

def runThread (guard : Op → Bool) (ops : List Op) : Option System :=
  Machine.run (fun _ (action : Nat × Op) => guard action.2)
    (fun system action => some (exec true system action.1 action.2)) firstThread
    (ops.map fun op => (0, op))

theorem reachable_of_runThread {guard : Op → Bool} (condition : Op → Prop)
    (sound : ∀ op, guard op = true → condition op) (res : runThread guard ops = some system) :
    ((machine true).restrict fun _ action => condition action.2).Reachable system := by
  refine Machine.reachable_of_run ?_ (.init firstThread_booted) res
  intro before action after passed ran
  cases ran
  exact ⟨sound _ passed, rfl⟩

/-- A handler for signal 10 is entered while everything harmless is blocked, `ppoll` waits
with another mask, the frame is left again, and `rt_sigtimedwait` waits for everything. -/
theorem kill_and_stop_unblocked_after_handler :
    ∃ system thread, ((machine true).restrict
        fun _ action => HarmlessWords action.2).Reachable system ∧
      system.threads 0 = some thread ∧ thread.sigmask = ~~~0x40100 ∧
      ¬Blocks thread.sigmask SIGKILL ∧ ¬Blocks thread.sigmask SIGSTOP := by
  have ran : ((runThread (fun op => decide (HarmlessWords op))
      [.rtSigaction 10 (.points ⟨.user 0x1000, false, true⟩) 8,
        .rtSigprocmask .SIG_SETMASK (.points (~~~sigmask 10)) .null 8, .found 10 0 true,
        .ppoll (.points 0x2), .forwardedReturn, .rtSigreturn (.points ⟨0x4⟩),
        .rtSigtimedwait (.points (~~~0)) .null 8]).bind fun system =>
          (system.threads 0).map Thread.sigmask) = some (~~~0x40100) := by
    decide +kernel
  obtain ⟨system, result, masked⟩ := Option.bind_eq_some_iff.mp ran
  obtain ⟨thread, stored, maskEq⟩ := Option.map_eq_some_iff.mp masked
  have reached := reachable_of_runThread HarmlessWords
    (fun _ passed => of_decide_eq_true passed) result
  exact ⟨system, thread, reached, stored, maskEq,
    kill_and_stop_unblocked true reached 0 thread stored⟩

/-- A forged frame blocks both signals for good; `ppoll` blocks them while it waits. -/
theorem forged_frame_blocks_kill :
    (∃ system thread, (machine true).Reachable system ∧ system.threads 0 = some thread ∧
      thread.call = .none ∧ Blocks thread.sigmask SIGKILL ∧ Blocks thread.sigmask SIGSTOP) ∧
    ∃ system thread, (machine true).Reachable system ∧ system.threads 0 = some thread ∧
      thread.call = .forwarded 0 ∧ Blocks thread.sigmask SIGKILL ∧
      Blocks thread.sigmask SIGSTOP := by
  have reach (ops : List Op) {system : System}
      (result : runThread (fun _ => true) ops = some system) : (machine true).Reachable system :=
    (reachable_of_runThread (fun _ => True) (fun _ _ => trivial) result).of_restrict
  refine ⟨⟨_, _, reach [.rtSigreturn (.points ⟨0x40100⟩)] rfl, rfl, rfl, ?_, ?_⟩,
    ⟨_, _, reach [.ppoll (.points 0x40100)] rfl, rfl, rfl, ?_, ?_⟩⟩ <;> decide

end McKernel.Signal
