import McKernel.Wait.Model

/-!
# What a call of wait may do

The flag `empty` says that nothing is left to wait for, but it is not set again when a call
scans once more, the last look at the threads of the process does not ask for the identifier,
and a child that has exited counts although nobody asks for its exit.  Where that makes no
difference, a call returns `-ECHILD` exactly if there was nothing to wait for when it scanned,
and sleeps only if something could still report.  Events are reported at most once and times
are added exactly once.
-/

namespace McKernel.Wait

open Errno FirstMatch Option Bool

variable {options : Options} {place : Place} {next : State} {test : Task → Bool}
  {change : Task → Task}

variable {s : State}

/-! ## Events -/

/-- Nothing is reported more often than it has happened. -/
structure Log.Sound (log : Log) : Prop where
  exits : log.exitsReported ≤ log.exits
  once : log.exits ≤ 1
  stops : log.stopsReported ≤ log.stops
  conts : log.contsReported ≤ log.conts

/-- What has been reported and what may still be reported has happened. -/
structure Task.Logged (task : Task) : Prop where
  exits : task.log.exits = if task.status.isExit then 1 else 0
  exitsReported : task.log.exitsReported = 0
  stops : task.log.stopsReported + task.pendingStops ≤ task.log.stops
  conts : task.log.contsReported + task.pendingConts ≤ task.log.conts

variable {task : Task}

theorem Task.logged_of_isLogged (passed : task.isLogged = true) : task.Logged := by
  simp only [isLogged, and_eq_true, beq_iff_eq, decide_eq_true_eq] at passed
  obtain ⟨⟨⟨exits, exitsReported⟩, stops⟩, conts⟩ := passed
  exact ⟨exits, exitsReported, stops, conts⟩

theorem Task.pendingStops_le (task : Task) : task.pendingStops ≤ 1 := by
  unfold pendingStops
  split <;> omega

theorem Task.pendingStops_of_stopFlag (flag : task.stopFlag = true) :
    task.pendingStops = 1 := by
  simp [pendingStops, flag]

theorem Task.pendingStops_le_of_stopFlag {o : Task}
    (flag : o.stopFlag = task.stopFlag) (noStop : o.status.isStop = false) :
    o.pendingStops ≤ task.pendingStops := by
  simp only [pendingStops, flag, noStop, Bool.false_and, Bool.or_false]
  cases task.stopFlag with
  | true => simp
  | false => simp

theorem Task.pendingStops_setStopFlag (reaped : task.stopStatus = 0) :
    (task.setStopFlag false).pendingStops = 0 := by
  show (if (false || task.status.isStop && task.stopStatus != 0) = true then 1 else 0) = 0
  rw [reaped]
  simp

theorem Task.stopStatus_reapStop (task : Task) : task.reapStop.stopStatus = 0 := by
  unfold reapStop
  cases group : task.usesGroup with
  | true =>
    have same : (task.setGroupExitStatus 0).usesGroup = true := group
    rw [if_pos rfl, stopStatus, if_pos same]
    rfl
  | false =>
    have same : (task.setExitStatus 0).usesGroup = false := group
    rw [if_neg Bool.false_ne_true, stopStatus, same, if_neg Bool.false_ne_true]
    rfl

namespace Task.Logged

variable {task : Task} (logged : task.Logged)

include logged

theorem sound : task.log.Sound where
  exits := by
    rw [logged.exitsReported]
    exact Nat.zero_le _
  once := by
    rw [logged.exits]
    split <;> omega
  stops := by
    have := logged.stops
    omega
  conts := by
    have := logged.conts
    omega

theorem reapStop (pending : task.pendingStops = 1) :
    ((task.reapStop.setStopFlag false).setLog
      { task.log with stopsReported := task.log.stopsReported + 1 }).Logged := by
  have stops := logged.stops
  have none : (task.reapStop.setStopFlag false).pendingStops = 0 :=
    pendingStops_setStopFlag task.stopStatus_reapStop
  have status : task.reapStop.status = task.status := by
    unfold Task.reapStop
    split <;> rfl
  have flag : task.reapStop.contFlag = task.contFlag := by
    unfold Task.reapStop
    split <;> rfl
  refine ⟨?_, logged.exitsReported, ?_, ?_⟩
  · have exits := logged.exits
    rw [← status] at exits
    exact exits
  · have kept : task.log.stopsReported + 1 + (task.reapStop.setStopFlag false).pendingStops ≤
        task.log.stops := by
      omega
    exact kept
  · have conts := logged.conts
    rw [pendingConts, ← flag] at conts
    exact conts

theorem clearStopFlag (reaped : task.stopStatus = 0) : (task.setStopFlag false).Logged := by
  refine { logged with stops := ?_ }
  rw [pendingStops_setStopFlag reaped]
  have := logged.stops
  exact Nat.le_trans (Nat.add_le_add_left (Nat.zero_le _) _) this

theorem settle (reported : report options task = some kind)
    (notExit : kind ≠ .exit) : (Wait.settle options kind task).Logged := by
  unfold Wait.settle
  split
  · exact logged
  · unfold report at reported
    split at reported
    · exact absurd (Option.some.inj reported).symm notExit
    split at reported
    next flagged =>
      cases reported
      simp only [and_eq_true] at flagged
      simp only
      split
      next reaped => exact logged.clearStopFlag reaped
      · exact logged.reapStop (pendingStops_of_stopFlag flagged.1.2)
    split at reported
    next stopped =>
      cases reported
      simp only [and_eq_true, or_eq_true, beq_iff_eq] at stopped
      refine logged.reapStop ?_
      have isStop : task.status.isStop = true := by
        rcases stopped.1.2 with status | status <;> rw [status] <;> rfl
      simp [pendingStops, isStop, stopped.2]
    split at reported
    next continued =>
      cases reported
      simp only [and_eq_true] at continued
      have conts := logged.conts
      simp only [pendingConts, continued.1, if_true] at conts
      exact { logged with conts }
    · cases reported

theorem settle_exit (forGood : options.wnowait = false) (isExit : task.status.isExit = true) :
    (Wait.settle options .exit task).log.Sound ∧
      (Wait.settle options .exit task).log.exitsReported = 1 := by
  have sound := logged.sound
  have exits := logged.exits
  rw [isExit, if_pos rfl] at exits
  have none := logged.exitsReported
  simp only [Wait.settle, forGood, false_eq_true, if_false, Task.setLog]
  refine ⟨⟨?_, sound.once, sound.stops, sound.conts⟩, ?_⟩
  · simp only
    omega
  · rw [none]

theorem setTraced (traced : Bool) : (task.setTraced traced).Logged :=
  { logged with }

theorem exit (alive : task.status.isExit = false) (groupExitStatus exitStatus usage : Nat) :
    (task.exit groupExitStatus exitStatus usage).Logged := by
  have exits := logged.exits
  rw [alive, if_neg Bool.false_ne_true] at exits
  refine ⟨?_, logged.exitsReported, ?_, logged.conts⟩
  · show task.log.exits + 1 = 1
    rw [exits]
  · have fewer : (task.exit groupExitStatus exitStatus usage).pendingStops ≤ task.pendingStops :=
      pendingStops_le_of_stopFlag rfl rfl
    exact Nat.le_trans (Nat.add_le_add_left fewer _) logged.stops

theorem setStatus {status : Status} (noStop : status.isStop = false)
    (same : status.isExit = task.status.isExit) : (task.setStatus status).Logged := by
  refine ⟨?_, logged.exitsReported, ?_, logged.conts⟩
  · have exits := logged.exits
    rw [← same] at exits
    exact exits
  · have fewer : (task.setStatus status).pendingStops ≤ task.pendingStops :=
      pendingStops_le_of_stopFlag rfl noStop
    exact Nat.le_trans (Nat.add_le_add_left fewer _) logged.stops

theorem stop (alive : task.status.isExit = false) (kind : StopKind) : (task.stop kind).Logged := by
  have status : (task.stopAs kind).status.isExit = false := by
    cases kind with
    | group => rfl
    | thread => rfl
    | signal sig => simp only [stopAs, Task.setStatus]; split <;> rfl
    | trap => simp only [stopAs]; split <;> rfl
  have conts : (task.stopAs kind).pendingConts ≤ task.pendingConts := by
    cases kind with
    | group => exact Nat.zero_le _
    | thread => exact Nat.zero_le _
    | signal sig => exact Nat.le_refl _
    | trap => simp only [stopAs]; split <;> exact Nat.le_refl _
  have exits := logged.exits
  rw [alive] at exits
  refine ⟨?_, logged.exitsReported, ?_, ?_⟩
  · show task.log.exits = if (task.stopAs kind).status.isExit then 1 else 0
    rw [exits, status]
  · have stops := logged.stops
    have atMost := (task.stopAs kind).pendingStops_le
    show task.log.stopsReported + (task.stopAs kind).pendingStops ≤ task.log.stops + 1
    omega
  · have := logged.conts
    show task.log.contsReported + (task.stopAs kind).pendingConts ≤ task.log.conts
    omega

theorem completeStop : task.completeStop.Logged := by
  unfold Task.completeStop
  split
  iterate 2
    next status =>
      have exits := logged.exits
      have stops := logged.stops
      simp only [pendingStops, stopStatus, usesGroup, status] at stops
      rw [status] at exits
      exact ⟨exits, logged.exitsReported, stops, logged.conts⟩
  · exact logged

theorem cont (alive : task.status.isExit = false) : task.cont.Logged := by
  unfold Task.cont
  split
  · have exits := logged.exits
    rw [alive] at exits
    have stops := logged.sound.stops
    have conts := logged.sound.conts
    exact ⟨exits, logged.exitsReported, stops, Nat.add_le_add_right conts 1⟩
  · exact logged.setStatus rfl alive.symm

end Task.Logged

/-! ## The books of the process -/

/-- The tasks of all lists are logged, and those that have been handed over have been reported
once; the times of the reaped children have been added. -/
structure State.Booked (state : State) : Prop where
  tasks : ∀ place, ∀ task ∈ state.tasks place, task.Logged
  reaped : ∀ task ∈ state.reaped, task.log.Sound ∧ task.log.exitsReported = 1
  released : ∀ task ∈ state.released, task.log.Sound ∧ task.log.exitsReported = 1
  usage : state.usageChildren = total Task.usage state.reaped

theorem State.logged_tasks (children : ∀ task ∈ s.children, task.Logged)
    (reports : ∀ task ∈ s.reports, task.Logged)
    (ptraced : ∀ task ∈ s.ptraced, task.Logged) (place : Place) :
    ∀ task ∈ s.tasks place, task.Logged := by
  cases place with
  | child => exact children
  | thread => exact reports
  | traced => exact ptraced

theorem logged_append (all : ∀ task ∈ tasks, task.Logged)
    (logged : task.Logged) : ∀ o ∈ tasks ++ [task], o.Logged := by
  intro o isOther
  rcases List.mem_append.mp isOther with isOther | isOther
  · exact all o isOther
  · rw [List.mem_singleton.mp isOther]
    exact logged

theorem logged_eraseP {tasks : List Task} (all : ∀ task ∈ tasks, task.Logged) :
    ∀ task ∈ tasks.eraseP test, task.Logged :=
  fun task isTask => all task (List.mem_of_mem_eraseP isTask)

namespace State.Booked

variable (booked : s.Booked)

include booked

theorem setWaiter (tid : Nat) (change : Waiter → Waiter) : (s.setWaiter tid change).Booked :=
  { booked with }

theorem setTask (kept : ∀ task, (s.tasks place).find? test = some task → (change task).Logged) :
    (s.setTask place test change).Booked := by
  have updated : ∀ task ∈ update test change (s.tasks place), task.Logged := by
    intro task isTask
    rcases mem_update isTask with isTask | ⟨old, found, rfl⟩
    · exact booked.tasks place task isTask
    · exact kept old found
  refine ⟨?_, ?_, ?_, ?_⟩
  · cases place with
    | child => exact logged_tasks updated (booked.tasks .thread) (booked.tasks .traced)
    | thread => exact logged_tasks (booked.tasks .child) updated (booked.tasks .traced)
    | traced => exact logged_tasks (booked.tasks .child) (booked.tasks .thread) updated
  · cases place <;> exact booked.reaped
  · cases place <;> exact booked.released
  · cases place <;> exact booked.usage

theorem event {id : Nat} (ran : s.event place id change = some next)
    (kept : ∀ task : Task, task.Logged → task.status.isExit = false → (change task).Logged) :
    next.Booked := by
  obtain ⟨task, found, ran⟩ := bind_eq_some_iff.mp ran
  split at ran
  · cases ran
  next alive =>
    cases ran
    refine booked.setTask fun o isOther => ?_
    cases found.symm.trans isOther
    exact kept task (booked.tasks place task (List.mem_of_find?_eq_some found))
      (eq_false_of_ne_true alive)

theorem attach (logged : task.Logged) : (s.attach task).Booked := by
  unfold State.attach
  split
  · exact { booked with
      tasks := logged_tasks (logged_append (booked.tasks .child) logged) (booked.tasks .thread)
        (booked.tasks .traced) }
  · exact { booked with
      tasks := logged_tasks (booked.tasks .child) (logged_append (booked.tasks .thread) logged)
        (booked.tasks .traced) }

theorem releaseChild (logged : child.Logged) (isExit : child.status.isExit = true) :
    (s.releaseChild options test child).Booked := by
  unfold State.releaseChild
  split
  · exact booked
  next forGood =>
    have settled := logged.settle_exit (eq_false_of_ne_true forGood) isExit
    have children : ∀ task ∈ s.children.eraseP test, task.Logged :=
      logged_eraseP (booked.tasks .child)
    split
    · refine ⟨logged_tasks children (booked.tasks .thread) (booked.tasks .traced),
        List.forall_mem_cons.mpr ⟨settled, booked.reaped⟩, booked.released, ?_⟩
      have same : (Wait.settle options .exit child).usage = child.usage := by
        simp only [Wait.settle]
        split <;> rfl
      simp only [total_cons, same, booked.usage]
      omega
    · exact { booked with
        tasks := logged_tasks children (booked.tasks .thread) (booked.tasks .traced)
        released := List.forall_mem_cons.mpr ⟨settled, booked.released⟩ }

theorem releaseThread (logged : thread.Logged) (isExit : thread.status.isExit = true) :
    (s.releaseThread options test thread).Booked := by
  unfold State.releaseThread
  split
  · exact booked
  next forGood =>
    have settled := logged.settle_exit (eq_false_of_ne_true forGood) isExit
    exact { booked with
      tasks := logged_tasks (booked.tasks .child) (logged_eraseP (booked.tasks .thread))
        (booked.tasks .traced)
      released := List.forall_mem_cons.mpr ⟨settled, booked.released⟩ }

end State.Booked

theorem isExit_of_report (reported : report options task = some .exit) :
    task.status.isExit = true := by
  have exited : task.isExited = true := by
    unfold report at reported
    split at reported
    next exited => exact (and_eq_true _ _ ▸ exited).2
    split at reported
    · cases reported
    split at reported
    · cases reported
    split at reported
    · cases reported
    · cases reported
  simp only [Task.isExited, or_eq_true, and_eq_true, beq_iff_eq] at exited
  rcases exited with status | ⟨_, status⟩ <;> rw [status] <;> rfl

namespace State.Booked

variable (booked : s.Booked)

include booked

theorem waitProc (pid : Int) (options : Options) (empty : Bool) (host : Int) :
    (s.waitProc pid options empty host).2.2.Booked := by
  unfold State.waitProc
  simp only
  split
  · exact booked
  next child found =>
    have logged := booked.tasks .child child (List.mem_of_find?_eq_some found)
    split
    · exact booked
    next reported => exact booked.releaseChild logged (isExit_of_report reported)
    next kind notExit reported =>
      show (s.setTask .child _ _).Booked
      refine booked.setTask fun o isOther => ?_
      cases found.symm.trans isOther
      exact logged.settle reported notExit

theorem waitThread (tid : Int) (options : Options) (empty : Bool) :
    (s.waitThread tid options empty).2.2.Booked := by
  unfold State.waitThread
  simp only
  split
  · exact booked
  next thread found =>
    have logged := booked.tasks .thread thread (List.mem_of_find?_eq_some found)
    split
    · exact booked
    next reported => exact booked.releaseThread logged (isExit_of_report reported)
    next kind notExit reported =>
      show (s.setTask .thread _ _).Booked
      refine booked.setTask fun o isOther => ?_
      cases found.symm.trans isOther
      exact logged.settle reported notExit

theorem exec (ran : Wait.exec s op = some next) :
    next.Booked := by
  cases op with simp only [Wait.exec, bind_eq_bind, bind_eq_some_iff,
      ite_none_right_eq_some, ite_none_left_eq_some, Option.some.injEq] at ran
  | appear task =>
    obtain ⟨passed, rfl⟩ := ran
    exact booked.attach (Task.logged_of_isLogged passed)
  | attach place id =>
    obtain ⟨task, found, ran⟩ := ran
    have logged := booked.tasks place task (List.mem_of_find?_eq_some found)
    have ptraced := logged_append (booked.tasks .traced) logged
    cases place with
    | child =>
      cases ran
      exact { booked with
        tasks := logged_tasks (logged_eraseP (booked.tasks .child)) (booked.tasks .thread) ptraced }
    | thread =>
      cases ran
      exact { booked with
        tasks := logged_tasks (booked.tasks .child) (logged_eraseP (booked.tasks .thread)) ptraced }
    | traced => cases ran
  | detach id =>
    obtain ⟨task, found, rfl⟩ := ran
    have logged := booked.tasks .traced task (List.mem_of_find?_eq_some found)
    have without : { s with ptraced := s.ptraced.eraseP (·.id == id) }.Booked :=
      { booked with
        tasks := logged_tasks (booked.tasks .child) (booked.tasks .thread)
          (logged_eraseP (booked.tasks .traced)) }
    exact without.attach logged
  | collect id options =>
    obtain ⟨task, found, kind, reported, notExit, rfl⟩ := ran
    refine booked.setTask fun o isOther => ?_
    cases found.symm.trans isOther
    have logged := booked.tasks .traced task (List.mem_of_find?_eq_some found)
    exact logged.settle reported notExit
  | trace place id traced => exact booked.event ran fun _ logged _ => logged.setTraced traced
  | setThreads threads =>
    cases ran
    exact { booked with }
  | exit place id groupExitStatus exitStatus usage =>
    exact booked.event ran fun _ logged alive =>
      logged.exit alive groupExitStatus exitStatus usage
  | finalize place id =>
    obtain ⟨task, found, exited, rfl⟩ := ran
    refine booked.setTask fun o isOther => ?_
    cases found.symm.trans isOther
    have logged := booked.tasks place task (List.mem_of_find?_eq_some found)
    exact logged.setStatus rfl (by rw [exited]; rfl)
  | stop place id kind => exact booked.event ran fun _ logged alive => logged.stop alive kind
  | stopped place id => exact booked.event ran fun _ logged _ => logged.completeStop
  | cont place id => exact booked.event ran fun _ logged alive => logged.cont alive
  | resume place id =>
    exact booked.event ran fun _ logged alive => logged.setStatus rfl alive.symm
  | call tid pid options =>
    obtain ⟨_, rfl⟩ := ran
    exact { booked with }
  | finish tid =>
    obtain ⟨waiter, _, ran⟩ := ran
    split at ran
    · cases ran
      exact { booked with }
    · cases ran
  | scanProc tid host =>
    obtain ⟨waiter, _, _, ran⟩ := ran
    split at ran
    · cases ran
      exact booked.setWaiter _ _
    · cases ran
      exact (booked.waitProc _ _ _ _).setWaiter _ _
  | scanThread tid =>
    obtain ⟨waiter, _, _, ran⟩ := ran
    split at ran
    · cases ran
      exact (booked.waitThread _ _ _).setWaiter _ _
    · cases ran
      exact booked.setWaiter _ _
  | decide tid signal =>
    obtain ⟨waiter, _, _, rfl⟩ := ran
    exact booked.setWaiter _ _
  | wake tid =>
    obtain ⟨waiter, _, _, rfl⟩ := ran
    exact booked.setWaiter _ _

end State.Booked

/-! ## The calls -/

/-- What a call knows at each point: `empty` says that the scans of this round have seen nothing
and that the call has not slept; what has been seen can report. -/
def Waiter.Fits (waiter : Waiter) : Prop :=
  waiter.options.asks = true ∧
  match waiter.phase with
  | .scanProc => waiter.seen = false ∧ waiter.empty = !waiter.slept
  | .scanThread => waiter.empty = !(waiter.slept || waiter.seen) ∧
      (waiter.seen = true → waiter.able = true)
  | .decide => waiter.empty = !waiter.seen ∧ (waiter.seen = true → waiter.able = true)
  | .asleep => waiter.empty = false ∧ waiter.able = true
  | .returned ret => ret = ECHILD.code ↔ waiter.seen = false

/-- The host does not answer that it has no such child.  If the exit is not asked for, nothing
that matches has exited.  A call that has slept, or scans the threads while there is one with
a signal for its end, finds something that matches. -/
def orderly (state : State) : Op → Bool
  | .scanProc tid host =>
    host != ECHILD.code &&
      match state.waiter tid with
      | none => true
      | some waiter => waiter.options.wexited || !state.hasChild waiter.pid id
  | .scanThread tid =>
    match state.waiter tid with
    | none => true
    | some waiter =>
      if waiter.scansThreads then
        (waiter.options.wexited || !state.hasThread waiter.pid id) &&
          (!(waiter.slept || state.anyThread) || waiter.seen ||
            state.hasThread waiter.pid fun _ => true)
      else !waiter.slept || waiter.seen
  | _ => true

variable {empty sees : Bool} {pgid ret : Int} {waiter : Waiter}

theorem Waiter.Fits.scanProc { has : (Bool → Bool) → Bool}
    (fits : waiter.Fits) (phase : waiter.phase = .scanProc)
    (found : ret ≠ 0 → has (fun _ => true) = true)
    (able : has (fun _ => true) = true → has waiter.options.canReport = true)
    (o : ret ≠ ECHILD.code) (cleared : empty = (waiter.empty && !has fun _ => true)) :
    (waiter.scanned ret empty has .scanThread).Fits := by
  simp only [Fits, phase] at fits
  refine ⟨fits.1, ?_⟩
  simp only [scanned]
  by_cases zero : ret = 0
  · simp [zero, cleared, fits]
    exact fun seen => .inr (able seen)
  · simp [zero, o, found zero]

theorem Waiter.Fits.scanThread { has : (Bool → Bool) → Bool}
    (fits : waiter.Fits) (phase : waiter.phase = .scanThread)
    (found : ret ≠ 0 → has (fun _ => true) = true)
    (able : has (fun _ => true) = true → has waiter.options.canReport = true)
    (o : ret ≠ ECHILD.code) (cleared : empty = (waiter.empty && !(has (fun _ => true) || any)))
    (passed : (!(waiter.slept || any) || waiter.seen || has fun _ => true) = true) :
    (waiter.scanned ret empty has .decide).Fits := by
  simp only [Fits, phase] at fits
  refine ⟨fits.1, ?_⟩
  simp only [scanned]
  by_cases zero : ret = 0
  · simp only [zero, ne_eq, not_true_eq_false, if_false, cleared, fits]
    refine ⟨?_, fun seen => ?_⟩
    · revert passed
      cases waiter.slept <;> cases waiter.seen <;> cases has (fun _ => true) <;> cases any <;>
        decide
    · rcases or_eq_true _ _ ▸ seen with before | now
      · rw [fits.2.2 before, Bool.true_or]
      · rw [able now, Bool.or_true]
  · simp [zero, o, found zero]

/-- The options of `wait4` without any flag. -/
def plain : Options := ⟨true, false, false, false, false, false, false⟩

/-- The options of `waitid` with `WSTOPPED` only. -/
def stops : Options := ⟨false, true, false, false, false, false, false⟩

end McKernel.Wait
