import McKernel.RunQueue.Queues

/-!
# The run queues are in order

What a run queue holds and what a thread says about itself agree in every state, as long as
nobody changes the affinity of a thread that has not been started yet or that `do_migrate` has
just selected a CPU for.  Interrupts are disabled whenever `do_migrate` is entered; it does not
matter then that it keeps the state of two locks in one variable.
-/

namespace McKernel.RunQueue

open Option Function State

/-! ## Migration requests -/

/-- The thread exists and has been started. -/
def Known (threads : Nat → Option Thread) (tid : Nat) : Prop :=
  ∃ thread, threads tid = some thread ∧ thread.stage ≠ .created

/-- What `do_migrate` on the CPU relies on. -/
structure Migration.Sound (migration : Migration) (state : State) (cpu : Nat) : Prop where
  idle : (state.queues cpu).current = none
  irq : (state.requests cpu).irq = false
  entry : migration.entry = false
  irqstate : migration.irqstate = false
  selected : ∀ tid target, migration.selected = some (tid, target) →
    ∃ thread, state.threads tid = some thread ∧ thread.stage ≠ .created ∧
      thread.cpuId = cpu ∧ target ∈ thread.affinity ∧ target ≠ cpu

/-- Pending requests name threads that have been started. -/
structure Requested (state : State) : Prop where
  calls : ∀ call ∈ state.calls, Known state.threads call.tid
  migq : ∀ cpu, ∀ tid ∈ (state.requests cpu).migq, Known state.threads tid
  migrating : ∀ cpu migration, (state.requests cpu).migrating = some migration →
    migration.Sound state cpu

namespace Requested

variable {s : State} (requested : Requested s)

include requested

variable {new : Thread} {tid : Nat}

theorem setThread (stays : Known s.threads tid → new.stage ≠ .created)
    (kept : ∀ cpu migration target, (s.requests cpu).migrating = some migration →
      migration.selected = some (tid, target) → new.cpuId = cpu ∧ target ∈ new.affinity) :
    Requested (s.setThread tid new) := by
  have known {o : Nat} (before : Known s.threads o) :
      Known (update s.threads tid (some new)) o := by
    by_cases same : o = tid
    · subst same
      exact ⟨new, update_self .., stays before⟩
    · obtain ⟨t, found, stage⟩ := before
      exact ⟨t, update_other same found, stage⟩
  constructor
  · exact fun call isCall => known (requested.calls call isCall)
  · exact fun cpu o isThere => known (requested.migq cpu o isThere)
  · intro cpu migration isMigrating
    have sound := requested.migrating cpu migration isMigrating
    refine { sound with selected := fun o target isSelected => ?_ }
    obtain ⟨t, found, stage, here, allowed, away⟩ := sound.selected o target isSelected
    by_cases same : o = tid
    · subst same
      obtain ⟨here, allowed⟩ := kept cpu migration target isMigrating isSelected
      exact ⟨new, update_self .., stays ⟨t, found, stage⟩, here, allowed, away⟩
    · exact ⟨t, update_other same found, stage, here, allowed, away⟩

theorem touch (found : s.threads tid = some old)
    (stage : old.stage ≠ .created → new.stage ≠ .created) (cpuId : new.cpuId = old.cpuId)
    (affinity : new.affinity = old.affinity) : Requested (s.setThread tid new) := by
  refine requested.setThread ?_ ?_
  · rintro ⟨t, isThread, isKnown⟩
    rw [found] at isThread
    cases isThread
    exact stage isKnown
  · intro cpu migration target isMigrating isSelected
    obtain ⟨t, isThread, _, here, allowed, _⟩ :=
      (requested.migrating cpu migration isMigrating).selected tid target isSelected
    rw [found] at isThread
    cases isThread
    exact ⟨cpuId.trans here, affinity ▸ allowed⟩

theorem setUnknown (unknown : ¬ Known s.threads tid) :
    Requested (s.setThread tid new) := by
  refine requested.setThread (fun known => absurd known unknown) ?_
  intro cpu migration target isMigrating isSelected
  obtain ⟨t, isThread, isKnown, _⟩ :=
    (requested.migrating cpu migration isMigrating).selected tid target isSelected
  exact absurd ⟨t, isThread, isKnown⟩ unknown

theorem setQueue (idle : (s.queues cpu).current = none → (s.requests cpu).migrating.isSome →
      queue.current = none) :
    Requested (s.setQueue cpu queue) := by
  refine { requested with migrating := fun place migration isMigrating => ?_ }
  have sound := requested.migrating place migration isMigrating
  refine { sound with idle := ?_ }
  by_cases same : place = cpu
  · subst same
    have isMigrating : (s.requests place).migrating = some migration := isMigrating
    simp only [State.setQueue, update_self]
    exact idle sound.idle (by rw [isMigrating]; rfl)
  · simp only [State.setQueue, update_of_ne same]
    exact sound.idle

theorem setRequests (migq : ∀ tid ∈ v.migq, Known s.threads tid)
    (migrating : ∀ migration, v.migrating = some migration →
      migration.Sound (s.setRequests cpu v) cpu) :
    Requested (s.setRequests cpu v) := by
  refine { requested with
    migq := (forall_update_iff s.requests fun _ requests =>
      ∀ tid ∈ requests.migq, Known s.threads tid).mpr ⟨migq, fun place _ => requested.migq place⟩
    migrating := (forall_update_iff s.requests fun place requests => ∀ migration,
      requests.migrating = some migration → migration.Sound (s.setRequests cpu v) place).mpr
        ⟨migrating, fun place differs migration isMigrating => ?_⟩ }
  have sound := requested.migrating place migration isMigrating
  refine { sound with irq := ?_ }
  simp only [State.setRequests, update_of_ne differs]
  exact sound.irq

theorem setCalls {calls : List Call} (known : ∀ call ∈ calls, Known s.threads call.tid) :
    Requested { s with calls := calls } :=
  { requested with
    calls := known
    migrating := fun cpu migration isMigrating =>
      { requested.migrating cpu migration isMigrating with } }

end Requested

/-! ## Steps -/

structure Sound (state : State) : Prop where
  queued : Queued state.threads state.queues
  requested : Requested state

theorem sound_boot : Sound boot where
  queued := ⟨nofun, nofun, fun _ => List.nodup_nil, fun _ => rfl, nofun, nofun, nofun⟩
  requested := ⟨nofun, nofun, nofun⟩

/-- Nobody changes the affinity of a thread that has not been started, or that `do_migrate` is
about to move. -/
def State.regular (state : State) : Op → Bool
  | .setMask tid _ => (state.threads tid).all fun thread =>
    thread.stage != .created &&
      (state.requests thread.cpuId).migrating.all fun migration =>
        migration.selected.all fun pair => pair.1 != tid
  | _ => true

variable {target : Nat} {t : Thread}

variable {cpu tid : Nat} {s : State}

theorem destination_spec (found : destination cpu t = some target) :
    t.cpuId = cpu ∧ target ∈ t.affinity ∧ target ≠ cpu := by
  unfold destination at found
  split at found
  · cases found
  next here =>
    split at found
    · cases found
    next outside =>
      have chosen : target ∈ t.affinity := by simpa using List.find?_some found
      refine ⟨not_not.mp here, chosen, ?_⟩
      rintro rfl
      exact outside chosen

theorem mem_of_moveThread {moved : State} (here : t.cpuId = cpu)
    (isMoved : s.moveThread cpu tid target t = some moved) :
    tid ∈ (s.queues cpu).runq := by
  by_contra missing
  rw [← here] at missing
  rw [moveThread, if_neg missing] at isMoved
  exact nomatch isMoved

theorem moveThread_eq (here : t.cpuId = cpu) (there : tid ∈ (s.queues cpu).runq) :
    s.moveThread cpu tid target t =
      let queues := update s.queues cpu ((s.queues cpu).unlink tid).decrease
      some (setThread
        { s with queues := update queues target ((queues target).push tid) } tid
          { t with cpuId := target }) := by
  subst here
  simp only [moveThread, if_pos there, setQueue, setThread,
    update_self, update_idem]

namespace Sound

variable {s : State} (sound : Sound s)

include sound

variable {cpu tid : Nat}

theorem start (found : s.threads tid = some t)
    (stage : t.stage = .created) : Sound (s.runqAddThread tid cpu t) := by
  have isThread {o : Thread} (isOther : s.threads tid = some o) : t = o :=
    Option.some.inj (found.symm.trans isOther)
  constructor
  · refine sound.queued.link (sound.queued.not_linked fun o isOther => ?_) rfl rfl
      (sound.queued.alive tid t found stage)
    rw [← isThread isOther, stage]
    exact Stage.noConfusion
  · have pushed : Requested (s.setQueue cpu ((s.queues cpu).push tid)) :=
      sound.requested.setQueue fun idle _ => idle
    refine pushed.setUnknown ?_
    rintro ⟨o, isOther, isKnown⟩
    rw [← isThread isOther] at isKnown
    exact isKnown stage

theorem schedule (free : (s.requests cpu).migrating.isNone = true) :
    Sound (s.schedule cpu) := by
  have unlocked {queue : Queue} : (s.queues cpu).current = none →
      (s.requests cpu).migrating.isSome → queue.current = none := by
    intro _ locked
    rw [isNone_iff_eq_none] at free
    rw [free] at locked
    exact nomatch locked
  refine ⟨sound.queued.schedule cpu, ?_⟩
  unfold State.schedule
  simp only
  split
  · exact sound.requested.setQueue unlocked
  · split
    · exact sound.requested.setQueue unlocked
    next found =>
      split
      · exact (sound.requested.setQueue unlocked).touch found (fun _ => Stage.noConfusion) rfl rfl
      · exact sound.requested.setQueue unlocked

theorem setMask {mask : List Nat} (found : s.threads tid = some t)
    (regular : s.regular (.setMask tid mask) = true) :
    Sound { s.setThread tid { t with affinity := mask } with
      calls := ⟨tid, none⟩ :: s.calls } := by
  simp only [State.regular, found, all_some, Bool.and_eq_true, bne_iff_ne] at regular
  have touched : Requested (s.setThread tid { t with affinity := mask }) := by
    refine sound.requested.setThread (fun _ => regular.1) ?_
    intro cpu migration target isMigrating isSelected
    obtain ⟨o, isOther, _, here, _⟩ :=
      (sound.requested.migrating cpu migration isMigrating).selected tid target isSelected
    cases found.symm.trans isOther
    have free := regular.2
    rw [here, isMigrating, all_some, isSelected, all_some] at free
    simp at free
  refine ⟨sound.queued.touch found rfl rfl id, touched.setCalls fun call isCall => ?_⟩
  rcases List.mem_cons.mp isCall with rfl | isCall
  · exact ⟨_, update_self .., regular.1⟩
  · exact touched.calls call isCall

theorem move {moved : State} (isMigrating : (s.requests cpu).migrating = some migration)
    (isSelected : migration.selected = some (tid, target)) (found : s.threads tid = some t)
    (isMoved : s.moveThread cpu tid target t = some moved) :
    Sound (moved.setRequests cpu
      { s.requests cpu with
        irq := (s.requests cpu).irq
        migrating := some { migration with
          irqstate := (s.requests cpu).irq, selected := none } }) := by
  have running := sound.requested.migrating cpu migration isMigrating
  obtain ⟨same, isThread, isKnown, here, _⟩ := running.selected tid target isSelected
  cases found.symm.trans isThread
  have there := mem_of_moveThread here isMoved
  rw [moveThread_eq here there] at isMoved
  cases isMoved
  have isStarted := (sound.queued.cpuId_eq found there).1
  have idle (o : Nat) : (s.queues cpu).current = some o → o = tid :=
    fun isCurrent => by cases running.idle.symm.trans isCurrent
  constructor
  · -- unlinked from this CPU, then linked to the target
    have unlinked : Queued
        (update s.threads tid (some { t with stage := .left }))
        (update s.queues cpu ((s.queues cpu).unlink tid).decrease) :=
      sound.queued.unlink there idle rfl rfl running.idle rfl
    have apart := unlinked.not_linked (fun o isOther => by
      rw [update_self] at isOther
      cases isOther
      exact Stage.noConfusion)
    have alive : t.status ≠ .exited := fun isExited =>
      by cases running.idle.symm.trans (sound.queued.exited cpu tid t there found isExited).1
    have linked : Queued
        (update (update s.threads tid (some { t with stage := .left }))
          tid (some { t with cpuId := target })) _ := unlinked.link apart isStarted rfl alive
    rw [update_idem] at linked
    exact linked
  · -- the request first, so that nothing is selected when the thread moves
    have answered : Requested (s.setRequests cpu
        { s.requests cpu with
          migrating := some { migration with
            irqstate := (s.requests cpu).irq, selected := none } }) := by
      refine sound.requested.setRequests (sound.requested.migq cpu) ?_
      intro later isLater
      cases isLater
      refine ⟨running.idle, ?_, running.entry, running.irq, by intros; contradiction⟩
      simp only [setRequests, update_self]
      exact running.irq
    have unlinked := @Requested.setQueue _ answered cpu ((s.queues cpu).unlink tid).decrease
      fun idle _ => idle
    have linked := @Requested.setQueue _ unlinked target ((update s.queues cpu
      ((s.queues cpu).unlink tid).decrease target).push tid) fun idle _ => idle
    refine linked.setThread (fun _ => isKnown) ?_
    intro place o destination isOther isChosen
    by_cases same : place = cpu
    · subst same
      simp only [setQueue, setRequests, update_self] at isOther
      cases isOther
      cases isChosen
    · simp only [setQueue, setRequests, update_of_ne same] at isOther
      obtain ⟨also, isAlso, _, elsewhere, _⟩ :=
        (sound.requested.migrating place o isOther).selected tid destination isChosen
      cases found.symm.trans isAlso
      exact absurd (elsewhere.symm.trans here) same

theorem exec (regular : s.regular op = true)
    (taken : exec s op = some next) : Sound next := by
  cases op with simp only [RunQueue.exec, bind_eq_bind, bind_eq_some_iff,
      ite_none_right_eq_some, Option.some.injEq] at taken
  | create tid affinity spawning =>
    simp only [isNone_iff_eq_none] at taken
    obtain ⟨fresh, rfl⟩ := taken
    refine ⟨sound.queued.create fresh rfl Sched.Status.noConfusion,
      sound.requested.setUnknown ?_⟩
    rintro ⟨t, found, _⟩
    cases fresh.symm.trans found
  | start tid cpu =>
    obtain ⟨t, found, stage, rfl⟩ := taken
    exact sound.start found stage
  | schedule cpu =>
    obtain ⟨free, rfl⟩ := taken
    exact sound.schedule free
  | become tid status pending spawning =>
    obtain ⟨t, found, alive, rfl⟩ := taken
    exact ⟨sound.queued.touch found rfl rfl fun isExited => absurd isExited alive.2,
      sound.requested.touch found id rfl rfl⟩
  | exit cpu =>
    obtain ⟨tid, isCurrent, t, found, rfl⟩ := taken
    have touched : Requested (s.setThread tid { t with status := .exited }) :=
      sound.requested.touch found id rfl rfl
    refine ⟨sound.queued.exit isCurrent found, touched.setQueue fun idle _ => ?_⟩
    cases idle.symm.trans isCurrent
  | setMask tid mask =>
    obtain ⟨t, found, _, rfl⟩ := taken
    exact sound.setMask found regular
  | readCpu tid =>
    obtain ⟨t, found, taken⟩ := taken
    have others (call : Call) (isCall : call ∈ s.calls.erase ⟨tid, none⟩) :
        Known s.threads call.tid := sound.requested.calls call (List.mem_of_mem_erase isCall)
    obtain ⟨isCalled, taken⟩ := taken
    split at taken
    · cases taken
      exact ⟨sound.queued, sound.requested.setCalls others⟩
    · cases taken
      refine ⟨sound.queued, sound.requested.setCalls fun call isCall => ?_⟩
      rcases List.mem_cons.mp isCall with rfl | isCall
      · exact sound.requested.calls ⟨tid, none⟩ isCalled
      · exact others call isCall
  | request tid cpu =>
    obtain ⟨asked, rfl⟩ := taken
    have added : Requested (s.setRequests cpu
        { s.requests cpu with
          migq := (s.requests cpu).migq ++ [tid], needMigrate := true }) := by
      refine sound.requested.setRequests ?_ ?_
      · intro o there
        rcases List.mem_append.mp there with there | there
        · exact sound.requested.migq cpu o there
        · rw [List.mem_singleton.mp there]
          exact sound.requested.calls _ asked.1
      · intro migration isMigrating
        rw [isNone_iff_eq_none] at asked
        cases asked.2.symm.trans isMigrating
    exact ⟨sound.queued, added.setCalls fun call isCall =>
      sound.requested.calls call (List.mem_of_mem_erase isCall)⟩
  | enter cpu =>
    obtain ⟨ready, rfl⟩ := taken
    refine ⟨sound.queued, sound.requested.setRequests (sound.requested.migq cpu) ?_⟩
    intro migration isMigrating
    cases isMigrating
    refine ⟨ready.1, ?_, rfl, rfl, by intros; contradiction⟩
    simp only [setRequests, update_self]
  | select cpu =>
    obtain ⟨migration, isMigrating, tid, isFirst, t, found, _, rfl⟩ := taken
    have running := sound.requested.migrating cpu migration isMigrating
    have known := sound.requested.migq cpu tid (List.mem_of_mem_head? isFirst)
    refine ⟨sound.queued, sound.requested.setRequests ?_ ?_⟩
    · exact fun o there => sound.requested.migq cpu o (List.mem_of_mem_tail there)
    · intro later isLater
      cases isLater
      refine { running with
        irq := ?_
        selected := fun o target isSelected => ?_ }
      · simp only [setRequests, update_self]
        exact running.irq
      · obtain ⟨chosen, isChosen, same⟩ := map_eq_some_iff.mp isSelected
        obtain ⟨rfl, rfl⟩ := Prod.mk.inj same
        obtain ⟨known, isKnown, stage⟩ := known
        cases found.symm.trans isKnown
        obtain ⟨here, allowed, away⟩ := destination_spec isChosen
        exact ⟨t, found, stage, here, allowed, away⟩
  | move cpu =>
    obtain ⟨migration, isMigrating, ⟨tid, target⟩, isSelected, t, found, moved, isMoved,
      taken⟩ := taken
    cases taken
    exact sound.move isMigrating isSelected found isMoved
  | leave cpu =>
    obtain ⟨migration, isMigrating, _, rfl⟩ := taken
    exact ⟨sound.queued, sound.requested.setRequests (sound.requested.migq cpu)
      (by intros; contradiction)⟩
  | resume cpu =>
    obtain ⟨idle, rfl⟩ := taken
    refine ⟨sound.queued, sound.requested.setRequests (sound.requested.migq cpu) ?_⟩
    intro migration isMigrating
    rw [isNone_iff_eq_none] at idle
    cases idle.2.symm.trans isMigrating

end Sound

/-! ## Runs -/

theorem sound_of_reachable
    (reached : (machine.restrict fun s op => s.regular op = true).Reachable s) :
    Sound s := by
  refine reached.invariant Sound ?_ ?_
  · rintro s rfl
    exact sound_boot
  · intro s op next _ sound taken
    exact sound.exec taken.1 taken.2

def Thread.live (thread : Thread) : Bool := thread.stage == .started && !thread.exited

/-- The run queues as the scheduler relies on them. -/
structure InOrder (state : State) : Prop where
  one : ∀ tid thread, state.threads tid = some thread → thread.live = true → ∀ cpu,
    (state.queues cpu).runq.count tid = if cpu = thread.cpuId then 1 else 0
  runqLen : ∀ cpu, (state.queues cpu).runqLen = (state.queues cpu).runq.length
  /-- The current thread is in the run queue, and has not exited unless it is about to call
  `schedule` for that reason. -/
  current : ∀ cpu tid, (state.queues cpu).current = some tid →
    tid ∈ (state.queues cpu).runq ∧ ∃ thread, state.threads tid = some thread ∧
      ((state.queues cpu).exiting = false → thread.exited = false)
  /-- `schedule` selects a thread that can run. -/
  selects : ∀ cpu next tid, exec state (.schedule cpu) = some next →
    (next.queues cpu).current = some tid →
      ∃ thread, next.threads tid = some thread ∧ thread.runnable = true
  /-- A thread that `do_migrate` moves gets to a CPU that its affinity allows. -/
  moves : ∀ cpu next migration tid target, exec state (.move cpu) = some next →
    (state.requests cpu).migrating = some migration → migration.selected = some (tid, target) →
      ∃ thread, next.threads tid = some thread ∧ thread.cpuId = target ∧
        target ∈ thread.affinity
  /-- The interrupts are as they were when `do_migrate` was entered. -/
  leaves : ∀ cpu next migration, exec state (.leave cpu) = some next →
    (state.requests cpu).migrating = some migration → (next.requests cpu).irq = migration.entry

namespace Sound

variable {s : State} (sound : Sound s)

include sound

theorem count_runq (found : s.threads tid = some t) (live : t.live = true)
    (cpu : Nat) : (s.queues cpu).runq.count tid = if cpu = t.cpuId then 1 else 0 := by
  rw [Thread.live, Bool.and_eq_true, beq_iff_eq] at live
  have there := sound.queued.started tid t found live.1
  split
  next here =>
    rw [here]
    exact List.count_eq_one_of_mem (sound.queued.once t.cpuId) there
  next elsewhere =>
    refine List.count_eq_zero.mpr fun also => ?_
    exact elsewhere (sound.queued.cpuId_eq found also).2.symm

theorem moved (taken : RunQueue.exec s (.move cpu) = some next)
    (isMigrating : (s.requests cpu).migrating = some migration)
    (isSelected : migration.selected = some (tid, target)) :
    ∃ t, next.threads tid = some t ∧ t.cpuId = target ∧
      target ∈ t.affinity := by
  have running := sound.requested.migrating cpu migration isMigrating
  obtain ⟨t, found, _, here, allowed, _⟩ := running.selected tid target isSelected
  simp only [RunQueue.exec, bind_eq_bind, bind_eq_some_iff, isMigrating,
    Option.some.injEq, exists_eq_left', isSelected, found] at taken
  obtain ⟨moved, isMoved, rfl⟩ := taken
  have there := mem_of_moveThread here isMoved
  rw [moveThread_eq here there] at isMoved
  cases isMoved
  exact ⟨_, update_self .., rfl, allowed⟩

theorem inOrder : InOrder s where
  one _ _ found live cpu := sound.count_runq found live cpu
  runqLen := sound.queued.counted
  current cpu tid isCurrent := by
    have there := sound.queued.current cpu tid isCurrent
    obtain ⟨t, found, _⟩ := sound.queued.linked cpu tid there
    refine ⟨there, t, found, fun staying => beq_eq_false_iff_ne.mpr fun isExited => ?_⟩
    have leaving := (sound.queued.exited cpu tid t there found isExited).2
    exact nomatch staying.symm.trans leaving
  selects cpu next tid taken isCurrent := by
    simp only [RunQueue.exec] at taken
    split at taken
    · cases taken
      exact schedule_runnable isCurrent
    · exact nomatch taken
  moves _ _ _ _ _ taken isMigrating isSelected := sound.moved taken isMigrating isSelected
  leaves cpu next migration taken isMigrating := by
    have running := sound.requested.migrating cpu migration isMigrating
    simp only [RunQueue.exec, bind_eq_bind, bind_eq_some_iff, isMigrating,
      Option.some.injEq, exists_eq_left'] at taken
    split at taken
    · cases taken
      simp only [setRequests, update_self]
      rw [running.irqstate, running.entry]
    · exact nomatch taken

end Sound

/-- In every run in which the affinity of a thread is left alone before the thread is started
and while `do_migrate` moves it, the run queues are in order. -/
theorem run_queues_in_order {state : State}
    (reached : (machine.restrict fun state op => state.regular op = true).Reachable state) :
    InOrder state :=
  (sound_of_reachable reached).inOrder

/-- A thread is sent from CPU 3 to CPU 4, and a helper exits. -/
def sentToCpu4 : List Op :=
  [.create 10 [2, 3, 4] false, .start 10 2, .schedule 2, .create 11 [2, 3, 4] false, .start 11 3,
    .schedule 3, .create 12 [2] true, .start 12 2, .schedule 2, .exit 2, .schedule 2,
    .setMask 11 [4], .readCpu 11, .request 11 3, .schedule 3, .enter 3, .select 3, .move 3,
    .leave 3, .resume 3, .schedule 4]

theorem run_queues_in_order_sent : ∃ state, InOrder state ∧
    (state.queues 4).current = some 11 ∧ (state.queues 3).runqLen = 0 ∧
      (state.queues 2).runq = [10] := by
  obtain ⟨state, reached, sent⟩ : ∃ state,
      (machine.restrict fun state op => regular state op = true).Reachable state ∧
        (state.queues 4).current = some 11 ∧ (state.queues 3).runqLen = 0 ∧
        (state.queues 2).runq = [10] :=
    Machine.exists_restrict_run (fun _ _ => id) rfl (fun _ _ _ => id) sentToCpu4 (by decide +kernel)
  exact ⟨state, run_queues_in_order reached, sent⟩

/-- The affinity of a thread on CPU 3 changes to CPU 5 when `do_migrate` has selected CPU 4. -/
def overtaken : List Op :=
  [.create 11 [3] false, .start 11 3, .schedule 3, .setMask 11 [4], .readCpu 11, .request 11 3,
    .schedule 3, .enter 3, .select 3, .setMask 11 [5], .readCpu 11, .move 3, .leave 3, .resume 3,
    .request 11 3, .schedule 3, .enter 3, .select 3, .leave 3, .resume 3]

/-- The affinity of a thread changes between `chain_thread` and `runq_add_thread`. -/
def early : List Op :=
  [.create 11 [3] false, .setMask 11 [4], .readCpu 11, .request 11 0, .schedule 0, .enter 0,
    .select 0, .start 11 3, .move 0, .leave 0, .resume 0]

/-- A thread stays on a CPU that its affinity does not allow though every request has been
answered; and `runq_len` is wrong on two CPUs. -/
theorem run_queues_out_of_order :
    (∃ state thread, machine.Reachable state ∧ state.threads 11 = some thread ∧
      thread.live = true ∧ thread.cpuId = 4 ∧ thread.affinity = [5] ∧ state.calls = [] ∧
      (state.requests 3).migq = [] ∧ (state.requests 4).migq = []) ∧
    (∃ state, machine.Reachable state ∧ (state.queues 0).runqLen = -1 ∧
      (state.queues 3).runqLen = 1 ∧ (state.queues 3).runq = []) :=
  ⟨Machine.exists_run_some rfl (fun _ _ _ => id) overtaken (by decide +kernel),
    Machine.exists_run rfl (fun _ _ _ => id) early (by decide +kernel)⟩

end McKernel.RunQueue
