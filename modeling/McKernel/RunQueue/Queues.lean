import McKernel.RunQueue.Model

/-!
# Run queues and what threads say about themselves

Every step on the run queues links a thread, unlinks one, or reorders a queue; `schedule` is
one of these for each way the thread that was running may be left.
-/

namespace McKernel.RunQueue

open Function State

open Sched (Status cpuSetSize)

section Update

variable {threads : Nat → Option Thread} {tid o : Nat} {new t : Thread}

theorem update_cases (isThread : update threads tid (some new) o = some t) :
    (o = tid ∧ new = t) ∨ (o ≠ tid ∧ threads o = some t) := by
  by_cases same : o = tid
  · subst same
    rw [update_self] at isThread
    exact .inl ⟨rfl, Option.some.inj isThread⟩
  · rw [update_of_ne same] at isThread
    exact .inr ⟨same, isThread⟩

theorem update_other (ne : o ≠ tid) (found : threads o = some t) :
    update threads tid (some new) o = some t := by
  rw [update_of_ne ne]
  exact found

end Update

/-- Whoever has been started is in the run queue of its CPU and in no other, and nobody else is
in one; whoever has exited is leaving. -/
structure Queued (threads : Nat → Option Thread) (queues : Nat → Queue) : Prop where
  started : ∀ tid thread, threads tid = some thread → thread.stage = .started →
    tid ∈ (queues thread.cpuId).runq
  linked : ∀ cpu tid, tid ∈ (queues cpu).runq →
    ∃ thread, threads tid = some thread ∧ thread.stage = .started ∧ thread.cpuId = cpu
  once : ∀ cpu, (queues cpu).runq.Nodup
  counted : ∀ cpu, (queues cpu).runqLen = (queues cpu).runq.length
  current : ∀ cpu tid, (queues cpu).current = some tid → tid ∈ (queues cpu).runq
  exited : ∀ cpu tid thread, tid ∈ (queues cpu).runq → threads tid = some thread →
    thread.status = .exited → (queues cpu).current = some tid ∧ (queues cpu).exiting = true
  alive : ∀ tid thread, threads tid = some thread → thread.stage = .created →
    thread.status ≠ .exited

namespace Queued

variable {threads : Nat → Option Thread} {queues : Nat → Queue} (queued : Queued threads queues)

include queued

variable {cpu tid : Nat} {new : Thread}

theorem once_update {queue : Queue} (once : queue.runq.Nodup) :
    ∀ place, (update queues cpu queue place).runq.Nodup :=
  (forall_update_iff queues fun _ queue => queue.runq.Nodup).mpr
    ⟨once, fun place _ => queued.once place⟩

theorem counted_update {queue : Queue} (counted : queue.runqLen = queue.runq.length) :
    ∀ place, (update queues cpu queue place).runqLen =
      (update queues cpu queue place).runq.length :=
  (forall_update_iff queues fun _ queue => queue.runqLen = queue.runq.length).mpr
    ⟨counted, fun place _ => queued.counted place⟩

theorem current_update {queue : Queue}
    (current : ∀ tid, queue.current = some tid → tid ∈ queue.runq) :
    ∀ place tid, (update queues cpu queue place).current = some tid →
      tid ∈ (update queues cpu queue place).runq :=
  (forall_update_iff queues fun _ queue =>
    ∀ tid, queue.current = some tid → tid ∈ queue.runq).mpr
      ⟨current, fun place _ => queued.current place⟩

theorem cpuId_eq (found : threads tid = some t)
    (there : tid ∈ (queues cpu).runq) : t.stage = .started ∧ t.cpuId = cpu := by
  obtain ⟨same, isThread, stage, cpuId⟩ := queued.linked cpu tid there
  rw [found] at isThread
  cases isThread
  exact ⟨stage, cpuId⟩

theorem not_linked
    (idle : ∀ t, threads tid = some t → t.stage ≠ .started) (cpu : Nat) :
    tid ∉ (queues cpu).runq := by
  intro there
  obtain ⟨t, found, stage, _⟩ := queued.linked cpu tid there
  exact idle t found stage

variable {old : Thread} {queue : Queue}

/-- A thread changes, and the run queue of the only CPU that may have it; the other threads stay
where they are. -/
theorem change (others : ∀ o, o ≠ tid → (o ∈ queue.runq ↔ o ∈ (queues cpu).runq))
    (leaving : ∀ o, o ≠ tid → (queues cpu).current = some o →
      (queues cpu).exiting = true → queue.current = some o ∧ queue.exiting = true)
    (elsewhere : ∀ place, place ≠ cpu → tid ∉ (queues place).runq)
    (here : tid ∈ queue.runq ↔ new.stage = .started)
    (cpuId : new.stage = .started → new.cpuId = cpu)
    (once : queue.runq.Nodup) (counted : queue.runqLen = queue.runq.length)
    (current : ∀ o, queue.current = some o → o ∈ queue.runq)
    (exited : new.stage = .started → new.status = .exited →
      queue.current = some tid ∧ queue.exiting = true)
    (alive : new.stage = .created → new.status ≠ .exited) :
    Queued (update threads tid (some new)) (update queues cpu queue) := by
  have mem {place o : Nat} (differs : o ≠ tid) :
      o ∈ (update queues cpu queue place).runq ↔ o ∈ (queues place).runq := by
    by_cases same : place = cpu
    · subst same
      rw [update_self]
      exact others o differs
    · rw [update_of_ne same]
  have self {place : Nat} (there : tid ∈ (update queues cpu queue place).runq) :
      place = cpu ∧ new.stage = .started := by
    by_cases same : place = cpu
    · subst same
      rw [update_self] at there
      exact ⟨rfl, here.mp there⟩
    · rw [update_of_ne same] at there
      exact absurd there (elsewhere place same)
  constructor
  · intro o t isThread isStarted
    rcases update_cases isThread with ⟨rfl, rfl⟩ | ⟨differs, isThread⟩
    · rw [cpuId isStarted, update_self]
      exact here.mpr isStarted
    · exact (mem differs).mpr (queued.started o t isThread isStarted)
  · intro place o there
    by_cases same : o = tid
    · subst same
      obtain ⟨rfl, isStarted⟩ := self there
      exact ⟨new, update_self .., isStarted, cpuId isStarted⟩
    · obtain ⟨t, isThread, placed⟩ := queued.linked place o ((mem same).mp there)
      exact ⟨t, update_other same isThread, placed⟩
  · exact queued.once_update once
  · exact queued.counted_update counted
  · exact queued.current_update current
  · intro place o t there isThread isExited
    rcases update_cases isThread with ⟨rfl, rfl⟩ | ⟨differs, isThread⟩
    · obtain ⟨rfl, isStarted⟩ := self there
      rw [update_self]
      exact exited isStarted isExited
    · have before := queued.exited place o t ((mem differs).mp there) isThread isExited
      by_cases same : place = cpu
      · subst same
        rw [update_self]
        exact leaving o differs before.1 before.2
      · rwa [update_of_ne same]
  · intro o t isThread isCreated
    rcases update_cases isThread with ⟨rfl, rfl⟩ | ⟨_, isThread⟩
    · exact alive isCreated
    · exact queued.alive o t isThread isCreated

theorem elsewhere (found : threads tid = some old) (place : Nat) (differs : place ≠ old.cpuId) :
    tid ∉ (queues place).runq :=
  fun there => differs (queued.cpuId_eq found there).2.symm

theorem touch (found : threads tid = some old)
    (stage : new.stage = old.stage) (cpuId : new.cpuId = old.cpuId)
    (status : new.status = .exited → old.status = .exited) :
    Queued (update threads tid (some new)) queues := by
  have home (isStarted : new.stage = .started) : tid ∈ (queues old.cpuId).runq :=
    queued.started tid old found (stage ▸ isStarted)
  have changed := @change _ _ queued old.cpuId tid new (queues old.cpuId) (fun _ _ => Iff.rfl)
    (fun _ _ isCurrent isExiting => ⟨isCurrent, isExiting⟩) (queued.elsewhere found)
    ⟨fun there => stage.trans (queued.cpuId_eq found there).1, home⟩ (fun _ => cpuId)
    (queued.once _) (queued.counted _) (queued.current _)
    (fun isStarted isExited =>
      queued.exited _ tid old (home isStarted) found (status isExited))
    fun isCreated isExited => queued.alive tid old found (stage ▸ isCreated) (status isExited)
  rwa [update_eq_self] at changed

theorem create (fresh : threads tid = none)
    (stage : new.stage = .created) (status : new.status ≠ .exited) :
    Queued (update threads tid (some new)) queues := by
  have apart : ∀ cpu, tid ∉ (queues cpu).runq :=
    queued.not_linked fun t found => nomatch fresh ▸ found
  have notStarted : new.stage ≠ .started := by
    rw [stage]
    exact Stage.noConfusion
  have changed := @change _ _ queued new.cpuId tid new (queues new.cpuId) (fun _ _ => Iff.rfl)
    (fun _ _ isCurrent isExiting => ⟨isCurrent, isExiting⟩) (fun place _ => apart place)
    (iff_of_false (apart _) notStarted) (fun _ => rfl) (queued.once _) (queued.counted _)
    (queued.current _) (fun isStarted => absurd isStarted notStarted) fun _ => status
  rwa [update_eq_self] at changed

theorem link (apart : ∀ cpu, tid ∉ (queues cpu).runq)
    (stage : new.stage = .started) (cpuId : new.cpuId = cpu) (status : new.status ≠ .exited) :
    Queued (update threads tid (some new))
      (update queues cpu ((queues cpu).push tid)) := by
  refine queued.change (fun o differs => by simp [Queue.push, differs])
    (fun _ _ isCurrent isExiting => ⟨isCurrent, isExiting⟩) (fun place _ => apart place)
    (iff_of_true (by simp [Queue.push]) stage) (fun _ => cpuId) ?_ ?_
    (fun o isCurrent => List.mem_append_left _ (queued.current cpu o isCurrent))
    (fun _ isExited => absurd isExited status) fun _ => status
  · refine List.Nodup.append (queued.once cpu) (List.nodup_singleton tid) ?_
    rw [List.disjoint_singleton]
    exact apart cpu
  · simp only [Queue.push, queued.counted cpu, List.length_append, List.length_singleton]
    rfl

theorem unlink (there : tid ∈ (queues cpu).runq)
    (alone : ∀ o, (queues cpu).current = some o → o = tid)
    (runq : queue.runq = (queues cpu).runq.filter (· != tid))
    (len : queue.runqLen = (queues cpu).runqLen - 1) (current : queue.current = none)
    (stage : new.stage = .left) :
    Queued (update threads tid (some new)) (update queues cpu queue) := by
  obtain ⟨t, found, -, rfl⟩ := queued.linked cpu tid there
  have notStarted : new.stage ≠ .started := by
    rw [stage]
    exact Stage.noConfusion
  refine queued.change (fun o differs => by simp [runq, differs])
    (fun o differs isCurrent => absurd (alone o isCurrent) differs)
    (queued.elsewhere found) (iff_of_false (by simp [runq]) notStarted)
    (fun isStarted => absurd isStarted notStarted) ?_ ?_ ?_
    (fun isStarted => absurd isStarted notStarted) fun isCreated => ?_
  · rw [runq]
    exact (queued.once _).filter _
  · have shorter : ((queues t.cpuId).runq.filter (· != tid)).length + 1 =
        (queues t.cpuId).runq.length := by
      rw [← (queued.once _).erase_eq_filter, List.length_erase_of_mem there]
      exact Nat.sub_add_cancel (List.length_pos_of_mem there)
    rw [len, runq, queued.counted _, ← shorter]
    omega
  · rw [current]
    exact nofun
  · rw [stage] at isCreated
    cases isCreated

/-- A run queue is reordered and another thread becomes current, when nobody in it has
exited. -/
theorem reorder (runq : queue.runq.Perm (queues cpu).runq)
    (len : queue.runqLen = (queues cpu).runqLen)
    (current : ∀ tid, queue.current = some tid → tid ∈ queue.runq)
    (alive : ∀ tid t, tid ∈ (queues cpu).runq → threads tid = some t →
      t.status ≠ .exited) :
    Queued threads (update queues cpu queue) := by
  have mem {place o : Nat} :
      o ∈ (update queues cpu queue place).runq ↔ o ∈ (queues place).runq := by
    by_cases same : place = cpu
    · subst same
      rw [update_self]
      exact runq.mem_iff
    · rw [update_of_ne same]
  constructor
  · intro o t isThread isStarted
    exact mem.mpr (queued.started o t isThread isStarted)
  · intro place o there
    exact queued.linked place o (mem.mp there)
  · exact queued.once_update (runq.nodup_iff.mpr (queued.once cpu))
  · refine queued.counted_update ?_
    rw [len, runq.length_eq]
    exact queued.counted cpu
  · exact queued.current_update current
  · intro place o t there isThread isExited
    have before := mem.mp there
    by_cases same : place = cpu
    · subst same
      exact absurd isExited (alive o t before isThread)
    · rw [update_of_ne same]
      exact queued.exited place o t before isThread isExited
  · exact queued.alive

theorem exit (isCurrent : (queues cpu).current = some tid) (found : threads tid = some old) :
    Queued (update threads tid (some { old with status := .exited }))
      (update queues cpu { queues cpu with exiting := true }) := by
  have there := queued.current cpu tid isCurrent
  obtain ⟨isStarted, rfl⟩ := queued.cpuId_eq found there
  refine queued.change (fun _ _ => Iff.rfl) (fun _ _ isOther _ => ⟨isOther, rfl⟩)
    (queued.elsewhere found) (iff_of_true there isStarted) (fun _ => rfl) (queued.once _)
    (queued.counted _) (queued.current _) (fun _ _ => ⟨isCurrent, rfl⟩) fun isCreated => ?_
  cases isStarted.symm.trans isCreated

end Queued

/-! ## `schedule` -/

theorem pickNext_spec {threads : Nat → Option Thread}
    (picked : pickNext threads runq next = some tid) :
    next = some tid ∨
      (tid ∈ runq ∧ ∃ t, threads tid = some t ∧ t.runnable = true) := by
  induction runq generalizing next with
  | nil => exact .inl picked
  | cons head rest ih =>
    have later (found : pickNext threads rest next = some tid) : next = some tid ∨
        (tid ∈ head :: rest ∧ ∃ t, threads tid = some t ∧ t.runnable = true) :=
      (ih found).imp_right fun ⟨inRest, runs⟩ => ⟨List.mem_cons_of_mem head inRest, runs⟩
    rw [pickNext] at picked
    split at picked
    · exact later picked
    next t found =>
      split at picked
      next first =>
        cases picked
        rw [Bool.and_eq_true] at first
        exact .inr ⟨List.mem_cons_self, t, found, by simp [Thread.runnable, first.1]⟩
      · split at picked
        next runs =>
          rcases ih picked with isNext | ⟨inRest, runnable⟩
          · cases next with
            | some chosen => exact .inl isNext
            | none =>
              cases isNext
              exact .inr ⟨List.mem_cons_self, t, found, runs⟩
          · exact .inr ⟨List.mem_cons_of_mem head inRest, runnable⟩
        · exact later picked

namespace Queued

variable {s : State} (queued : Queued s.threads s.queues)

include queued

theorem rotate (runq : queue.runq.Perm (s.queues cpu).runq)
    (len : queue.runqLen = (s.queues cpu).runqLen)
    (alive : ∀ tid t, tid ∈ (s.queues cpu).runq → s.threads tid = some t →
      t.status ≠ .exited) :
    Queued (s.rotate cpu queue).threads (s.rotate cpu queue).queues := by
  refine queued.reorder runq len ?_ alive
  intro tid isNext
  split at isNext
  · cases isNext
  · exact (pickNext_spec isNext).elim (by rintro ⟨⟩) And.left

theorem schedule (cpu : Nat) :
    Queued (s.schedule cpu).threads (s.schedule cpu).queues := by
  have leaving (tid : Nat) (t : Thread) (there : tid ∈ (s.queues cpu).runq)
      (found : s.threads tid = some t) (isExited : t.status = .exited) :
      (s.queues cpu).current = some tid :=
    (queued.exited cpu tid t there found isExited).1
  unfold State.schedule
  simp only
  split
  next idle =>
    refine queued.rotate (List.Perm.refl _) rfl fun tid t there found isExited => ?_
    cases idle.symm.trans (leaving tid t there found isExited)
  next prev isCurrent =>
    have there := queued.current cpu prev isCurrent
    split
    next missing =>
      obtain ⟨t, found, _⟩ := queued.linked cpu prev there
      cases missing.symm.trans found
    next t found =>
      split
      · refine queued.unlink there ?_ rfl rfl rfl rfl
        exact fun o isOther => Option.some.inj (isOther.symm.trans isCurrent)
      next notExited =>
        refine queued.rotate ?_ ?_ fun tid o isThere isThread isExited => ?_
        · change ((s.queues cpu).runq.filter (· != prev) ++ [prev]).Perm _
          rw [← (queued.once cpu).erase_eq_filter]
          exact (List.perm_append_singleton _ _).trans (List.perm_cons_erase there).symm
        · change (s.queues cpu).runqLen - 1 + 1 = _
          omega
        · have same : tid = prev :=
            Option.some.inj ((leaving tid o isThere isThread isExited).symm.trans isCurrent)
          rw [same, found] at isThread
          cases isThread
          exact notExited (by simp [Thread.exited, isExited])

end Queued

theorem schedule_runnable {s : State} {cpu tid : Nat}
    (isCurrent : ((s.schedule cpu).queues cpu).current = some tid) :
    ∃ t, (s.schedule cpu).threads tid = some t ∧ t.runnable = true := by
  have rotated {queue : Queue}
      (isNext : ((s.rotate cpu queue).queues cpu).current = some tid) :
      ∃ t, s.threads tid = some t ∧ t.runnable = true := by
    simp only [rotate, setQueue, update_self] at isNext
    split at isNext
    · cases isNext
    · exact (pickNext_spec isNext).elim (by rintro ⟨⟩) And.right
  unfold schedule at isCurrent ⊢
  simp only at isCurrent ⊢
  split at isCurrent
  · exact rotated isCurrent
  · split at isCurrent
    · exact rotated isCurrent
    · split at isCurrent
      · simp only [setThread, setQueue, update_self] at isCurrent
        cases isCurrent
      next notExited =>
        rw [if_neg notExited]
        exact rotated isCurrent

end McKernel.RunQueue
