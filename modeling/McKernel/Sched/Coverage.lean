import McKernel.Sched.Model

/-!
# Coverage of remote TLB flushes

A thread occupies the CPU in whose run queue it is, or for which it is being created.  The
invariant is that the `cpu_set` of an address space has every CPU that its threads occupy.
Only the steps that clear a CPU can break it.
-/

namespace McKernel.Sched

open State List Option Bool

variable {asp cpu target tid : Nat} {next : State} {t : Thread}

def Thread.occupies (thread : Thread) (cpu : Nat) : Bool :=
  (thread.stage == .queued && thread.cpuId == cpu) || thread.stage.target == some cpu

namespace State

variable {s : State}

/-! ## What the parts of a step do -/

@[simp] theorem cpus_setMask (asp cpu : Nat) (v : Bool) :
    (s.setMask asp cpu v).cpus = s.cpus := rfl

@[simp] theorem threads_setMask (asp cpu : Nat) (v : Bool) :
    (s.setMask asp cpu v).threads = s.threads := rfl

@[simp] theorem cpus_setThread (tid : Nat) (t : Option Thread) :
    (s.setThread tid t).cpus = s.cpus := rfl

@[simp] theorem covers_setThread (tid : Nat) (t : Option Thread) (asp cpu : Nat) :
    (s.setThread tid t).covers asp cpu = s.covers asp cpu := rfl

@[simp] theorem threads_setCpu (cpu : Nat) (v : Cpu) :
    (s.setCpu cpu v).threads = s.threads := rfl

@[simp] theorem covers_setCpu (cpu : Nat) (v : Cpu) (asp o : Nat) :
    (s.setCpu cpu v).covers asp o = s.covers asp o := rfl

@[simp] theorem cpus_setCpu (cpu : Nat) (v : Cpu) (o : Nat) :
    (s.setCpu cpu v).cpus o = if o = cpu then v else s.cpus o := by
  simp [setCpu, Function.update_apply]

@[simp] theorem threads_setThread (tid : Nat) (t : Option Thread) (o : Nat) :
    (s.setThread tid t).threads o =
      if o = tid then t else s.threads o := by
  simp [setThread, Function.update_apply]

@[simp] theorem covers_setMask_false (asp cpu o target : Nat) :
    (s.setMask asp cpu false).covers o target =
      (s.covers o target && !(o == asp && target == cpu)) := by
  by_cases same : o = asp
  · subst same
    cases known : s.masks o with
    | none => simp [covers, setMask, known]
    | some mask =>
      by_cases there : target = cpu
      · simp [covers, setMask, known, there]
      · simp [covers, setMask, known, there]
  · simp [covers, setMask, same]

theorem covers_setMask_true (known : (s.masks asp).isSome) (cpu o target : Nat) :
    (s.setMask asp cpu true).covers o target =
      (s.covers o target || (o == asp && target == cpu)) := by
  obtain ⟨mask, isMask⟩ := isSome_iff_exists.mp known
  by_cases same : o = asp
  · subst same
    by_cases there : target = cpu
    · simp [covers, setMask, isMask, there]
    · simp [covers, setMask, isMask, there]
  · simp [covers, setMask, same]

@[simp] theorem isSome_masks_setMask (asp cpu : Nat) (v : Bool) (o : Nat) :
    ((s.setMask asp cpu v).masks o).isSome = (s.masks o).isSome := by
  by_cases same : o = asp
  · simp [setMask, same]
  · simp [setMask, same]

theorem isSome_masks_of_covers (covered : s.covers asp cpu = true) :
    (s.masks asp).isSome := by
  cases known : s.masks asp with
  | none => simp [covers, known] at covered
  | some mask => rfl

theorem covers_clear_set (known : (s.masks asp).isSome) (ne : target ≠ cpu)
    (o place : Nat) :
    ((s.setMask asp cpu false).setMask asp target true).covers o place =
      ((s.setMask asp target true).setMask asp cpu false).covers o place := by
  have stillKnown : ((s.setMask asp cpu false).masks asp).isSome := by
    rw [isSome_masks_setMask]
    exact known
  have apart : (target == cpu) = false := beq_eq_false_iff_ne.mpr ne
  rw [covers_setMask_true stillKnown, covers_setMask_false, covers_setMask_false,
    covers_setMask_true known]
  by_cases there : place = target
  · subst there
    simp [apart]
  · have apart : (place == target) = false := beq_eq_false_iff_ne.mpr there
    simp [apart]

@[simp] theorem covers_newMask_self (asp cpu : Nat) :
    (s.newMask asp).covers asp cpu = false := by
  simp [covers, newMask]

theorem covers_newMask_of_ne (ne : o ≠ asp) (cpu : Nat) :
    (s.newMask asp).covers o cpu = s.covers o cpu := by
  simp [covers, newMask, ne]

theorem mem_of_pickNext {runq : List Nat} {next : Option Nat}
    (picked : s.pickNext runq next = some tid) : tid ∈ runq ∨ next = some tid := by
  induction runq generalizing next with
  | nil => exact .inr picked
  | cons head rest ih =>
    simp only [pickNext] at picked
    split at picked
    · rcases ih picked with inRest | found
      · exact .inl (mem_cons_of_mem head inRest)
      · exact .inr found
    next t _ =>
      split at picked
      · cases picked
        exact .inl mem_cons_self
      · split at picked
        · rcases ih picked with inRest | found
          · exact .inl (mem_cons_of_mem head inRest)
          · cases next with
            | none =>
              cases found
              exact .inl mem_cons_self
            | some first => exact .inr found
        · rcases ih picked with inRest | found
          · exact .inl (mem_cons_of_mem head inRest)
          · exact .inr found

theorem destination_spec (found : destination cpu t = some target) :
    target ≠ cpu ∧ target < cpuSetSize := by
  simp only [destination] at found
  split at found
  · cases found
  next here =>
    split at found
    · cases found
    next outside =>
      have chosen := find?_some found
      have inRange := mem_of_find?_eq_some found
      simp only [decide_eq_true_eq] at chosen
      refine ⟨?_, mem_range.mp inRange⟩
      rintro rfl
      exact outside chosen

end State

/-! ## The invariant -/

/-- Every CPU that a thread occupies is in the `cpu_set` of its address space. -/
structure Covering (state : State) : Prop where
  covered : ∀ tid thread cpu, state.threads tid = some thread → thread.occupies cpu = true →
    state.covers thread.asp cpu = true
  listed : ∀ tid thread cpu, state.threads tid = some thread → thread.occupies cpu = true →
    tid ∈ (state.cpus cpu).runq ∨ tid ∈ (state.cpus cpu).incoming
  queued : ∀ cpu tid, tid ∈ (state.cpus cpu).runq →
    ∃ thread, state.threads tid = some thread ∧ thread.stage = .queued ∧ thread.cpuId = cpu
  current : ∀ cpu tid, (state.cpus cpu).current = some tid → tid ∈ (state.cpus cpu).runq
  bounded : ∀ asp cpu, state.covers asp cpu = true → cpu < cpuSetSize

theorem covering_boot : Covering boot where
  covered _ _ _ found := by cases found
  listed _ _ _ found := by cases found
  queued _ _ isQueued := by cases isQueued
  current _ _ isCurrent := by cases isCurrent
  bounded _ _ covered := by cases covered

namespace Covering

variable {s : State} (covering : Covering s)

include covering

theorem occupies_of_mem_runq (isQueued : tid ∈ (s.cpus cpu).runq) :
    ∃ t, s.threads tid = some t ∧ t.occupies cpu = true ∧
      s.covers t.asp cpu = true := by
  obtain ⟨t, found, stage, here⟩ := covering.queued cpu tid isQueued
  have occupies : t.occupies cpu = true := by simp [Thread.occupies, stage, here]
  exact ⟨t, found, occupies, covering.covered tid t cpu found occupies⟩

/-- A step that changes one thread keeps the invariant if the other threads stay where they are
and are still covered. -/
theorem update {v : Option Thread}
    (threads : ∀ o, next.threads o = if o = tid then v else s.threads o)
    (covers : ∀ asp cpu, s.covers asp cpu = true → next.covers asp cpu = true)
    (runq : ∀ cpu o, o ≠ tid →
      (o ∈ (next.cpus cpu).runq ↔ o ∈ (s.cpus cpu).runq))
    (incoming : ∀ cpu o, o ≠ tid → o ∈ (s.cpus cpu).incoming →
      o ∈ (next.cpus cpu).incoming)
    (occupied : ∀ new cpu, v = some new → new.occupies cpu = true →
      next.covers new.asp cpu = true ∧
        (tid ∈ (next.cpus cpu).runq ∨ tid ∈ (next.cpus cpu).incoming))
    (queued : ∀ cpu, tid ∈ (next.cpus cpu).runq →
      ∃ new, v = some new ∧ new.stage = .queued ∧ new.cpuId = cpu)
    (current : ∀ cpu o, (next.cpus cpu).current = some o → o ∈ (next.cpus cpu).runq)
    (bounded : ∀ asp cpu, next.covers asp cpu = true → cpu < cpuSetSize) : Covering next := by
  refine ⟨?_, ?_, ?_, current, bounded⟩
  · intro o t cpu found isThere
    rw [threads] at found
    split at found
    · exact (occupied t cpu found isThere).1
    · exact covers _ _ (covering.covered o t cpu found isThere)
  · intro o t cpu found isThere
    rw [threads] at found
    split at found
    next same => exact same ▸ (occupied t cpu found isThere).2
    next same =>
      exact (covering.listed o t cpu found isThere).imp (runq cpu o same).mpr
        (incoming cpu o same)
  · intro cpu o isQueued
    rw [threads]
    split
    next same => exact queued cpu (same ▸ isQueued)
    next same => exact covering.queued cpu o ((runq cpu o same).mp isQueued)

theorem setThread (found : s.threads tid = some old)
    (asp : new.asp = old.asp) (stage : new.stage = old.stage) (cpuId : new.cpuId = old.cpuId) :
    Covering (s.setThread tid (some new)) := by
  have occupies (cpu : Nat) : new.occupies cpu = old.occupies cpu := by
    simp [Thread.occupies, stage, cpuId]
  refine covering.update (threads_setThread tid _) (fun _ _ => id) (fun _ _ _ => Iff.rfl)
    (fun _ _ _ => id) ?_ ?_ covering.current covering.bounded
  · rintro _ cpu ⟨⟩ isThere
    rw [occupies] at isThere
    rw [covers_setThread, asp]
    exact ⟨covering.covered tid old cpu found isThere, covering.listed tid old cpu found isThere⟩
  · intro cpu isQueued
    obtain ⟨t, isThread, isThere⟩ := covering.queued cpu tid isQueued
    cases found.symm.trans isThread
    exact ⟨new, rfl, stage ▸ isThere.1, cpuId ▸ isThere.2⟩

theorem setCpu (runq : ∀ tid, tid ∈ v.runq ↔ tid ∈ (s.cpus cpu).runq)
    (current : ∀ tid, v.current = some tid → tid ∈ v.runq)
    (incoming : ∀ tid, s.threads tid ≠ none → tid ∈ (s.cpus cpu).incoming →
      tid ∈ v.incoming) : Covering (s.setCpu cpu v) := by
  have runqs (o tid : Nat) : tid ∈ ((s.setCpu cpu v).cpus o).runq ↔
      tid ∈ (s.cpus o).runq := by
    by_cases same : o = cpu
    · simp [same, runq]
    · simp [same]
  refine { covering with listed := ?_, queued := ?_, current := ?_ }
  · intro tid t o found isThere
    refine (covering.listed tid t o found isThere).imp (runqs o tid).mpr ?_
    by_cases same : o = cpu
    · simpa [same] using incoming tid fun gone => nomatch gone.symm.trans found
    · simp [same]
  · intro o tid isQueued
    rw [runqs] at isQueued
    exact covering.queued o tid isQueued
  · intro o tid isCurrent
    by_cases same : o = cpu
    · simp only [cpus_setCpu, same, if_true] at isCurrent ⊢
      exact current tid isCurrent
    · simp only [cpus_setCpu, same, if_false] at isCurrent ⊢
      exact covering.current o tid isCurrent

theorem create (fresh : s.threads tid = none) (known : (s.masks t.asp).isSome)
    (target : t.stage.target = some cpu) (small : cpu < cpuSetSize) : Covering
    (s.create tid cpu t) := by
  have notQueued : t.stage ≠ .queued := by
    rintro isQueued
    simp [isQueued, Stage.target] at target
  have occupies (o : Nat) (isThere : t.occupies o = true) : o = cpu := by
    simp only [Thread.occupies, or_eq_true, and_eq_true, beq_iff_eq, target,
      Option.some.injEq] at isThere
    rcases isThere with ⟨isQueued, _⟩ | isTarget
    · exact absurd isQueued notQueued
    · exact isTarget.symm
  have covers (asp o : Nat) : (s.create tid cpu t).covers asp o =
      (s.covers asp o || (asp == t.asp && o == cpu)) := by
    exact covers_setMask_true known cpu asp o
  have runqs (o : Nat) : ((s.create tid cpu t).cpus o).runq =
      (s.cpus o).runq := by
    by_cases same : o = cpu
    · simp [State.create, State.pushIncoming, same]
    · simp [State.create, State.pushIncoming, same]
  have threads (o : Nat) : (s.create tid cpu t).threads o =
      if o = tid then some t else s.threads o := by
    simp [State.create, State.pushIncoming]
  refine covering.update threads (fun _ _ isCovered => by simp [covers, isCovered])
    (fun target o _ => by rw [runqs]) ?_ ?_ ?_ ?_ ?_
  · intro target o _ listed
    by_cases here : target = cpu
    · simpa [State.create, State.pushIncoming, here] using .inr (here ▸ listed)
    · simpa [State.create, State.pushIncoming, here] using listed
  · rintro _ target ⟨⟩ isThere
    obtain rfl := occupies target isThere
    exact ⟨by simp [covers], .inr (by simp [create, pushIncoming])⟩
  · intro target isQueued
    rw [runqs] at isQueued
    obtain ⟨found, isThread, _⟩ := covering.queued target tid isQueued
    cases fresh.symm.trans isThread
  · intro target o isCurrent
    rw [runqs]
    refine covering.current target o ?_
    by_cases here : target = cpu
    · simpa [State.create, State.pushIncoming, here] using isCurrent
    · simpa [State.create, State.pushIncoming, here] using isCurrent
  · intro asp o isCovered
    rw [covers] at isCovered
    simp only [or_eq_true, and_eq_true, beq_iff_eq] at isCovered
    rcases isCovered with isCovered | ⟨_, rfl⟩
    · exact covering.bounded asp o isCovered
    · exact small

theorem newMask (fresh : (s.masks asp).isNone) : Covering (s.newMask asp) := by
  have unknown (cpu : Nat) : s.covers asp cpu ≠ true := by
    intro isCovered
    have known := isSome_masks_of_covers isCovered
    rw [isNone_iff_eq_none.mp fresh] at known
    cases known
  refine { covering with covered := ?_, bounded := ?_ }
  · intro tid t cpu found isThere
    have isCovered := covering.covered tid t cpu found isThere
    have ne : t.asp ≠ asp := by
      intro same
      exact unknown cpu (same ▸ isCovered)
    rw [covers_newMask_of_ne ne]
    exact isCovered
  · intro o cpu isCovered
    by_cases same : o = asp
    · simp [same] at isCovered
    · rw [covers_newMask_of_ne same] at isCovered
      exact covering.bounded o cpu isCovered

theorem congr (threads : next.threads = s.threads) (cpus : next.cpus = s.cpus)
    (covers : ∀ asp cpu, next.covers asp cpu = s.covers asp cpu) : Covering next where
  covered := by simpa only [threads, covers] using covering.covered
  listed := by simpa only [threads, cpus] using covering.listed
  queued := by simpa only [threads, cpus] using covering.queued
  current := by simpa only [cpus] using covering.current
  bounded := by simpa only [covers] using covering.bounded

theorem setMask (known : (s.masks asp).isSome) (small : cpu < cpuSetSize) : Covering
    (s.setMask asp cpu true) := by
  refine { covering with covered := ?_, bounded := ?_ }
  · intro tid t o found isThere
    rw [covers_setMask_true known]
    simp [covering.covered tid t o found isThere]
  · intro o target isCovered
    rw [covers_setMask_true known] at isCovered
    simp only [or_eq_true, and_eq_true, beq_iff_eq] at isCovered
    rcases isCovered with isCovered | ⟨_, rfl⟩
    · exact covering.bounded o target isCovered
    · exact small

theorem clearMask
    (vacant : ∀ tid t, s.threads tid = some t → t.occupies cpu = true →
      t.asp ≠ asp) : Covering (s.setMask asp cpu false) := by
  refine { covering with covered := ?_, bounded := ?_ }
  · intro tid t o found isThere
    rw [covers_setMask_false, covering.covered tid t o found isThere]
    by_cases same : o = cpu
    · simp [vacant tid t found (same ▸ isThere)]
    · simp [same]
  · intro o target isCovered
    rw [covers_setMask_false, and_eq_true] at isCovered
    exact covering.bounded o target isCovered.1

theorem remove (found : s.threads tid = some t) (notQueued : t.stage ≠ .queued) :
    Covering (s.setThread tid none) := by
  refine covering.update (threads_setThread tid _) (fun _ _ => id) (fun _ _ _ => Iff.rfl)
    (fun _ _ _ => id) nofun ?_ covering.current covering.bounded
  intro cpu isQueued
  obtain ⟨old, isThread, isThere⟩ := covering.queued cpu tid isQueued
  cases found.symm.trans isThread
  exact absurd isThere.1 notQueued

theorem dropIncoming (gone : s.threads tid = none) (cpu : Nat) :
    Covering (s.dropIncoming cpu tid) := by
  refine covering.setCpu (fun _ => Iff.rfl) (covering.current cpu) fun o there listed => ?_
  have ne : o ≠ tid := fun same => there (same ▸ gone)
  simpa [ne] using listed

theorem relocate (tid : Nat) (new : Thread) (settled : new.stage.target = none)
    (isCovered : new.stage = .queued → s.covers new.asp new.cpuId = true)
    (threads : ∀ o, next.threads o = if o = tid then some new else s.threads o)
    (covers : ∀ asp cpu, next.covers asp cpu = s.covers asp cpu)
    (runq : ∀ cpu o, o ∈ (next.cpus cpu).runq ↔
      if o = tid then new.stage = .queued ∧ new.cpuId = cpu
      else o ∈ (s.cpus cpu).runq)
    (incoming : ∀ cpu o, o ≠ tid → o ∈ (s.cpus cpu).incoming →
      o ∈ (next.cpus cpu).incoming)
    (current : ∀ cpu o, (next.cpus cpu).current = some o → o ∈ (next.cpus cpu).runq) :
    Covering next := by
  have occupies {cpu : Nat} (isThere : new.occupies cpu = true) :
      new.stage = .queued ∧ new.cpuId = cpu := by
    simpa [Thread.occupies, settled] using isThere
  refine covering.update threads (fun _ _ => by simp only [covers, imp_self])
    (fun cpu o same => by rw [runq, if_neg same]) incoming ?_ ?_ current
    (by simpa only [covers] using covering.bounded)
  · rintro _ cpu ⟨⟩ isThere
    obtain ⟨isQueued, rfl⟩ := occupies isThere
    exact ⟨(covers _ _).trans (isCovered isQueued), .inl ((runq _ _).mpr (by simp [isQueued]))⟩
  · intro cpu isQueued
    rw [runq, if_pos rfl] at isQueued
    exact ⟨new, rfl, isQueued⟩

theorem not_mem_runq (found : s.threads tid = some t)
    (elsewhere : ¬(t.stage = .queued ∧ t.cpuId = cpu)) :
    tid ∉ (s.cpus cpu).runq := by
  intro isQueued
  obtain ⟨same, isThread, isThere⟩ := covering.queued cpu tid isQueued
  rw [found] at isThread
  cases isThread
  exact elsewhere isThere

theorem runqAddThread (found : s.threads tid = some t)
    (target : t.stage.target = some cpu) :
    Covering (s.runqAddThread tid t cpu cpu) := by
  have occupies : t.occupies cpu = true := by simp [Thread.occupies, target]
  have notQueued : t.stage ≠ .queued := by
    intro isQueued
    simp [isQueued, Stage.target] at target
  have absent (o : Nat) : tid ∉ (s.cpus o).runq :=
    covering.not_mem_runq found fun there => notQueued there.1
  refine covering.relocate tid { t with cpuId := cpu, stage := .queued } rfl
    (fun _ => covering.covered tid t cpu found occupies) ?_ (fun _ _ => rfl) ?_ ?_ ?_
  · intro o
    simp [State.runqAddThread, State.pushRunq, State.dropIncoming]
  · intro o tid'
    by_cases here : o = cpu
    · subst here
      by_cases same : tid' = tid
      · simp [State.runqAddThread, State.pushRunq, State.dropIncoming, same]
      · simp [State.runqAddThread, State.pushRunq, State.dropIncoming, same]
    · by_cases same : tid' = tid
      · simp [State.runqAddThread, State.pushRunq, State.dropIncoming, same, here, absent,
          Ne.symm here]
      · simp [State.runqAddThread, State.pushRunq, State.dropIncoming, same, here]
  · intro o tid' ne listed
    by_cases here : o = cpu
    · subst here
      simp [State.runqAddThread, State.pushRunq, State.dropIncoming, ne, listed]
    · simpa [State.runqAddThread, State.pushRunq, State.dropIncoming, here] using listed
  · intro o tid' isCurrent
    by_cases here : o = cpu
    · subst here
      simp only [State.runqAddThread, State.pushRunq, State.dropIncoming, State.cpus_setCpu,
        State.cpus_setThread, if_true] at isCurrent ⊢
      exact List.mem_append_left _ (covering.current o tid' isCurrent)
    · simp only [State.runqAddThread, State.pushRunq, State.dropIncoming, State.cpus_setCpu,
        State.cpus_setThread, here, if_false] at isCurrent ⊢
      exact covering.current o tid' isCurrent

theorem leave (t : Thread) (v : Cpu) (here : tid ∈ (s.cpus cpu).runq)
    (runq : v.runq = (s.cpus cpu).runq.filter (· != tid))
    (current : ∀ o, v.current = some o → o ∈ v.runq)
    (incoming : v.incoming = (s.cpus cpu).incoming) :
    Covering ((s.setThread tid (some { t with stage := .left })).setCpu cpu v) := by
  obtain ⟨old, found, _, there⟩ := covering.queued cpu tid here
  refine covering.relocate tid { t with stage := .left } rfl (fun isQueued => by cases isQueued)
    (fun o => by simp) (fun _ _ => rfl) ?_ ?_ ?_
  · intro o tid'
    by_cases same : tid' = tid
    · subst same
      by_cases isCpu : o = cpu
      · simp [isCpu, runq]
      · have absent : tid' ∉ (s.cpus o).runq :=
          covering.not_mem_runq found fun same => isCpu (same.2.symm.trans there)
        simp [isCpu, absent]
    · by_cases isCpu : o = cpu
      · simp [isCpu, runq, same]
      · simp [isCpu, same]
  · intro o tid' ne listed
    by_cases isCpu : o = cpu
    · subst isCpu
      simpa [incoming] using listed
    · simpa [isCpu] using listed
  · intro o tid' isCurrent
    by_cases isCpu : o = cpu
    · simp only [cpus_setCpu, isCpu, if_true] at isCurrent ⊢
      exact current tid' isCurrent
    · simp only [cpus_setCpu, cpus_setThread, isCpu, if_false] at isCurrent ⊢
      exact covering.current o tid' isCurrent

theorem requeue_setCurrent {next : Option Nat}
    (inQueue : ∀ tid, next = some tid → tid ∈ ((s.requeue cpu).cpus cpu).runq) :
    Covering ((s.requeue cpu).setCurrent cpu next) := by
  cases isCurrent : (s.cpus cpu).current with
  | none =>
    have same : s.requeue cpu = s := by simp [requeue, isCurrent]
    rw [same] at inQueue ⊢
    exact covering.setCpu (fun _ => Iff.rfl) inQueue fun _ _ => id
  | some prev =>
    have isQueued := covering.current cpu prev isCurrent
    obtain ⟨t, found, _⟩ := covering.queued cpu prev isQueued
    by_cases exited : t.status = .exited
    · have same : s.requeue cpu =
          (s.dropRunq cpu prev).setThread prev (some { t with stage := .left }) := by
        simp [requeue, isCurrent, found, exited]
      rw [same] at inQueue ⊢
      have left := covering.leave t
        { s.cpus cpu with
          runq := (s.cpus cpu).runq.filter (· != prev), current := next }
        isQueued rfl (by simpa [dropRunq] using inQueue) rfl
      simpa [State.setCurrent, State.dropRunq, State.setCpu, State.setThread] using left
    · have same : s.requeue cpu = (s.dropRunq cpu prev).pushRunq cpu prev := by
        simp [requeue, isCurrent, found, exited]
      rw [same] at inQueue ⊢
      have members (tid : Nat) :
          tid ∈ (s.cpus cpu).runq.filter (· != prev) ++ [prev] ↔
            tid ∈ (s.cpus cpu).runq := by
        by_cases same : tid = prev
        · simp [same, isQueued]
        · simp [same]
      have ordered : Covering (s.setCpu cpu { s.cpus cpu with
          runq := (s.cpus cpu).runq.filter (· != prev) ++ [prev], current := next }) :=
        covering.setCpu members (by simpa [dropRunq, pushRunq] using inQueue)
          fun _ _ => id
      simpa [State.setCurrent, State.dropRunq, State.pushRunq, State.setCpu] using ordered

theorem schedule (cpu : Nat) : Covering (s.schedule cpu) := by
  simp only [State.schedule]
  split
  · exact covering.requeue_setCurrent nofun
  · refine covering.requeue_setCurrent fun tid picked => ?_
    rcases mem_of_pickNext picked with isQueued | impossible
    · exact isQueued
    · cases impossible

theorem move (found : s.threads tid = some t) (isQueued : t.stage = .queued)
    (idle : (s.cpus cpu).current = none) (here : t.cpuId = cpu)
    (elsewhere : target ≠ cpu) (isCovered : s.covers t.asp target = true) (holds : Nat) :
    Covering (((s.dropRunq cpu tid).setThread tid
      (some { t with cpuId := target, holds := holds })).pushRunq target tid) := by
  refine covering.relocate tid { t with cpuId := target, holds := holds }
    (by simp [isQueued, Stage.target]) (fun _ => isCovered)
    (fun o => by simp [pushRunq, dropRunq]) (fun _ _ => rfl) ?_ ?_ ?_
  · intro o tid'
    have absent (ne : o ≠ cpu) : tid ∉ (s.cpus o).runq :=
      covering.not_mem_runq found fun same => ne (same.2.symm.trans here)
    by_cases isTarget : o = target
    · subst isTarget
      by_cases same : tid' = tid
      · simp [pushRunq, dropRunq, elsewhere, same, isQueued]
      · simp [pushRunq, dropRunq, elsewhere, same]
    · by_cases isCpu : o = cpu
      · subst isCpu
        by_cases same : tid' = tid
        · simp [pushRunq, dropRunq, isTarget, same, Ne.symm isTarget]
        · simp [pushRunq, dropRunq, isTarget, same]
      · by_cases same : tid' = tid
        · simp [pushRunq, dropRunq, isTarget, isCpu, same, Ne.symm isTarget,
            absent isCpu]
        · simp [pushRunq, dropRunq, isTarget, isCpu, same]
  · intro o tid' ne listed
    by_cases isTarget : o = target
    · subst isTarget
      simpa [pushRunq, dropRunq, elsewhere] using listed
    · by_cases isCpu : o = cpu
      · subst isCpu
        simpa [pushRunq, dropRunq, isTarget] using listed
      · simpa [pushRunq, dropRunq, isTarget, isCpu] using listed
  · intro o tid' isCurrent
    by_cases isTarget : o = target
    · subst isTarget
      simp only [pushRunq, dropRunq, cpus_setCpu, cpus_setThread,
        elsewhere, if_true, if_false] at isCurrent ⊢
      exact mem_append_left _ (covering.current o tid' isCurrent)
    · by_cases isCpu : o = cpu
      · subst isCpu
        simp [pushRunq, dropRunq, isTarget, idle] at isCurrent
      · simp only [pushRunq, dropRunq, cpus_setCpu, cpus_setThread,
          isTarget, isCpu, if_false] at isCurrent ⊢
        exact covering.current o tid' isCurrent

end Covering

/-! ## Steps that clear a CPU -/

namespace State

def aloneOn (state : State) (tid asp cpu : Nat) : Bool :=
  ((state.cpus cpu).runq ++ (state.cpus cpu).incoming).all fun other =>
    other == tid || !(state.threads other).any (·.asp == asp)

def cleared (state : State) : Op → Option (Nat × Nat × Nat)
  | .abort tid => (state.threads tid).map fun thread => (tid, thread.asp, thread.cpuId)
  | .release tid => (state.threads tid).map fun thread => (tid, thread.asp, thread.cpuId)
  | .migrate cpu => do
    let tid ← (state.cpus cpu).migq.head?
    let thread ← state.threads tid
    let _ ← destination cpu thread
    if state.hasSibling cpu tid thread.asp then none else some (tid, thread.asp, cpu)
  | _ => none

def startsThere (state : State) : Op → Bool
  | .scheduleProcess tid cpu => (state.threads tid).all (·.stage == .prepared cpu)
  | _ => true

/-- No step takes a CPU out of a set that another thread of the address space occupies. -/
def undisturbed (state : State) (op : Op) : Bool :=
  (state.cleared op).all (fun (tid, asp, cpu) => state.aloneOn tid asp cpu) &&
    state.startsThere op

end State

namespace Covering

variable {s : State} (covering : Covering s)

include covering

theorem vacant (alone : s.aloneOn tid asp cpu = true)
    (found : s.threads o = some t) (ne : o ≠ tid)
    (occupies : t.occupies cpu = true) : t.asp ≠ asp := by
  have listed := covering.listed o t cpu found occupies
  have apart := all_eq_true.mp alone o (mem_append.mpr listed)
  simpa [ne, found] using apart

theorem destroyThread (found : s.threads tid = some t) (notQueued : t.stage ≠ .queued)
    (alone : s.aloneOn tid t.asp t.cpuId = true) :
    Covering (s.destroyThread tid t) := by
  refine (covering.remove found notQueued).clearMask ?_
  intro o old isThread isThere
  by_cases same : o = tid
  · simp [same] at isThread
  · exact covering.vacant alone (by simpa [same] using isThread) same isThere

theorem moveThread (found : s.threads tid = some t) (here : tid ∈ (s.cpus cpu).runq)
    (idle : (s.cpus cpu).current = none) (elsewhere : target ≠ cpu)
    (small : target < cpuSetSize) (alone : s.hasSibling cpu tid t.asp = false →
      s.aloneOn tid t.asp cpu = true) :
    Covering (s.moveThread cpu tid t target) := by
  obtain ⟨same, isThread, isQueued, isCpu⟩ := covering.queued cpu tid here
  rw [found] at isThread
  cases isThread
  have occupies : t.occupies cpu = true := by simp [Thread.occupies, isQueued, isCpu]
  have known := isSome_masks_of_covers (covering.covered tid t cpu found occupies)
  have added := covering.setMask known small
  have covers : (s.setMask t.asp target true).covers t.asp target = true := by
    simp [covers_setMask_true known]
  have moved := added.move found isQueued idle isCpu elsewhere covers (t.holds - 1)
  cases sibling : s.hasSibling cpu tid t.asp with
  | true =>
    simp only [State.moveThread, sibling, if_true]
    exact moved
  | false =>
    simp only [State.moveThread, sibling, Bool.false_eq_true, if_false]
    have cleared : Covering ((((s.setMask t.asp target true).dropRunq cpu tid).setThread
        tid (some { t with cpuId := target, holds := t.holds - 1 })).pushRunq target
          tid |>.setMask t.asp cpu false) := by
      refine moved.clearMask ?_
      intro o old isThread isThere
      by_cases same : o = tid
      · simp only [pushRunq, threads_setCpu, threads_setThread, same,
          if_true] at isThread
        cases isThread
        simp [Thread.occupies, isQueued, Stage.target, elsewhere] at isThere
      · simp only [pushRunq, threads_setCpu, threads_setThread, same,
          if_false] at isThread
        exact covering.vacant (alone sibling) isThread same isThere
    exact cleared.congr rfl rfl fun asp o => covers_clear_set known elsewhere asp o

theorem doMigrate (idle : (s.cpus cpu).current = none)
    (undisturbed : s.undisturbed (.migrate cpu) = true)
    (ran : s.doMigrate cpu = some next) : Covering next := by
  obtain ⟨tid, isHead, ran⟩ := bind_eq_some_iff.mp ran
  obtain ⟨t, found, ran⟩ := bind_eq_some_iff.mp ran
  have popped : Covering (s.popMigq cpu) :=
    covering.setCpu (fun _ => Iff.rfl) (covering.current cpu) fun _ _ => id
  cases chosen : destination cpu t with
  | none =>
    simp only [chosen] at ran
    cases ran
    exact popped.setThread found rfl rfl rfl
  | some target =>
    obtain ⟨elsewhere, small⟩ := destination_spec chosen
    simp only [chosen] at ran
    split at ran
    next here =>
      cases ran
      refine popped.moveThread found (by simpa [popMigq] using here)
        (by simpa [popMigq] using idle) elsewhere small ?_
      intro noSibling
      have noSibling : s.hasSibling cpu tid t.asp = false := by
        simpa [hasSibling, popMigq] using noSibling
      have alone : s.aloneOn tid t.asp cpu = true := by
        simpa [State.undisturbed, State.cleared, State.startsThere, isHead, found, chosen,
          noSibling] using undisturbed
      simpa [aloneOn, popMigq] using alone
    · cases ran

theorem exec (undisturbed : s.undisturbed op = true)
    (ran : Sched.exec s op = some next) : Covering next := by
  cases op with simp only [Sched.exec, bind_eq_bind, bind_eq_some_iff,
      ite_none_right_eq_some, ite_none_left_eq_some, Option.some.injEq] at ran
  | prepare cpu tid asp affinity =>
    obtain ⟨possible, rfl⟩ := ran
    exact (covering.newMask possible.2.1).create possible.1 (by simp [State.newMask]) rfl
      possible.2.2
  | scheduleProcess tid cpu =>
    obtain ⟨t, found, ran⟩ := ran
    have there : t.stage = .prepared cpu := by
      simpa [State.undisturbed, State.cleared, State.startsThere, found] using undisturbed
    simp only [there] at ran
    split at ran
    · cases ran
      exact covering.runqAddThread found (by simp [there, Stage.target])
    · cases ran
  | clone cpu tid fork target spawning =>
    obtain ⟨old, isCurrent, parent, found, ran⟩ := ran
    obtain ⟨same, isThread, _, isCovered⟩ :=
      covering.occupies_of_mem_runq (covering.current cpu old isCurrent)
    rw [found] at isThread
    cases isThread
    obtain ⟨possible, ran⟩ := ran
    cases fork with
    | none =>
      cases ran
      exact covering.create possible.1 (isSome_masks_of_covers isCovered) rfl possible.2
    | some asp =>
      simp only at ran
      split at ran
      next fresh =>
        cases ran
        exact (covering.newMask fresh).create possible.1 (by simp [State.newMask]) rfl
          possible.2
      · cases ran
  | abort tid =>
    obtain ⟨t, found, ran⟩ := ran
    have alone : s.aloneOn tid t.asp t.cpuId = true := by
      simpa [State.undisturbed, State.cleared, State.startsThere, found] using undisturbed
    cases stage : t.stage with
    | cloned target =>
      simp only [stage] at ran
      cases ran
      have destroyed := covering.destroyThread found (by simp [stage]) alone
      exact destroyed.dropIncoming (by simp [State.destroyThread]) target
    | prepared target => simp [stage] at ran
    | queued => simp [stage] at ran
    | left => simp [stage] at ran
  | enqueue tid =>
    obtain ⟨t, found, ran⟩ := ran
    cases stage : t.stage with
    | cloned target =>
      simp only [stage] at ran
      cases ran
      exact covering.runqAddThread found (by simp [stage, Stage.target])
    | prepared target => simp [stage] at ran
    | queued => simp [stage] at ran
    | left => simp [stage] at ran
  | schedule cpu =>
    cases ran
    exact covering.schedule cpu
  | become tid status pending spawning =>
    obtain ⟨t, found, _, rfl⟩ := ran
    exact covering.setThread found rfl rfl rfl
  | exit cpu =>
    obtain ⟨tid, _, t, found, rfl⟩ := ran
    exact covering.setThread found rfl rfl rfl
  | release tid =>
    obtain ⟨t, found, ran⟩ := ran
    have alone : s.aloneOn tid t.asp t.cpuId = true := by
      simpa [State.undisturbed, State.cleared, State.startsThere, found] using undisturbed
    obtain ⟨possible, rfl⟩ := ran
    exact covering.destroyThread found (by simp [possible.1]) alone
  | setAffinity tid mask =>
    obtain ⟨t, found, _, rfl⟩ := ran
    simp only [setAffinity]
    split
    · exact covering.setThread found rfl rfl rfl
    · have changed : Covering (s.setThread tid
          (some { t with affinity := mask, holds := t.holds + 1 })) :=
        covering.setThread found rfl rfl rfl
      exact changed.setCpu (fun _ => Iff.rfl) (changed.current t.cpuId) fun _ _ => id
  | migrate cpu =>
    obtain ⟨possible, ran⟩ := ran
    exact covering.doMigrate possible.1 undisturbed ran
  | migrated cpu =>
    obtain ⟨_, rfl⟩ := ran
    exact covering.setCpu (fun _ => Iff.rfl) (covering.current cpu) fun _ _ => id

end Covering

/-! ## Runs -/

/-- The scheduler when no step takes a CPU away from another thread. -/
def undisturbedMachine : Machine State Op :=
  machine.restrict fun state op => state.undisturbed op = true

theorem covering_of_reachable (reached : undisturbedMachine.Reachable s) :
    Covering s := by
  refine reached.invariant Covering ?_ ?_
  · intro s start
    rw [show s = boot from start]
    exact covering_boot
  · intro s op next _ covering taken
    exact covering.exec taken.1 taken.2

/-- Wherever a thread is current or in the run queue, the CPU is in the `cpu_set` of the
address space, and a remote flush from any CPU either starts there or interrupts it. -/
theorem remote_flush_reaches {state : State} (reached : undisturbedMachine.Reachable state)
    {cpu tid : Nat} (there : (state.cpus cpu).current = some tid ∨ tid ∈ (state.cpus cpu).runq) :
    ∃ thread, state.threads tid = some thread ∧ state.covers thread.asp cpu = true ∧
      ∀ self, cpu = self ∨ cpu ∈ state.remoteFlush thread.asp self := by
  have covering := covering_of_reachable reached
  have isQueued : tid ∈ (state.cpus cpu).runq :=
    there.elim (covering.current cpu tid) id
  obtain ⟨thread, found, _, isCovered⟩ := covering.occupies_of_mem_runq isQueued
  refine ⟨thread, found, isCovered, fun self => ?_⟩
  by_cases here : cpu = self
  · exact .inl here
  · refine .inr (mem_filter.mpr ⟨?_, ?_⟩)
    · exact mem_range.mpr (covering.bounded thread.asp cpu isCovered)
    · simp [isCovered, here]

/-- A thread is moved from CPU 3 to CPU 4. -/
def movedThread : List Op :=
  [.prepare 2 10 1 [2, 3, 4], .scheduleProcess 10 2, .schedule 2, .clone 2 11 none 3 false,
    .enqueue 11, .schedule 3, .setAffinity 11 [4], .schedule 3, .migrate 3, .migrated 3,
    .schedule 4]

theorem remote_flush_reaches_moved : ∃ state, undisturbedMachine.Reachable state ∧
    (state.cpus 4).current = some 11 ∧ ∃ thread, state.threads 11 = some thread ∧
      state.covers thread.asp 4 = true ∧
        ∀ self, 4 = self ∨ 4 ∈ state.remoteFlush thread.asp self := by
  obtain ⟨state, reached, isCurrent⟩ : ∃ state, undisturbedMachine.Reachable state ∧
      (state.cpus 4).current = some 11 :=
    Machine.exists_restrict_run (fun _ _ => id) rfl (fun _ _ _ => id) movedThread
      (by decide +kernel)
  exact ⟨state, reached, isCurrent, remote_flush_reaches reached (.inl isCurrent)⟩

def helperExits : List Op :=
  [.prepare 2 10 1 [2], .scheduleProcess 10 2, .schedule 2, .clone 2 11 none 2 false,
    .enqueue 11, .schedule 2, .exit 2, .schedule 2, .release 11, .schedule 2]

/-- `destroy_thread` takes the CPU out of the set though the process is running on it, and
a flush from another CPU does not interrupt it. -/
theorem remote_flush_misses : ∃ state thread, machine.Reachable state ∧
    (state.cpus 2).current = some 10 ∧ state.threads 10 = some thread ∧
      state.covers thread.asp 2 = false ∧ 2 ∉ state.remoteFlush thread.asp 0 := by
  obtain ⟨state, thread, reached, found, current, uncovered⟩ : ∃ state thread,
      machine.Reachable state ∧ state.threads 10 = some thread ∧
        (state.cpus 2).current = some 10 ∧ state.covers thread.asp 2 = false :=
    Machine.exists_run_some rfl (fun _ _ _ => id) helperExits (by decide +kernel)
  refine ⟨state, thread, reached, current, found, uncovered, ?_⟩
  simp [remoteFlush, uncovered]

end McKernel.Sched
