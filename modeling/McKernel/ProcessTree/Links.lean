import McKernel.ProcessTree.Model

/-!
# The links of the process tree

The invariant of the tree: each process is in the list of its parent and, while it is traced,
in that of its real parent, and what it names is no zombie.  The rules say what a step has to
keep that changes one process, gives it back or only changes its status.
-/

namespace McKernel.ProcessTree

open List Function State

variable {held : Bool} {v : Option Proc} {target : Pid}

variable {s next : State} {pid parent o : Pid} {proc : Proc}

/-! ## Lists -/

namespace State

@[simp] theorem proc_set :
    (s.set pid v).proc o = if o = pid then v else s.proc o := rfl

@[simp] theorem children_set :
    (s.set pid v).children = s.children := rfl

@[simp] theorem ptraced_set :
    (s.set pid v).ptraced = s.ptraced := rfl

@[simp] theorem released_set :
    (s.set pid v).released = s.released := rfl

@[simp] theorem proc_unlink : (s.unlink pid).proc = s.proc := rfl

@[simp] theorem mem_children_unlink :
    o ∈ (s.unlink pid).children parent ↔ o ∈ s.children parent ∧ o ≠ pid := by
  simp [unlink]

@[simp] theorem ptraced_unlink : (s.unlink pid).ptraced = s.ptraced := rfl

@[simp] theorem released_unlink : (s.unlink pid).released = s.released := rfl

@[simp] theorem proc_link : (s.link pid target).proc = s.proc := rfl

@[simp] theorem mem_children_link :
    o ∈ (s.link pid target).children parent ↔
      o ∈ s.children parent ∨ parent = target ∧ o = pid := by
  simp only [link]
  split
  next same => simp [same]
  next differs => simp [differs]

@[simp] theorem ptraced_link : (s.link pid target).ptraced = s.ptraced := rfl

@[simp] theorem proc_unlinkPtraced : (s.unlinkPtraced pid).proc = s.proc := rfl

@[simp] theorem children_unlinkPtraced : (s.unlinkPtraced pid).children = s.children := rfl

@[simp] theorem mem_ptraced_unlinkPtraced :
    o ∈ (s.unlinkPtraced pid).ptraced parent ↔
      o ∈ s.ptraced parent ∧ o ≠ pid := by
  simp [unlinkPtraced]

@[simp] theorem children_linkPtraced :
    (s.linkPtraced pid target).children = s.children := rfl

@[simp] theorem mem_ptraced_linkPtraced :
    o ∈ (s.linkPtraced pid target).ptraced parent ↔
      o ∈ s.ptraced parent ∨ parent = target ∧ o = pid := by
  simp only [linkPtraced]
  split
  next same => simp [same]
  next differs => simp [differs]

end State

/-- The lists of the other processes are kept. -/
structure Lists (pid : Pid) (state next : State) : Prop where
  children : ∀ other parent, other ≠ pid →
    (other ∈ next.children parent ↔ other ∈ state.children parent)
  ptraced : ∀ other parent, other ≠ pid →
    (other ∈ next.ptraced parent ↔ other ∈ state.ptraced parent)
  nodup : ∀ parent, (next.children parent).Nodup
  nodupPtraced : ∀ parent, (next.ptraced parent).Nodup

theorem nodup_append_if {lists : Pid → List Pid} (nodup : ∀ parent, (lists parent).Nodup)
    (absent : pid ∉ lists target) (parent : Pid) :
    (if parent = target then lists parent ++ [pid] else lists parent).Nodup := by
  split
  next same =>
    subst same
    exact List.Nodup.append (nodup parent) (nodup_singleton _) (by simpa using absent)
  · exact nodup parent

namespace Lists

variable (lists : Lists pid s next)

include lists

theorem unlink : Lists pid s (next.unlink pid) :=
  { lists with
    children := fun o parent differs => by simp [differs, lists.children]
    nodup := fun parent => (lists.nodup parent).filter _ }

theorem unlinkPtraced : Lists pid s (next.unlinkPtraced pid) :=
  { lists with
    ptraced := fun o parent differs => by simp [differs, lists.ptraced]
    nodupPtraced := fun parent => (lists.nodupPtraced parent).filter _ }

theorem link (absent : pid ∉ next.children target) : Lists pid s (next.link pid target) :=
  { lists with
    children := fun o parent differs => by simp [differs, lists.children]
    nodup := nodup_append_if lists.nodup absent }

theorem linkPtraced (absent : pid ∉ next.ptraced target) :
    Lists pid s (next.linkPtraced pid target) :=
  { lists with
    ptraced := fun o parent differs => by simp [differs, lists.ptraced]
    nodupPtraced := nodup_append_if lists.nodupPtraced absent }

end Lists

/-! ## The invariant -/

def State.Alive (state : State) (pid : Pid) : Prop :=
  ∃ proc, state.proc pid = some proc ∧ proc.status ≠ .zombie

/-- What is known while a process is in neither list. -/
def Proc.Moves (state : State) (proc : Proc) : Prop :=
  match proc.move with
  | none => True
  | some (.attach tracer) =>
    (state.statusOf tracer).hasThreads = true ∧ tracer ≠ pid1 ∧ proc.traced = true ∧
      proc.parent = proc.ppid_parent
  | some (.detach target terminated) =>
    target = proc.ppid_parent ∧ proc.traced = true ∧
      terminated = proc.terminated
  | some .reap =>
    (state.statusOf proc.parent).hasThreads = true ∧ proc.status = .zombie ∧
      proc.parent = proc.ppid_parent ∧ proc.ppid_parent ≠ pid1

/-- A process is where its pointers say. -/
structure Placed (state : State) (pid : Pid) (proc : Proc) : Prop where
  parent : state.Alive proc.parent
  ppid_parent : state.Alive proc.ppid_parent
  children : ∀ parent, pid ∈ state.children parent ↔ proc.move = none ∧ parent = proc.parent
  ptraced : ∀ parent, pid ∈ state.ptraced parent ↔ proc.traced = true ∧ parent = proc.ppid_parent
  own : proc.traced = false → proc.parent = proc.ppid_parent
  held : proc.traced = true → proc.held = true
  hashed : proc.hashed = true
  moves : proc.Moves state
  released : state.released pid ≠ 0 → state.released pid = 1 ∧ proc.status = .zombie ∧
    proc.ppid_parent = pid1 ∧ proc.traced = false ∧ proc.held = true ∧ proc.move = none
  living : proc.status ≠ .zombie → proc.held = true
  tracer : proc.traced = true → proc.attaching = false →
    state.statusOf proc.parent ≠ .cleaning ∧ proc.parent ≠ pid1

/-- The invariant of the tree. -/
structure Good (state : State) : Prop where
  root : ∃ proc, state.proc pid1 = some proc ∧ proc.status = .running ∧ proc.move = none
  rootAlone : ∀ parent, pid1 ∉ state.children parent ∧ pid1 ∉ state.ptraced parent
  placed : ∀ pid proc, state.proc pid = some proc → pid ≠ pid1 → Placed state pid proc
  gone : ∀ pid, state.proc pid = none → ∀ parent,
    pid ∉ state.children parent ∧ pid ∉ state.ptraced parent
  nodup : ∀ parent, (state.children parent).Nodup
  nodupPtraced : ∀ parent, (state.ptraced parent).Nodup
  freed : ∀ pid, state.proc pid = none → state.released pid = if pid ∈ state.pids then 1 else 0
  known : ∀ pid, state.proc pid ≠ none → pid ∈ state.pids

theorem Good.lists (good : Good s) : Lists pid s s :=
  ⟨fun _ _ _ => Iff.rfl, fun _ _ _ => Iff.rfl, good.nodup, good.nodupPtraced⟩

/-- Another process keeps its place if the lists, the count and the states of the processes it
names are kept. -/
theorem Placed.frame (placed : Placed s pid proc)
    (children : ∀ parent, pid ∈ next.children parent ↔ pid ∈ s.children parent)
    (ptraced : ∀ parent, pid ∈ next.ptraced parent ↔ pid ∈ s.ptraced parent)
    (released : next.released pid = s.released pid)
    (alive : ∀ named, named = proc.parent ∨ named = proc.ppid_parent → next.Alive named)
    (threads : ∀ tracer, proc.move = some (.attach tracer) ∨
      proc.move = some .reap ∧ tracer = proc.parent →
      (s.statusOf tracer).hasThreads = true → (next.statusOf tracer).hasThreads = true)
    (cleaning : proc.traced = true → proc.attaching = false →
      next.statusOf proc.parent ≠ .cleaning) :
    Placed next pid proc where
  parent := alive _ (.inl rfl)
  ppid_parent := alive _ (.inr rfl)
  children parent := (children parent).trans (placed.children parent)
  ptraced parent := (ptraced parent).trans (placed.ptraced parent)
  own := placed.own
  held := placed.held
  hashed := placed.hashed
  moves := by
    have moves := placed.moves
    unfold Proc.Moves at moves ⊢
    split
    · trivial
    next tracer move =>
      simp only [move] at moves
      exact ⟨threads tracer (.inl move) moves.1, moves.2⟩
    next target terminated move =>
      simp only [move] at moves
      exact moves
    next move =>
      simp only [move] at moves
      exact ⟨threads _ (.inr ⟨move, rfl⟩) moves.1, moves.2⟩
  released := by
    rw [released]
    exact placed.released
  living := placed.living
  tracer traced still := ⟨cleaning traced still, (placed.tracer traced still).2⟩

theorem Placed.notPtraced (placed : Placed s pid proc) (untraced : proc.traced = false)
    (parent : Pid) : pid ∉ s.ptraced parent := by
  rw [placed.ptraced, untraced]
  simp

theorem Placed.notLinked (placed : Placed s pid proc) (away : proc.move ≠ none)
    (parent : Pid) : pid ∉ s.children parent := by
  rw [placed.children]
  exact fun linked => away linked.1

/-! ## Rules for the steps -/

theorem State.statusOf_of_proc (isProc : s.proc pid = some proc) :
    s.statusOf pid = proc.status := by
  rw [statusOf, isProc]

theorem State.ne_of_alive (alive : s.Alive o) (isProc : s.proc pid = some proc)
    (zombie : proc.status = .zombie) : o ≠ pid := by
  rintro rfl
  obtain ⟨found, isFound, living⟩ := alive
  cases isProc.symm.trans isFound
  exact living zombie

theorem State.alive_of_hasThreads (threads : (s.statusOf pid).hasThreads = true) :
    s.Alive pid := by
  unfold statusOf at threads
  split at threads
  · cases threads
  next proc isProc =>
    refine ⟨proc, isProc, ?_⟩
    intro zombie
    rw [zombie] at threads
    cases threads

theorem State.alive_root (good : Good s) : s.Alive pid1 := by
  obtain ⟨root, isRoot, running⟩ := good.root
  exact ⟨root, isRoot, by rw [running.1]; decide⟩

/-- Another process keeps its place if no process that is alive is touched. -/
theorem Placed.kept (placed : Placed s pid proc)
    (children : ∀ parent, pid ∈ next.children parent ↔ pid ∈ s.children parent)
    (ptraced : ∀ parent, pid ∈ next.ptraced parent ↔ pid ∈ s.ptraced parent)
    (released : next.released pid = s.released pid)
    (alive : ∀ o, s.Alive o →
      next.Alive o ∧ next.statusOf o = s.statusOf o) : Placed next pid proc := by
  refine placed.frame children ptraced released ?_ ?_ ?_
  · rintro named (rfl | rfl)
    · exact (alive _ placed.parent).1
    · exact (alive _ placed.ppid_parent).1
  · intro tracer _ threads
    rw [(alive tracer (alive_of_hasThreads threads)).2]
    exact threads
  · rw [(alive _ placed.parent).2]
    exact fun traced still => (placed.tracer traced still).1

section Update

variable (procs : ∀ o, next.proc o = if o = pid then v else s.proc o)

include procs

/-- A step that changes one process keeps the invariant if the others keep their places. -/
theorem Good.update (good : Good s) (notRoot : pid ≠ pid1) (lists : Lists pid s next)
    (released : ∀ o, o ≠ pid → next.released o = s.released o)
    (pids : ∀ o, o ≠ pid → (o ∈ next.pids ↔ o ∈ s.pids))
    (others : ∀ o found, o ≠ pid → s.proc o = some found → o ≠ pid1 →
      Placed next o found)
    (placed : ∀ after, v = some after → Placed next pid after ∧ pid ∈ next.pids)
    (gone : v = none → (∀ parent, pid ∉ next.children parent ∧ pid ∉ next.ptraced parent) ∧
      next.released pid = if pid ∈ next.pids then 1 else 0) : Good next := by
  refine ⟨?_, ?_, ?_, ?_, lists.nodup, lists.nodupPtraced, ?_, ?_⟩
  · obtain ⟨root, isRoot, running⟩ := good.root
    exact ⟨root, by rw [procs, if_neg notRoot.symm, isRoot], running⟩
  · intro parent
    rw [lists.children _ _ notRoot.symm, lists.ptraced _ _ notRoot.symm]
    exact good.rootAlone parent
  · intro o found isFound otherRoot
    rw [procs] at isFound
    split at isFound
    next same => exact same ▸ (placed found isFound).1
    next same => exact others o found same isFound otherRoot
  · intro o isNone parent
    rw [procs] at isNone
    split at isNone
    next same => exact same ▸ (gone isNone).1 parent
    next same =>
      rw [lists.children _ _ same, lists.ptraced _ _ same]
      exact good.gone o isNone parent
  · intro o isNone
    rw [procs] at isNone
    split at isNone
    next same => exact same ▸ (gone isNone).2
    next same =>
      rw [released o same, good.freed o isNone]
      simp only [pids o same]
  · intro o isSome
    rw [procs] at isSome
    split at isSome
    next same =>
      obtain ⟨after, isAfter⟩ := Option.ne_none_iff_exists'.mp isSome
      exact same ▸ (placed after isAfter).2
    next same => exact (pids o same).mpr (good.known o isSome)

theorem alive_of_ne (differs : o ≠ pid) (alive : s.Alive o) :
    next.Alive o ∧ next.statusOf o = s.statusOf o := by
  obtain ⟨found, isFound, living⟩ := alive
  refine ⟨⟨found, by rw [procs, if_neg differs, isFound], living⟩, ?_⟩
  simp only [statusOf, procs o, if_neg differs]

end Update

section Change

variable {after : Proc} (isProc : s.proc pid = some proc)
  (procs : ∀ o, next.proc o = if o = pid then some after else s.proc o)
  (status : after.status = proc.status)

include isProc procs status

theorem statusOf_change (o : Pid) : next.statusOf o = s.statusOf o := by
  simp only [statusOf, procs o]
  by_cases same : o = pid
  · rw [if_pos same, same, isProc]
    exact status
  · rw [if_neg same]

theorem alive_change (alive : s.Alive o) : next.Alive o := by
  by_cases same : o = pid
  · subst same
    obtain ⟨found, isFound, living⟩ := alive
    cases isProc.symm.trans isFound
    exact ⟨after, by rw [procs, if_pos rfl], status ▸ living⟩
  · exact (alive_of_ne procs same alive).1

theorem Good.change (good : Good s) (notRoot : pid ≠ pid1) (lists : Lists pid s next)
    (released : ∀ o, o ≠ pid → next.released o = s.released o)
    (pids : next.pids = s.pids) (placed : Placed next pid after) : Good next := by
  refine good.update procs notRoot lists released (fun _ _ => by rw [pids])
    (fun o found same isFound otherRoot => ?_) ?_ nofun
  · exact (good.placed o found isFound otherRoot).kept (lists.children o · same)
      (lists.ptraced o · same) (released o same) fun _ alive =>
        ⟨alive_change isProc procs status alive, statusOf_change isProc procs status _⟩
  · rintro _ ⟨⟩
    exact ⟨placed, pids ▸ good.known pid (by simp [isProc])⟩

end Change

theorem Good.vanish (good : Good s) (isProc : s.proc pid = some proc)
    (notRoot : pid ≠ pid1) (zombie : proc.status = .zombie) (untraced : proc.traced = false)
    (procs : ∀ o, next.proc o = if o = pid then none else s.proc o)
    (lists : Lists pid s next) (unlinked : ∀ parent, pid ∉ next.children parent)
    (ptraced : next.ptraced = s.ptraced)
    (released : ∀ o, next.released o = if o = pid then 1 else s.released o)
    (pids : next.pids = s.pids) : Good next := by
  refine good.update procs notRoot lists (fun o same => by rw [released, if_neg same])
    (fun _ _ => by rw [pids]) (fun o found same isFound otherRoot => ?_) nofun fun _ => ?_
  · exact (good.placed o found isFound otherRoot).kept (lists.children o · same)
      (lists.ptraced o · same) (by rw [released, if_neg same]) fun named alive =>
        alive_of_ne procs (ne_of_alive alive isProc zombie) alive
  · have isKnown : pid ∈ s.pids := good.known pid (by simp [isProc])
    refine ⟨fun parent => ⟨unlinked parent, ?_⟩, ?_⟩
    · exact ptraced ▸ (good.placed pid proc isProc notRoot).notPtraced untraced parent
    · rw [released, if_pos rfl, pids, if_pos isKnown]

theorem Good.release (good : Good s) (isProc : s.proc pid = some proc)
    (isHeld : proc.held = held) (notRoot : pid ≠ pid1) (zombie : proc.status = .zombie)
    (root : proc.ppid_parent = pid1) (untraced : proc.traced = false) (still : proc.move = none)
    (unreleased : s.released pid = 0) : Good (s.release pid held) := by
  unfold State.release
  cases held with
  | true =>
    have place := good.placed pid proc isProc notRoot
    have procs : ∀ o, s.proc o = if o = pid then some proc else s.proc o := by
      intro o
      split
      next same => rw [same, isProc]
      · rfl
    refine Good.change isProc procs rfl good notRoot { good.lists with } ?_ rfl ?_
    · intro o differs
      simp [differs]
    · refine { place with released := fun _ => ?_ }
      simp only [if_true, unreleased]
      exact ⟨trivial, zombie, root, untraced, isHeld, still⟩
  | false =>
    rw [if_neg Bool.false_ne_true]
    refine good.vanish isProc notRoot zombie untraced (fun _ => rfl) { good.lists.unlink with }
      (by simp [free]) rfl ?_ rfl
    intro o
    simp only [free, released_set, released_unlink]
    split
    next same => rw [same, unreleased]
    · rfl

theorem Proc.moves_setStatus {status : Status} (moves : proc.Moves s)
    (before : proc.status ≠ .zombie)
    (after : status = .zombie → proc.move = none ∨ proc.attaching = true) :
    ({ proc with status := status } : Proc).Moves s := by
  unfold Moves at moves ⊢
  simp only
  split
  · trivial
  next move =>
    simp only [move] at moves
    exact moves
  next move =>
    simp only [move] at moves
    refine ⟨moves.1, moves.2.1, ?_⟩
    have alive : status ≠ .zombie := by
      intro zombie
      rcases after zombie with still | attaching
      · rw [move] at still
        cases still
      · simp [move, Proc.attaching] at attaching
    simp only [moves.2.2, Proc.terminated, beq_false_of_ne before, beq_false_of_ne alive]
  next move =>
    simp only [move] at moves
    exact absurd moves.2.1 before

theorem Good.setStatus {status : Status} (good : Good s) (isProc : s.proc pid = some proc)
    (notRoot : pid ≠ pid1) (before : proc.status ≠ .zombie)
    (after : status = .zombie → proc.move = none ∨ proc.attaching = true)
    (alive : ∀ o found, s.proc o = some found → o ≠ pid1 →
      status = .zombie → found.parent ≠ pid ∧ found.ppid_parent ≠ pid)
    (threads : ∀ o found, s.proc o = some found → o ≠ pid1 →
      found.move = some (.attach pid) ∨ found.move = some .reap ∧ found.parent = pid →
      proc.status.hasThreads = true → status.hasThreads = true)
    (cleaning : ∀ o found, s.proc o = some found → o ≠ pid1 →
      found.traced = true → found.attaching = false → found.parent = pid → status ≠ .cleaning) :
    Good (s.set pid (some { proc with status := status })) := by
  have procs : ∀ o, (s.set pid (some { proc with status := status })).proc o =
      if o = pid then some { proc with status := status } else s.proc o :=
    fun _ => rfl
  have changed : (s.set pid (some { proc with status := status })).statusOf pid = status := by
    simp [statusOf]
  have stays : ∀ o, s.Alive o → (status = .zombie → o ≠ pid) →
      (s.set pid (some { proc with status := status })).Alive o := by
    intro o alive differs
    by_cases same : o = pid
    · exact ⟨{ proc with status := status }, by simp [same], fun zombie => differs zombie same⟩
    · exact (alive_of_ne procs same alive).1
  have framed : ∀ o found, s.proc o = some found → o ≠ pid1 →
      Placed (s.set pid (some { proc with status := status })) o found := by
    intro o found isFound otherRoot
    have place := good.placed o found isFound otherRoot
    refine place.frame (fun _ => Iff.rfl) (fun _ => Iff.rfl) rfl ?_ ?_ ?_
    · rintro named (rfl | rfl)
      · exact stays _ place.parent fun zombie => (alive o found isFound otherRoot zombie).1
      · exact stays _ place.ppid_parent fun zombie => (alive o found isFound otherRoot zombie).2
    · intro tracer moving had
      by_cases same : tracer = pid
      · subst same
        rw [changed]
        rw [statusOf_of_proc isProc] at had
        refine threads o found isFound otherRoot ?_ had
        rcases moving with moving | ⟨moving, rfl⟩
        · exact .inl moving
        · exact .inr ⟨moving, rfl⟩
      · rw [(alive_of_ne procs same (alive_of_hasThreads had)).2]
        exact had
    · intro traced still
      by_cases same : found.parent = pid
      · rw [same, changed]
        exact cleaning o found isFound otherRoot traced still same
      · rw [(alive_of_ne procs same place.parent).2]
        exact (place.tracer traced still).1
  refine good.update procs notRoot { good.lists with } (fun _ _ => rfl) (fun _ _ => Iff.rfl)
    (fun _ _ _ => framed _ _) ?_ nofun
  rintro _ ⟨⟩
  have place := framed pid proc isProc notRoot
  refine ⟨{ place with
    moves := Proc.moves_setStatus place.moves before after
    released := fun nonzero => absurd (place.released nonzero).2.1 before
    living := fun _ => place.living before }, good.known pid (by simp [isProc])⟩

/-! ## Processes that `pid1` has been given -/

/-- A zombie that is a child of `pid1` has been released. -/
def Collected (state : State) : Prop :=
  ∀ pid proc, state.proc pid = some proc → pid ≠ pid1 → proc.status = .zombie →
    proc.parent = pid1 → proc.move = none → state.released pid = 1

theorem Collected.change (collected : Collected s)
    (procs : ∀ o, next.proc o = if o = pid then v else s.proc o)
    (released : ∀ o, o ≠ pid → next.released o = s.released o)
    (here : ∀ after, v = some after → after.status = .zombie → after.parent = pid1 →
      after.move = none → next.released pid = 1) : Collected next := by
  intro o found isFound notRoot zombie isRoot still
  rw [procs] at isFound
  split at isFound
  next same => exact same ▸ here found isFound zombie isRoot still
  next differs =>
    rw [released o differs]
    exact collected o found isFound notRoot zombie isRoot still

theorem released_release (unreleased : s.released pid = 0) :
    (s.release pid held).released pid = 1 := by
  unfold release
  cases held with
  | true => simp [unreleased]
  | false => simp [free, unreleased]

theorem released_release_of_ne (differs : o ≠ pid) :
    (s.release pid held).released o = s.released o := by
  unfold release
  cases held with
  | true => simp [differs]
  | false => simp [free, differs]

theorem proc_release_of_ne (differs : o ≠ pid) :
    (s.release pid held).proc o = s.proc o := by
  unfold release
  cases held with
  | true => rfl
  | false => simp [free, differs]

theorem Collected.release (collected : Collected s)
    (procs : ∀ o, o ≠ pid → next.proc o = s.proc o)
    (released : next.released = s.released) (unreleased : s.released pid = 0) :
    Collected (next.release pid held) := by
  intro o found isFound notRoot zombie isRoot still
  by_cases same : o = pid
  · rw [same]
    exact released_release (by rw [released, unreleased])
  · rw [proc_release_of_ne same, procs o same] at isFound
    rw [released_release_of_ne same, released]
    exact collected o found isFound notRoot zombie isRoot still

end McKernel.ProcessTree
