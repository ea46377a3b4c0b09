import McKernel.ProcessTree.Links

/-!
# The process tree in every run

The invariant is kept by every step that does not come between the two halves of another one,
or between the reading and the writing of a list by a detach, as long as a process that hands
its children over has no exited child with references left, nobody attaches to a process that
has been released, and no child asks a parent that hands its children over to trace it.
-/

namespace McKernel.ProcessTree

open Bool Option State

variable {s next : State} {pid parent o : Pid} {proc : Proc}

/-- The process is in its place. -/
def State.still (state : State) (pid : Pid) : Bool :=
  match state.proc pid with
  | none => true
  | some proc => proc.move == none

/-- The steps that keep the tree in order. -/
def orderly (state : State) : Op → Bool
  | .traceme pid =>
    state.still pid &&
      match state.proc pid with
      | none => true
      | some proc => state.statusOf proc.parent != .cleaning
  | .attach pid _ => state.still pid && state.released pid == 0
  | .detachCut pid =>
    match state.proc pid, state.reads pid with
    | some proc, some read =>
      proc.move == none && proc.traced && pid != pid1 && read.parent == proc.ppid_parent &&
        read.terminated == proc.terminated && read.children == state.children proc.parent
    | _, _ => true
  | .detached pid =>
    match state.proc pid, state.reads pid with
    | some proc, some read =>
      match proc.move with
      | some (.detach parent _) =>
        read.children == state.children parent && read.ptraced == state.ptraced parent
      | _ => true
    | _, _ => true
  | .finalize pid =>
    match state.proc pid with
    | none => true
    | some proc => proc.move == none || proc.attaching && proc.parent != pid1
  | .handOver _ child =>
    state.still child &&
      match state.proc child with
      | none => true
      | some proc => proc.status != .zombie || !proc.held
  | _ => true

theorem move_of_still (isProc : s.proc pid = some proc) (still : s.still pid = true) :
    proc.move = none := by
  simpa [State.still, isProc] using still

theorem attaching_of_still (still : proc.move = none) : proc.attaching = false := by
  simp [Proc.attaching, still]

namespace Good

variable (good : Good s) (isProc : s.proc pid = some proc) (notRoot : pid ≠ pid1)

include good isProc notRoot

theorem relink {links : State} {after : Proc} (status : after.status = proc.status)
    (lists : Lists pid s links)
    (same : (links.proc, links.released, links.pids) = (s.proc, s.released, s.pids))
    (placed : (∀ o, s.Alive o → (links.set pid (some after)).Alive o) →
      (∀ o, (links.set pid (some after)).statusOf o = s.statusOf o) →
      Placed (links.set pid (some after)) pid after) : Good (links.set pid (some after)) := by
  obtain ⟨procs, released, pids⟩ := by simpa using same
  have procs : ∀ o, (links.set pid (some after)).proc o =
      if o = pid then some after else s.proc o := fun _ => procs ▸ rfl
  exact Good.change isProc procs status good notRoot { lists with } (fun _ _ => congrFun released _)
    pids (placed (fun _ => alive_change isProc procs status) (statusOf_change isProc procs status))

theorem traceme (alive : proc.status ≠ .zombie) (untraced : proc.traced = false)
    (parent : proc.parent ≠ pid1) (still : proc.move = none)
    (open_ : s.statusOf proc.parent ≠ .cleaning) :
    Good ((s.linkPtraced pid proc.parent).set pid (some { proc with traced := true })) := by
  have place := good.placed pid proc isProc notRoot
  have absent := place.notPtraced untraced
  refine good.relink isProc notRoot rfl (good.lists.linkPtraced (absent _)) rfl
    fun lives statuses => ?_
  refine ⟨lives _ place.parent, lives _ place.ppid_parent, place.children, ?_, nofun,
    fun _ => place.living alive, place.hashed, ?_, ?_, place.living, ?_⟩
  · intro parent
    simp [absent, place.own untraced]
  · simp [Proc.Moves, still]
  · intro nonzero
    exact absurd (place.released nonzero).2.1 alive
  · intro _ _
    rw [statuses]
    exact ⟨open_, parent⟩

theorem attach {tracer : Pid} (untraced : proc.traced = false) (held : proc.held = true)
    (unreleased : s.released pid = 0) (tracerRoot : tracer ≠ pid1)
    (threads : (s.statusOf tracer).hasThreads = true) :
    Good (((s.unlink pid).linkPtraced pid proc.parent).set pid
      (some { proc with traced := true, move := some (.attach tracer) })) := by
  have place := good.placed pid proc isProc notRoot
  have absent := place.notPtraced untraced
  refine good.relink isProc notRoot rfl (good.lists.unlink.linkPtraced (absent _)) rfl
    fun lives statuses => ?_
  refine ⟨lives _ place.parent, lives _ place.ppid_parent, ?_, ?_, nofun, fun _ => held,
    place.hashed, ?_, ?_, place.living, nofun⟩
  · intro parent
    simp
  · intro parent
    simp [absent, place.own untraced]
  · refine ⟨?_, tracerRoot, rfl, place.own untraced⟩
    rw [statuses]
    exact threads
  · intro nonzero
    exact absurd unreleased nonzero

theorem attached {tracer : Pid} (move : proc.move = some (.attach tracer)) :
    Good ((s.link pid tracer).set pid (some { proc with parent := tracer, move := none })) := by
  have place := good.placed pid proc isProc notRoot
  have moves := place.moves
  simp only [Proc.Moves, move] at moves
  obtain ⟨threads, tracerRoot, traced, _⟩ := moves
  have absent := place.notLinked (by simp [move])
  refine good.relink isProc notRoot rfl (good.lists.link (absent _)) rfl fun lives statuses => ?_
  refine ⟨lives _ (alive_of_hasThreads threads), lives _ place.ppid_parent, ?_,
    place.ptraced, by simp [traced], place.held, place.hashed, trivial, ?_, place.living, ?_⟩
  · intro parent
    simp [absent]
  · intro nonzero
    have := (place.released nonzero).2.2.2.2.2
    rw [move] at this
    cases this
  · intro _ _
    rw [statuses]
    refine ⟨?_, tracerRoot⟩
    intro cleaning
    rw [cleaning] at threads
    cases threads

theorem unreleased_of_traced (traced : proc.traced = true) : s.released pid = 0 := by
  by_contra nonzero
  have := ((good.placed pid proc isProc notRoot).released nonzero).2.2.2.1
  rw [traced] at this
  cases this

theorem detach {terminated : Bool} (traced : proc.traced = true) (still : proc.move = none)
    (exited : terminated = proc.terminated) :
    Good ((s.unlink pid).set pid
      (some { proc with move := some (.detach proc.ppid_parent terminated) })) := by
  have place := good.placed pid proc isProc notRoot
  refine good.relink isProc notRoot rfl good.lists.unlink rfl fun lives statuses => ?_
  refine ⟨lives _ place.parent, lives _ place.ppid_parent, ?_, place.ptraced, place.own,
    place.held, place.hashed, ⟨rfl, traced, exited⟩, ?_, place.living, ?_⟩
  · intro parent
    simp
  · intro nonzero
    exact absurd (good.unreleased_of_traced isProc notRoot traced) nonzero
  · intro _ _
    rw [statuses]
    exact place.tracer traced (attaching_of_still still)

theorem settle {target : Pid} (away : proc.move ≠ none) (living : s.Alive target)
    (unreleased : s.released pid = 0) :
    Good (((s.unlinkPtraced pid).link pid target).set pid
      (some { proc with
        parent := target, ppid_parent := target, traced := false, move := none })) := by
  have place := good.placed pid proc isProc notRoot
  have absent := place.notLinked away
  refine good.relink isProc notRoot rfl (good.lists.unlinkPtraced.link (absent _)) rfl
    fun lives statuses => ?_
  refine ⟨lives _ living, lives _ living, ?_, ?_, fun _ => rfl, nofun, place.hashed, trivial, ?_,
    place.living, nofun⟩
  · intro parent
    simp [absent]
  · intro parent
    simp
  · intro nonzero
    exact absurd unreleased nonzero

theorem reap (zombie : proc.status = .zombie) (own : proc.parent = proc.ppid_parent)
    (parentRoot : proc.parent ≠ pid1) (still : proc.move = none)
    (threads : (s.statusOf proc.parent).hasThreads = true) :
    Good ((s.unlink pid).set pid (some { proc with move := some .reap })) := by
  have place := good.placed pid proc isProc notRoot
  refine good.relink isProc notRoot rfl good.lists.unlink rfl fun lives statuses => ?_
  refine ⟨lives _ place.parent, lives _ place.ppid_parent, ?_, place.ptraced, place.own,
    place.held, place.hashed, ⟨?_, zombie, own, own ▸ parentRoot⟩, ?_, place.living, ?_⟩
  · intro parent
    simp
  · rw [statuses]
    exact threads
  · intro nonzero
    exact absurd (own.trans (place.released nonzero).2.2.1) parentRoot
  · intro traced _
    rw [statuses]
    exact place.tracer traced (attaching_of_still still)

theorem giveToRoot (alive : proc.status ≠ .zombie) (untraced : proc.traced = false)
    (still : proc.move = none) :
    Good (((s.unlink pid).link pid pid1).set pid
      (some { proc with parent := pid1, ppid_parent := pid1 })) := by
  have place := good.placed pid proc isProc notRoot
  have rootAlive := alive_root good
  refine good.relink isProc notRoot rfl (good.lists.unlink.link (by simp)) rfl
    fun lives statuses => ?_
  refine ⟨lives _ rootAlive, lives _ rootAlive, ?_, ?_, fun _ => rfl, place.held, place.hashed,
    ?_, ?_, place.living, by simp [untraced]⟩
  · intro parent
    simp [still]
  · intro parent
    simp [place.ptraced, untraced]
  · simp [Proc.Moves, still]
  · intro nonzero
    exact absurd (place.released nonzero).2.1 alive

theorem giveTracedToRoot (alive : proc.status ≠ .zombie) (traced : proc.traced = true)
    (still : proc.move = none) :
    Good (((s.unlinkPtraced pid).linkPtraced pid pid1).set pid
      (some { proc with ppid_parent := pid1 })) := by
  have place := good.placed pid proc isProc notRoot
  refine good.relink isProc notRoot rfl (good.lists.unlinkPtraced.linkPtraced (by simp)) rfl
    fun lives statuses => ?_
  refine ⟨lives _ place.parent, lives _ (alive_root good), place.children, ?_,
    by simp [traced], place.held, place.hashed, ?_, ?_, place.living, ?_⟩
  · intro parent
    simp [traced]
  · simp [Proc.Moves, still]
  · intro nonzero
    exact absurd (place.released nonzero).2.1 alive
  · intro _ _
    rw [statuses]
    exact place.tracer traced (attaching_of_still still)

theorem dropReference (zombie : proc.status = .zombie) (untraced : proc.traced = false)
    (unreleased : s.released pid = 0) :
    Good (s.set pid (some { proc with held := false })) := by
  have place := good.placed pid proc isProc notRoot
  refine good.relink isProc notRoot rfl good.lists rfl fun lives statuses => ?_
  refine ⟨lives _ place.parent, lives _ place.ppid_parent, place.children, place.ptraced,
    place.own, by simp [untraced], place.hashed, ?_, ?_, ?_, by simp [untraced]⟩
  · have moves := place.moves
    unfold Proc.Moves at moves ⊢
    simp only [statuses]
    exact moves
  · intro nonzero
    exact absurd unreleased nonzero
  · intro alive
    exact absurd zombie alive

end Good

theorem Good.ne_root_of_status (good : Good s) (isProc : s.proc pid = some proc)
    (status : proc.status ≠ .running) : pid ≠ pid1 := by
  rintro rfl
  obtain ⟨root, isRoot, running, _⟩ := good.root
  cases isProc.symm.trans isRoot
  exact status running

theorem Good.ne_root_of_move (good : Good s) (isProc : s.proc pid = some proc)
    (away : proc.move ≠ none) : pid ≠ pid1 := by
  rintro rfl
  obtain ⟨root, isRoot, _, still⟩ := good.root
  cases isProc.symm.trans isRoot
  exact away still

theorem Good.fork (good : Good s) (fresh : s.proc child = none)
    (isNew : child ∉ s.pids) (targetAlive : s.Alive target) :
    Good (({ s with pids := child :: s.pids }.set child
      (some ⟨target, target, .running, false, true, true, none⟩)).link child target) := by
  have notRoot : child ≠ pid1 := by
    rintro rfl
    obtain ⟨root, isRoot, _⟩ := good.root
    rw [fresh] at isRoot
    cases isRoot
  have unreleased : s.released child = 0 := by
    rw [good.freed child fresh, if_neg isNew]
  have absent := good.gone child fresh
  have base : Lists child s ({ s with pids := child :: s.pids }.set child
      (some ⟨target, target, .running, false, true, true, none⟩)) := { good.lists with }
  have lists := base.link (absent target).1
  generalize after : ({ s with pids := child :: s.pids }.set child
    (some ⟨target, target, .running, false, true, true, none⟩)).link child target = next at lists ⊢
  have procs : ∀ o, next.proc o = if o = child then
      some ⟨target, target, .running, false, true, true, none⟩ else s.proc o := by
    rw [← after]
    exact fun _ => rfl
  have released : next.released = s.released := by rw [← after]; rfl
  have pids : next.pids = child :: s.pids := by rw [← after]; rfl
  have alive (o : Pid) (living : s.Alive o) :
      next.Alive o ∧ next.statusOf o = s.statusOf o := by
    refine alive_of_ne procs ?_ living
    rintro rfl
    obtain ⟨found, isFound, _⟩ := living
    rw [fresh] at isFound
    cases isFound
  refine good.update procs notRoot lists (fun _ _ => by rw [released])
    (fun o same => by simp [pids, same]) (fun o found same isFound otherRoot => ?_) ?_ nofun
  · exact (good.placed o found isFound otherRoot).kept (lists.children o · same)
      (lists.ptraced o · same) (by rw [released]) alive
  · rintro _ ⟨⟩
    refine ⟨⟨(alive _ targetAlive).1, (alive _ targetAlive).1, ?_, ?_, fun _ => rfl, nofun, rfl,
      trivial, ?_, fun _ => rfl, nofun⟩, pids ▸ List.mem_cons_self⟩
    · intro parent
      rw [← after, mem_children_link]
      simp [absent parent]
    · intro parent
      rw [← after]
      simp [absent parent]
    · rw [released]
      exact fun nonzero => absurd unreleased nonzero

theorem alive_newParent (good : Good s)
    (isProc : s.proc parent = some proc) (threads : proc.status.hasThreads = true) :
    s.Alive (newParent s parent proc cloneParent) := by
  unfold newParent
  split
  · split
    next running =>
      refine alive_of_hasThreads ?_
      rw [running]
      rfl
    · exact alive_root good
  · refine alive_of_hasThreads ?_
    rw [statusOf_of_proc isProc]
    exact threads

theorem of_all {test : Proc → Bool} (good : Good s) (every : s.all test = true)
    (isProc : s.proc pid = some proc) : test proc = true := by
  have isKnown := good.known pid (by simp [isProc])
  have passed := List.all_eq_true.mp every pid isKnown
  rw [isProc] at passed
  exact passed

theorem unnamed_of_cleaned (good : Good s) (isProc : s.proc pid = some proc)
    (status : proc.status = .cleaning)
    (cleaned : s.children pid = [] ∧ s.ptraced pid = [] ∨
      s.all (fun o => !(o.hashed && o.ppid_parent == pid)) = true)
    (isFound : s.proc o = some found) (otherRoot : o ≠ pid1) :
    found.parent ≠ pid ∧ found.ppid_parent ≠ pid := by
  have place := good.placed o found isFound otherRoot
  have isCleaning : s.statusOf pid = .cleaning := by
    rw [statusOf_of_proc isProc, status]
  have real : found.ppid_parent ≠ pid := by
    rintro rfl
    rcases cleaned with ⟨children, ptraced⟩ | every
    · cases traced : found.traced with
      | true =>
        have := (place.ptraced found.ppid_parent).mpr ⟨traced, rfl⟩
        rw [ptraced] at this
        cases this
      | false =>
        have own := place.own traced
        have linked := place.children found.ppid_parent
        rw [children] at linked
        have moves := place.moves
        unfold Proc.Moves at moves
        split at moves
        next still => exact absurd (linked.mpr ⟨still, own.symm⟩) List.not_mem_nil
        · rw [traced] at moves
          exact false_ne_true moves.2.2.1
        · rw [traced] at moves
          exact false_ne_true moves.2.1
        · rw [own, isCleaning] at moves
          exact false_ne_true moves.1
    · have := of_all good every isFound
      simp [place.hashed] at this
  refine ⟨?_, real⟩
  rintro rfl
  cases traced : found.traced with
  | false => exact real (place.own traced).symm
  | true =>
    cases attaching : found.attaching with
    | false => exact (place.tracer traced attaching).1 isCleaning
    | true =>
      have moves := place.moves
      unfold Proc.attaching at attaching
      split at attaching
      next move =>
        simp only [Proc.Moves, move] at moves
        exact real moves.2.2.2.symm
      · cases attaching

/-! ## The steps -/

/-- Both invariants. -/
structure Ordered (state : State) : Prop where
  good : Good state
  collected : Collected state

theorem Placed.setRead {o : Pid} {read : Option Read} (placed : Placed s o proc) :
    Placed (s.setRead pid read) o proc :=
  ⟨placed.parent, placed.ppid_parent, placed.children, placed.ptraced, placed.own, placed.held,
    placed.hashed, placed.moves, placed.released, placed.living, placed.tracer⟩

theorem Ordered.setRead (ordered : Ordered s) (pid : Pid) (read : Option Read) :
    Ordered (s.setRead pid read) :=
  have good := ordered.good
  ⟨⟨good.root, good.rootAlone, fun o found isFound notRoot =>
    (good.placed o found isFound notRoot).setRead, good.gone, good.nodup, good.nodupPtraced,
    good.freed, good.known⟩, ordered.collected⟩

/-- An edit that goes on from the list as it is. -/
theorem restoreChildren_eq {children : List Pid} (same : children = s.children parent) :
    s.restoreChildren parent children = s := by
  rw [restoreChildren, same, Function.update_eq_self]

theorem restorePtraced_eq {ptraced : List Pid} (same : ptraced = s.ptraced parent) :
    s.restorePtraced parent ptraced = s := by
  rw [restorePtraced, same, Function.update_eq_self]

theorem Collected.set (collected : Collected s)
    (procs : ∀ o, next.proc o = if o = pid then some after else s.proc o)
    (released : next.released = s.released)
    (elsewhere : after.status = .zombie → after.parent = pid1 → after.move = none →
      s.released pid = 1) : Collected next := by
  refine collected.change procs (fun _ _ => by rw [released]) ?_
  intro found isFound zombie isRoot still
  cases isFound
  rw [released]
  exact elsewhere zombie isRoot still

namespace Ordered

variable (ordered : Ordered s)

include ordered

theorem finalize (isProc : s.proc pid = some proc) (notRoot : pid ≠ pid1)
    (status : proc.status = .cleaning)
    (passed : proc.move = none ∨ proc.attaching = true ∧ proc.parent ≠ pid1)
    (cleaned : s.children pid = [] ∧ s.ptraced pid = [] ∨
      s.all (fun o => !(o.hashed && o.ppid_parent == pid)) = true) :
    Ordered (if proc.parent = pid1 then
        (s.set pid (some { proc with status := .zombie })).release pid proc.held
      else s.set pid (some { proc with status := .zombie })) := by
  have good := ordered.good
  have alive : proc.status ≠ .zombie := by
    rw [status]
    decide
  have place := good.placed pid proc isProc notRoot
  have unreleased : s.released pid = 0 := by
    by_contra nonzero
    exact alive (place.released nonzero).2.1
  have zombified : Good (s.set pid (some { proc with status := .zombie })) := by
    refine good.setStatus isProc notRoot alive ?_ ?_ ?_ ?_
    · exact fun _ => passed.imp_right fun attaching => attaching.1
    · exact fun o found isFound otherRoot _ =>
        unnamed_of_cleaned good isProc status cleaned isFound otherRoot
    · intro _ _ _ _ _ threads
      rw [status] at threads
      cases threads
    · nofun
  split
  next isRoot =>
    have still : proc.move = none := by
      rcases passed with still | attaching
      · exact still
      · exact absurd isRoot attaching.2
    have untraced : proc.traced = false := by
      by_contra traced
      exact (place.tracer (eq_true_of_ne_false traced) (attaching_of_still still)).2 isRoot
    have isZombie : (s.set pid (some { proc with status := .zombie })).proc pid =
        some { proc with status := .zombie } := by
      simp
    refine ⟨?_, ?_⟩
    · exact Good.release zombified isZombie rfl notRoot rfl
        ((place.own untraced).symm.trans isRoot) untraced still unreleased
    · exact ordered.collected.release (fun o differs => by simp [differs]) rfl unreleased
  next elsewhere =>
    refine ⟨zombified, ordered.collected.set (fun _ => rfl) rfl ?_⟩
    exact fun _ isRoot => absurd isRoot elsewhere

theorem handOver (isProc : s.proc child = some proc) (notRoot : child ≠ pid1)
    (cleaning : s.statusOf pid = .cleaning) (real : proc.ppid_parent = pid)
    (still : proc.move = none) (unheld : proc.status = .zombie → proc.held = false) :
    Ordered (if proc.status = .zombie then
        ((s.unlink child).set child (some { proc with hashed := false })).release child
          proc.held
      else if proc.parent = pid then
        ((s.unlink child).link child pid1).set child
          (some { proc with parent := pid1, ppid_parent := pid1 })
      else
        ((s.unlinkPtraced child).linkPtraced child pid1).set child
          (some { proc with ppid_parent := pid1 })) := by
  have good := ordered.good
  have place := good.placed child proc isProc notRoot
  split
  next zombie =>
    have held := unheld zombie
    have unreleased : s.released child = 0 := by
      by_contra nonzero
      have := (place.released nonzero).2.2.2.2.1
      rw [held] at this
      cases this
    have untraced : proc.traced = false := by
      by_contra traced
      have := place.held (eq_true_of_ne_false traced)
      rw [held] at this
      cases this
    refine ⟨?_, ordered.collected.release (fun o differs => by simp [differs]) rfl unreleased⟩
    rw [held]
    refine good.vanish isProc notRoot zombie untraced ?_ { good.lists.unlink.unlink with } ?_ rfl ?_
      rfl
    · intro o
      simp only [release, free, false_eq_true, if_false, proc_set,
        proc_unlink]
      split <;> rfl
    · simp [State.release, State.free, State.set, State.unlink]
    · intro o
      simp only [State.release, State.free, false_eq_true, if_false, State.released_set,
        released_unlink]
      split
      next same => rw [same, unreleased]
      · rfl
  next alive =>
    have elsewhere : ∀ after : Proc, after.status = proc.status → after.status = .zombie →
        after.parent = pid1 → after.move = none → s.released child = 1 :=
      fun after same zombie _ _ => absurd (same.symm.trans zombie) alive
    split
    next own =>
      have untraced : proc.traced = false := by
        by_contra traced
        refine (place.tracer (eq_true_of_ne_false traced) (attaching_of_still still)).1 ?_
        rw [own, cleaning]
      exact ⟨good.giveToRoot isProc notRoot alive untraced still,
        ordered.collected.set (fun _ => rfl) rfl (elsewhere _ rfl)⟩
    next o =>
      have traced : proc.traced = true := by
        by_contra untraced
        exact o ((place.own (eq_false_of_ne_true untraced)).trans real)
      exact ⟨good.giveTracedToRoot isProc notRoot alive traced still,
        ordered.collected.set (fun _ => rfl) rfl (elsewhere _ rfl)⟩

theorem detached {terminated : Bool} (isProc : s.proc pid = some proc)
    (move : proc.move = some (.detach parent terminated)) :
    let settled := ((s.unlinkPtraced pid).link pid parent).set pid
      (some { proc with parent, traced := false, move := none })
    Ordered (if terminated ∧ parent = pid1 then settled.release pid proc.held else settled) := by
  have good := ordered.good
  have collected := ordered.collected
  have away : proc.move ≠ none := by simp [move]
  have notRoot := good.ne_root_of_move isProc away
  have place := good.placed pid proc isProc notRoot
  have moves := place.moves
  simp only [Proc.Moves, move] at moves
  obtain ⟨rfl, traced, isTerminated⟩ := moves
  have unreleased := good.unreleased_of_traced isProc notRoot traced
  have settled := good.settle isProc notRoot away place.ppid_parent unreleased
  split
  next allowed =>
    have zombie : proc.status = .zombie := by
      rw [isTerminated, Proc.terminated, and_eq_true, beq_iff_eq] at allowed
      exact allowed.1.1
    refine ⟨?_, collected.release (fun o differs => by simp [differs]) rfl unreleased⟩
    exact Good.release settled (if_pos rfl) rfl notRoot zombie allowed.2 rfl rfl unreleased
  next kept =>
    refine ⟨settled, collected.set (fun _ => rfl) rfl ?_⟩
    intro (zombie : proc.status = .zombie) (isRoot : proc.ppid_parent = pid1) _
    refine absurd ⟨?_, isRoot⟩ kept
    have elsewhere : proc.parent ≠ proc.ppid_parent := by
      rw [isRoot]
      exact (place.tracer traced (by simp [Proc.attaching, move])).2
    rw [isTerminated, Proc.terminated, zombie, bne_iff_ne.mpr elsewhere]
    rfl

theorem exec (passed : orderly s op = true)
    (ran : ProcessTree.exec s op = some next) : Ordered next := by
  have good := ordered.good
  have collected := ordered.collected
  cases op with simp only [ProcessTree.exec, bind_eq_bind, bind_eq_some_iff,
      ite_none_right_eq_some, some.injEq] at ran
  | fork parent child cloneParent =>
    obtain ⟨proc, isProc, ⟨threads, fresh, isNew, unreleased, _⟩, rfl⟩ := ran
    refine ⟨good.fork fresh isNew (alive_newParent good isProc threads), ?_⟩
    refine collected.set (fun _ => rfl) rfl ?_
    intros; contradiction
  | traceme pid =>
    obtain ⟨proc, isProc, ran⟩ := ran
    simp only [orderly, isProc, and_eq_true, bne_iff_ne] at passed
    obtain ⟨⟨running, untraced, parentRoot, notRoot⟩, rfl⟩ := ran
    have alive : proc.status ≠ .zombie := by
      rw [running]
      decide
    refine ⟨good.traceme isProc notRoot alive (eq_false_of_ne_true untraced) parentRoot
      (move_of_still isProc passed.1) passed.2, ?_⟩
    exact collected.set (fun _ => rfl) rfl fun zombie => absurd zombie alive
  | attach pid tracer =>
    obtain ⟨proc, isProc, ran⟩ := ran
    simp only [orderly, and_eq_true, beq_iff_eq] at passed
    obtain ⟨⟨untraced, held, notRoot, _, tracerRoot, threads⟩, rfl⟩ := ran
    refine ⟨good.attach isProc notRoot (eq_false_of_ne_true untraced) held passed.2 tracerRoot
      threads, collected.set (fun _ => rfl) rfl ?_⟩
    intros; contradiction
  | attached pid =>
    obtain ⟨proc, isProc, ran⟩ := ran
    split at ran
    next tracer move =>
      have notRoot := good.ne_root_of_move isProc (by simp [move])
      cases ran
      refine ⟨good.attached isProc notRoot move, collected.set (fun _ => rfl) rfl ?_⟩
      have moves := (good.placed pid proc isProc notRoot).moves
      simp only [Proc.Moves, move] at moves
      exact fun _ isRoot => absurd isRoot moves.2.1
    · cases ran
  | detach pid =>
    obtain ⟨proc, isProc, allowed, rfl⟩ := ran
    exact ordered.setRead pid _
  | detachCut pid =>
    obtain ⟨proc, isProc, read, isRead, rfl⟩ := ran
    simp only [orderly, isProc, isRead, and_eq_true, beq_iff_eq, bne_iff_ne] at passed
    obtain ⟨⟨⟨⟨⟨still, traced⟩, notRoot⟩, isParent⟩, exited⟩, unedited⟩ := passed
    rw [restoreChildren_eq unedited, isParent]
    refine Ordered.setRead ⟨good.detach isProc notRoot traced still exited,
      collected.set (fun _ => rfl) rfl ?_⟩ pid none
    intros; contradiction
  | detachRead pid =>
    obtain ⟨proc, isProc, ran⟩ := ran
    split at ran
    · cases ran
      exact ordered.setRead pid _
    · cases ran
  | detached pid =>
    obtain ⟨proc, isProc, read, isRead, ran⟩ := ran
    simp only [orderly, isProc, isRead] at passed
    split at ran
    next target terminated move =>
      simp only [move, and_eq_true, beq_iff_eq] at passed
      rw [restoreChildren_eq passed.1, restorePtraced_eq passed.2] at ran
      cases ran
      exact (ordered.detached isProc move).setRead pid none
    · cases ran
  | reap pid =>
    obtain ⟨proc, isProc, ⟨zombie, own, parentRoot, notRoot, threads, linked⟩, rfl⟩ := ran
    have place := good.placed pid proc isProc notRoot
    refine ⟨good.reap isProc notRoot zombie own parentRoot
      ((place.children proc.parent).mp linked).1 threads, collected.set (fun _ => rfl) rfl ?_⟩
    intros; contradiction
  | reaped pid =>
    obtain ⟨proc, isProc, ran⟩ := ran
    split at ran
    next move =>
      have away : proc.move ≠ none := by simp [move]
      have notRoot := good.ne_root_of_move isProc away
      have place := good.placed pid proc isProc notRoot
      have moves := place.moves
      simp only [Proc.Moves, move] at moves
      have unreleased : s.released pid = 0 := by
        by_contra nonzero
        exact moves.2.2.2 (place.released nonzero).2.2.1
      cases ran
      have settled := good.settle isProc notRoot away (alive_root good) unreleased
      refine ⟨?_, collected.release (fun o differs => by simp [differs]) rfl unreleased⟩
      exact Good.release settled (if_pos rfl) rfl notRoot moves.2.1 rfl rfl rfl unreleased
    · cases ran
  | exit pid =>
    obtain ⟨proc, isProc, ⟨running, notRoot⟩, rfl⟩ := ran
    refine ⟨good.setStatus isProc notRoot (by rw [running]; decide) ?_ ?_ ?_ ?_,
      collected.set (fun _ => rfl) rfl ?_⟩
    · intros; contradiction
    · intros; contradiction
    · exact fun _ _ _ _ _ _ => rfl
    · intros; decide
    · intros; contradiction
  | threadsGone pid =>
    obtain ⟨proc, isProc, ⟨exiting, every⟩, ran⟩ := ran
    have notRoot := good.ne_root_of_status isProc (by rw [exiting]; decide)
    cases ran
    refine ⟨good.setStatus isProc notRoot (by rw [exiting]; decide) ?_ ?_ ?_ ?_,
      collected.set (fun _ => rfl) rfl ?_⟩
    · intros; contradiction
    · intros; contradiction
    · intro o found isFound _ moving _
      have idle := of_all good every isFound
      rcases moving with moving | ⟨moving, own⟩
      · simp [moving] at idle
      · simp [moving, own] at idle
    · intros; decide
    · intros; contradiction
  | closeReports pid =>
    obtain ⟨proc, isProc, ⟨exited, every⟩, ran⟩ := ran
    have notRoot := good.ne_root_of_status isProc (by rw [exited]; decide)
    cases ran
    refine ⟨good.setStatus isProc notRoot (by rw [exited]; decide) ?_ ?_ ?_ ?_,
      collected.set (fun _ => rfl) rfl ?_⟩
    · intros; contradiction
    · intros; contradiction
    · intro _ _ _ _ _ threads
      rw [exited] at threads
      cases threads
    · intro o found isFound _ traced still own
      have idle := of_all good every isFound
      simp [traced, still, own] at idle
    · intros; contradiction
  | handOver pid child =>
    obtain ⟨proc, isProc, ran⟩ := ran
    simp only [orderly, isProc, and_eq_true, or_eq_true, bne_iff_ne,
      not_eq_true'] at passed
    obtain ⟨⟨cleaning, real, _, notRoot⟩, ran⟩ := ran
    have res := ordered.handOver isProc notRoot cleaning real
      (move_of_still isProc passed.1) fun zombie => passed.2.resolve_left fun alive => alive zombie
    simp only [← apply_ite some, some.injEq] at ran
    exact ran ▸ res
  | finalize pid =>
    obtain ⟨proc, isProc, ran⟩ := ran
    simp only [orderly, isProc, or_eq_true, beq_iff_eq, and_eq_true,
      bne_iff_ne] at passed
    obtain ⟨⟨status, notRoot, cleaned⟩, ran⟩ := ran
    have res := ordered.finalize isProc notRoot status passed cleaned
    rw [← apply_ite some, some.injEq] at ran
    exact ran ▸ res
  | letGo pid =>
    obtain ⟨proc, isProc, ⟨zombie, _, untraced, notRoot⟩, ran⟩ := ran
    have untraced := eq_false_of_ne_true untraced
    split at ran
    next unreleased =>
      cases ran
      refine ⟨good.dropReference isProc notRoot zombie untraced unreleased,
        collected.set (fun _ => rfl) rfl ?_⟩
      exact fun _ isRoot still => collected pid proc isProc notRoot zombie isRoot still
    next nonzero =>
      cases ran
      have once := ((good.placed pid proc isProc notRoot).released nonzero).1
      refine ⟨good.vanish isProc notRoot zombie untraced (fun _ => rfl)
        { good.lists.unlink with } (by simp [free]) rfl ?_ rfl, ?_⟩
      · intro o
        split
        next same => exact same ▸ once
        · rfl
      · refine collected.change (fun _ => rfl) (fun _ _ => rfl) ?_
        intros; contradiction

end Ordered

/-! ## Runs -/

/-- Each process is in exactly the list of its parent, unless it is being moved; it is in the
list of its real parent exactly while it is traced, and otherwise both parents are the same.
What lists and parents name exists, and each process is released once: at most once before it
is freed or given to `pid1` as a zombie, and exactly once then. -/
structure State.Tree (state : State) : Prop where
  linked : ∀ pid proc, state.proc pid = some proc → pid ≠ pid1 → proc.move = none →
    ∀ parent, pid ∈ state.children parent ↔ parent = proc.parent
  once : ∀ parent, (state.children parent).Nodup ∧ (state.ptraced parent).Nodup
  ptraced : ∀ pid proc, state.proc pid = some proc → pid ≠ pid1 →
    ∀ parent, pid ∈ state.ptraced parent ↔ proc.traced = true ∧ parent = proc.ppid_parent
  own : ∀ pid proc, state.proc pid = some proc → pid ≠ pid1 → proc.traced = false →
    proc.parent = proc.ppid_parent
  listed : ∀ pid parent, pid ∈ state.children parent ∨ pid ∈ state.ptraced parent →
    state.proc pid ≠ none
  named : ∀ pid proc, state.proc pid = some proc → pid ≠ pid1 →
    state.proc proc.parent ≠ none ∧ state.proc proc.ppid_parent ≠ none
  released : ∀ pid, pid ≠ pid1 → state.released pid ≤ 1
  freed : ∀ pid ∈ state.pids, state.proc pid = none → state.released pid = 1
  collected : ∀ pid proc, state.proc pid = some proc → pid ≠ pid1 → proc.status = .zombie →
    proc.parent = pid1 → proc.move = none → state.released pid = 1

theorem State.exists_of_alive (alive : s.Alive pid) : s.proc pid ≠ none := by
  obtain ⟨proc, isProc, _⟩ := alive
  rw [isProc]
  exact some_ne_none _

theorem Ordered.tree (ordered : Ordered s) : s.Tree where
  linked pid proc isProc notRoot still parent := by
    rw [(ordered.good.placed pid proc isProc notRoot).children parent]
    exact and_iff_right still
  once parent := ⟨ordered.good.nodup parent, ordered.good.nodupPtraced parent⟩
  ptraced pid proc isProc notRoot := (ordered.good.placed pid proc isProc notRoot).ptraced
  own pid proc isProc notRoot := (ordered.good.placed pid proc isProc notRoot).own
  listed pid parent isListed isNone := by
    have absent := ordered.good.gone pid isNone parent
    exact isListed.elim absent.1 absent.2
  named pid proc isProc notRoot := by
    have place := ordered.good.placed pid proc isProc notRoot
    exact ⟨exists_of_alive place.parent, exists_of_alive place.ppid_parent⟩
  released pid notRoot := by
    cases isProc : s.proc pid with
    | none =>
      rw [ordered.good.freed pid isProc]
      split <;> omega
    | some proc =>
      by_contra more
      have := ((ordered.good.placed pid proc isProc notRoot).released (by omega)).1
      omega
  freed pid isKnown isNone := by
    rw [ordered.good.freed pid isNone, if_pos isKnown]
  collected := ordered.collected

end McKernel.ProcessTree
