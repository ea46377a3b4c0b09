import McKernel.Lib.Machine

/-!
# Events that count ticks

`perf_start`, `perf_stop`, `perf_reset` and `perf_event_read_value` of `kernel/syscall.c` for a
group of events of the calling thread.  An event with `use_invariant_tsc` is computed from the
tick counters of the thread; beside it stands the counter that it should be.
-/

namespace McKernel.Perf

/-- `base_*_tsc`, `stopped_*_tsc` and `*_accum_count`, for user or for system mode. -/
structure Clock where
  base : BitVec 64 := 0
  stopped : BitVec 64 := 0
  accum : BitVec 64 := 0
  deriving DecidableEq, Repr

namespace Clock

def start (clock : Clock) (tsc : BitVec 64) : Clock :=
  if clock.stopped ≠ 0 then ⟨tsc, 0, clock.accum + (clock.stopped - clock.base)⟩
  else { clock with base := tsc }

def stop (clock : Clock) (tsc : BitVec 64) : Clock :=
  if clock.stopped = 0 then { clock with stopped := tsc } else clock

def current (clock : Clock) (tsc : BitVec 64) : BitVec 64 :=
  if clock.stopped ≠ 0 then clock.stopped else tsc

def reset (clock : Clock) (tsc : BitVec 64) : Clock :=
  { clock with base := clock.current tsc, accum := 0 }

def value (clock : Clock) (tsc : BitVec 64) : BitVec 64 :=
  clock.current tsc - clock.base + clock.accum

end Clock

/-- `struct mc_perf_event` with `pid` 0 and an allocated counter, which passes the mask checks. -/
structure Event where
  useInvariantTsc : Bool
  excludeUser : Bool
  excludeKernel : Bool
  inherit_ : Bool
  active : Bool := false
  user : Clock := {}
  system : Clock := {}
  count : BitVec 64 := 0
  childCountTotal : BitVec 64 := 0
  deriving DecidableEq, Repr

/-- `user_tsc` and `system_tsc` of the thread; the fields of an event have 64 bits. -/
structure Tsc where
  user : Nat
  system : Nat
  deriving DecidableEq, Repr

namespace Event

/-- The effect on both clocks, which other events do not use. -/
def clocks (event : Event) (tsc : Tsc) (change : Clock → BitVec 64 → Clock) : Event :=
  if event.useInvariantTsc then
    { event with
      user := change event.user (.ofNat 64 tsc.user)
      system := change event.system (.ofNat 64 tsc.system) }
  else event

def perfStart (event : Event) (tsc : Tsc) : Event :=
  if event.active then event else { event.clocks tsc Clock.start with active := true }

def perfStop (event : Event) (tsc : Tsc) : Event :=
  if event.active then { event.clocks tsc Clock.stop with active := false } else event

/-- The count of an event of the hardware is cleared. -/
def perfReset (event : Event) (tsc : Tsc) : Event :=
  if event.useInvariantTsc then event.clocks tsc Clock.reset else { event with count := 0 }

def perfEventReadValue (event : Event) (tsc : Tsc) : BitVec 64 :=
  let pmcCount : BitVec 64 :=
    if event.useInvariantTsc then
      (if event.excludeUser then 0 else event.user.value (.ofNat 64 tsc.user)) +
        if event.excludeKernel then 0 else event.system.value (.ofNat 64 tsc.system)
    else 0
  event.count + pmcCount + if event.inherit_ then event.childCountTotal else 0

end Event

/-- The counter that an event stands for: the ticks since the last reset while it was enabled,
and whether it has ever been enabled. -/
structure Counter where
  enabled : Bool := false
  started : Bool := false
  user : Nat := 0
  system : Nat := 0
  deriving DecidableEq, Repr

/-- A group with its leader, and the thread. -/
structure State where
  tsc : Tsc
  group : List (Event × Counter)
  deriving DecidableEq, Repr

inductive Op where
  /-- `perf_event_open`. -/
  | add (useInvariantTsc excludeUser excludeKernel inherit_ : Bool)
  | enable
  | disable
  | reset
  /-- The thread runs. -/
  | tick (user system : Nat)
  deriving DecidableEq, Repr

def State.each (state : State) (change : Event → Event) (count : Counter → Counter) : State :=
  { state with group := state.group.map (Prod.map change count) }

def exec (state : State) : Op → State
  | .add useInvariantTsc excludeUser excludeKernel inherit_ =>
    { state with group :=
        state.group ++ [({ useInvariantTsc, excludeUser, excludeKernel, inherit_ }, {})] }
  | .enable =>
    state.each (·.perfStart state.tsc) ({ · with enabled := true, started := true })
  | .disable => state.each (·.perfStop state.tsc) ({ · with enabled := false })
  | .reset => state.each (·.perfReset state.tsc) ({ · with user := 0, system := 0 })
  | .tick user system =>
    { state with tsc := ⟨state.tsc.user + user, state.tsc.system + system⟩ }.each id fun counter =>
      { counter with
        user := if counter.enabled then counter.user + user else counter.user
        system := if counter.enabled then counter.system + system else counter.system }

/-- A thread with any counters that has no events yet. -/
def machine : Machine State Op where
  init state := state.group = []
  step state op next := exec state op = next

/-- When an event is disabled, the counters of its modes are not zero. -/
def nonzero (state : State) : Op → Bool
  | .disable => state.group.all fun (event, _) =>
    !event.active || !event.useInvariantTsc ||
      (event.excludeUser || BitVec.ofNat 64 state.tsc.user != 0) &&
        (event.excludeKernel || BitVec.ofNat 64 state.tsc.system != 0)
  | _ => true

/-- `nonzero` as a proposition. -/
def Nonzero (state : State) (op : Op) : Prop := nonzero state op = true

/-! ## Clocks -/

/-- A clock that stands for a number of ticks before it is started, while it runs, and after
it has been stopped. -/
inductive Clock.Counts (clock : Clock) (tsc ticks : Nat) : (enabled started : Bool) → Prop where
  | fresh (stopped : clock.stopped = 0) (accum : clock.accum = 0) (none : ticks = 0) :
      Counts clock tsc ticks false false
  | running (stopped : clock.stopped = 0)
      (value : .ofNat 64 tsc - clock.base + clock.accum = .ofNat 64 ticks) :
      Counts clock tsc ticks true true
  | halted (stopped : clock.stopped ≠ 0)
      (value : clock.stopped - clock.base + clock.accum = .ofNat 64 ticks) :
      Counts clock tsc ticks false true

namespace Clock.Counts

variable {clock : Clock} {enabled started : Bool} {tsc ticks : Nat}

theorem tick (counts : clock.Counts tsc ticks enabled started) (more : Nat) :
    clock.Counts (tsc + more) (if enabled then ticks + more else ticks) enabled started := by
  cases counts with
  | fresh stopped accum none => exact .fresh stopped accum none
  | running stopped value =>
    refine .running stopped ?_
    rw [if_pos rfl, BitVec.ofNat_add, BitVec.ofNat_add, ← value]
    ring
  | halted stopped value => exact .halted stopped value

theorem start (counts : clock.Counts tsc ticks false started) :
    (clock.start (.ofNat 64 tsc)).Counts tsc ticks true true := by
  cases counts with
  | fresh stopped accum none =>
    rw [Clock.start, if_neg (not_not.mpr stopped)]
    exact .running stopped (by simp [accum, none])
  | halted stopped value =>
    rw [Clock.start, if_pos stopped]
    refine .running rfl ?_
    rw [← value]
    ring

theorem again (counts : clock.Counts tsc ticks true started) :
    clock.Counts tsc ticks true true := by
  cases counts with
  | running stopped value => exact .running stopped value

theorem stop (counts : clock.Counts tsc ticks true started)
    (nonzero : BitVec.ofNat 64 tsc ≠ 0) :
    (clock.stop (.ofNat 64 tsc)).Counts tsc ticks false started := by
  cases counts with
  | running stopped value =>
    rw [Clock.stop, if_pos stopped]
    exact .halted nonzero value

theorem reset (counts : clock.Counts tsc ticks enabled started) :
    (clock.reset (.ofNat 64 tsc)).Counts tsc 0 enabled started := by
  cases counts with
  | fresh stopped _ _ => exact .fresh stopped rfl rfl
  | running stopped _ =>
    refine .running stopped ?_
    rw [Clock.reset, current, if_neg (not_not.mpr stopped), sub_self]
    rfl
  | halted stopped _ =>
    refine .halted stopped ?_
    rw [Clock.reset, current, if_pos stopped, sub_self]
    rfl

theorem value {exclude : Bool} (counts : exclude = false → clock.Counts tsc ticks enabled true) :
    (if exclude then 0 else clock.value (.ofNat 64 tsc)) =
      BitVec.ofNat 64 (if exclude then 0 else ticks) := by
  cases exclude with
  | true => rfl
  | false =>
    rw [if_neg Bool.false_ne_true, if_neg Bool.false_ne_true, Clock.value, current]
    cases counts rfl with
    | running stopped value => rwa [if_neg (not_not.mpr stopped)]
    | halted stopped value => rwa [if_pos stopped]

end Clock.Counts

/-! ## Groups -/

/-- An event of ticks beside its counter, in the modes that it counts. -/
structure Tracks (tsc : Tsc) (event : Event) (counter : Counter) : Prop where
  active : event.active = counter.enabled
  user : event.excludeUser = false →
    event.user.Counts tsc.user counter.user counter.enabled counter.started
  system : event.excludeKernel = false →
    event.system.Counts tsc.system counter.system counter.enabled counter.started
  count : event.count = 0
  children : event.childCountTotal = 0

/-- Counters of the invariant TSC track their ticks. -/
def Sound (state : State) : Prop :=
  ∀ event counter, (event, counter) ∈ state.group → event.useInvariantTsc = true →
    Tracks state.tsc event counter

theorem Sound.each {s : State} (sound : Sound s) {tsc : Tsc}
    {change : Event → Event} {count : Counter → Counter}
    (kept : ∀ event, (change event).useInvariantTsc = event.useInvariantTsc)
    (tracks : ∀ event counter, (event, counter) ∈ s.group → event.useInvariantTsc = true →
      Tracks s.tsc event counter → Tracks tsc (change event) (count counter)) :
    Sound ({ s with tsc := tsc }.each change count) := by
  intro event counter isEvent counts
  obtain ⟨⟨old, oldCounter⟩, isOld, same⟩ := List.mem_map.mp isEvent
  cases same
  rw [kept] at counts
  exact tracks old oldCounter isOld counts (sound old oldCounter isOld counts)

theorem Sound.exec {s : State} (sound : Sound s) {op : Op} (nonzero : Nonzero s op) :
    Sound (Perf.exec s op) := by
  cases op with
  | add useInvariantTsc excludeUser excludeKernel inherit_ =>
    intro event counter isEvent counts
    rcases List.mem_append.mp isEvent with old | new
    · exact sound event counter old counts
    · cases List.mem_singleton.mp new
      exact ⟨rfl, fun _ => .fresh rfl rfl rfl, fun _ => .fresh rfl rfl rfl, rfl, rfl⟩
  | enable =>
    refine sound.each (fun event => ?_) fun event counter _ counts tracks => ?_
    · unfold Event.perfStart Event.clocks
      split_ifs <;> rfl
    · obtain ⟨active, user, system, count, children⟩ := tracks
      unfold Event.perfStart
      split
      next on =>
        rw [← active, on] at user system
        exact ⟨on, fun counted => (user counted).again, fun counted => (system counted).again,
          count, children⟩
      next off =>
        rw [← active, Bool.eq_false_of_not_eq_true off] at user system
        simp only [Event.clocks, counts, if_true]
        exact ⟨rfl, fun counted => (user counted).start, fun counted => (system counted).start,
          count, children⟩
  | disable =>
    refine sound.each (fun event => ?_) fun event counter isEvent counts tracks => ?_
    · unfold Event.perfStop Event.clocks
      split_ifs <;> rfl
    · obtain ⟨active, user, system, count, children⟩ := tracks
      unfold Event.perfStop
      split
      next on =>
        have counters := List.all_eq_true.mp nonzero _ isEvent
        simp only [on, counts, Bool.not_true, Bool.false_or, Bool.and_eq_true, Bool.or_eq_true,
          bne_iff_ne] at counters
        rw [← active, on] at user system
        simp only [Event.clocks, counts, if_true]
        refine ⟨rfl, fun counted => (user counted).stop ?_, fun counted => (system counted).stop ?_,
          count, children⟩
        · exact counters.1.resolve_left (ne_true_of_eq_false counted)
        · exact counters.2.resolve_left (ne_true_of_eq_false counted)
      next off =>
        have off := Bool.eq_false_of_not_eq_true off
        rw [← active, off] at user system
        exact ⟨off, user, system, count, children⟩
  | reset =>
    refine sound.each (fun event => ?_) fun event counter _ counts tracks => ?_
    · unfold Event.perfReset Event.clocks
      split_ifs <;> rfl
    · obtain ⟨active, user, system, count, children⟩ := tracks
      simp only [Event.perfReset, Event.clocks, counts, if_true]
      exact ⟨active, fun counted => (user counted).reset, fun counted => (system counted).reset,
        count, children⟩
  | tick more moreSystem =>
    refine sound.each (fun _ => rfl) fun event counter _ counts tracks => ?_
    exact ⟨tracks.active, fun counted => (tracks.user counted).tick more,
      fun counted => (tracks.system counted).tick moreSystem, tracks.count, tracks.children⟩

/-- If an event is disabled only while the counters of its modes are not zero, its value is the
number of ticks while it was enabled, from the time on when it has first been enabled. -/
theorem ticks_counted {state : State} (reached : (machine.restrict Nonzero).Reachable state)
    {event : Event} {counter : Counter} (isEvent : (event, counter) ∈ state.group)
    (counts : event.useInvariantTsc = true) (started : counter.started = true) :
    event.perfEventReadValue state.tsc = .ofNat 64
      ((if event.excludeUser then 0 else counter.user) +
        if event.excludeKernel then 0 else counter.system) := by
  have sound : Sound state := by
    refine reached.invariant Sound ?_ ?_
    · rintro state empty event counter isEvent
      rw [show state.group = [] from empty] at isEvent
      cases isEvent
    · rintro state op next - sound ⟨nonzero, rfl⟩
      exact sound.exec nonzero
  obtain ⟨-, user, system, count, children⟩ := sound event counter isEvent counts
  rw [started] at user system
  rw [Event.perfEventReadValue, counts, if_pos rfl, Clock.Counts.value user,
    Clock.Counts.value system, count, children, BitVec.ofNat_add]
  simp

theorem init_idle : machine.init ⟨⟨0, 0⟩, []⟩ := rfl

theorem step_of_exec (s : State) (op : Op) (next : State)
    (ran : some (exec s op) = some next) : machine.step s op next :=
  Option.some.inj ran

/-- An event is started, stopped, reset and started again. -/
theorem ticks_counted_again : ∃ state, (machine.restrict Nonzero).Reachable state ∧
    ∃ event ∈ state.group, event.2.user = 4 ∧ event.1.perfEventReadValue state.tsc = 4 := by
  obtain ⟨state, reached, event, isEvent, counts, started, user, kernel, ticks⟩ : ∃ state,
      (machine.restrict Nonzero).Reachable state ∧ ∃ event ∈ state.group,
        event.1.useInvariantTsc = true ∧ event.2.started = true ∧ event.1.excludeUser = false ∧
        event.1.excludeKernel = true ∧ event.2.user = 4 :=
    Machine.exists_restrict_run (fun _ _ => id) init_idle step_of_exec
      [.add true false true false, .tick 1 1, .enable, .tick 2 2, .disable, .tick 3 3, .reset,
        .enable, .tick 4 4] (by decide +kernel)
  have value := ticks_counted reached isEvent counts started
  rw [user, kernel, ticks] at value
  exact ⟨state, reached, event, isEvent, ticks, value⟩

/-- An event that has never been enabled shows the counters of the thread; and one that is
disabled before the first tick goes on counting. -/
theorem ticks_miscounted :
    (∃ state, machine.Reachable state ∧ state.group.map (fun (event, counter) =>
      (event.useInvariantTsc, event.excludeKernel, counter.started, counter.user,
        event.perfEventReadValue state.tsc)) = [(true, true, false, 0, 5)]) ∧
    ∃ state, machine.Reachable state ∧ state.group.map (fun (event, counter) =>
      (event.useInvariantTsc, event.excludeKernel, counter.started, counter.user,
        event.perfEventReadValue state.tsc)) = [(true, true, true, 0, 5)] :=
  ⟨Machine.exists_run init_idle step_of_exec [.tick 5 0, .add true false true false]
      (by decide +kernel),
    Machine.exists_run init_idle step_of_exec
      [.add true false true false, .enable, .disable, .tick 5 0] (by decide +kernel)⟩

end McKernel.Perf
