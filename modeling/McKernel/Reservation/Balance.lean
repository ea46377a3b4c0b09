import McKernel.Reservation.Model

/-!
# Reservations are balanced

As long as every thread on its way to a run queue has been placed by `obtain_clone_cpuid`,
`runq_reserved` counts these threads and the scan finds a CPU of the set with the least
load.  With `use_last` the scan answers with a CPU only if the least load occurs twice.
-/

namespace McKernel.Reservation

open State

variable {load : Nat → Nat} {set : Nat → Bool} {processors : Nat}

/-! ## The scan -/

/-- The scan has seen no CPU of the set, or it knows the first CPU with the least load, and
the last one if there are several. -/
inductive Scanned (load : Nat → Nat) (set : Nat → Bool) (count : Nat) (scan : Scan) : Prop where
  | empty (noCpu : ∀ cpu < count, set cpu = false) (initial : scan = ⟨-1, none, none⟩)
  | found (best : Nat) (inside : best < count) (isSet : set best = true)
      (minCpu : scan.minCpu = some best) (minQueueLen : scan.minQueueLen = load best)
      (least : ∀ cpu < count, set cpu = true → load best ≤ load cpu)
      (last : ∀ tie < count, set tie = true → tie ≠ best → load tie = load best →
        ∃ uti < count, scan.utiCpu = some uti ∧ set uti = true ∧ load uti = load best)

theorem toInt_load {v : Nat} (small : v < 2 ^ 31) : CInt.toInt v = v :=
  CInt.toInt_of_range (by omega) (by omega)

theorem toULong_load {v : Nat} (small : v < 2 ^ 31) : CInt.toULong v = v := by
  have same := @CInt.toULong_of_range v (by omega) (by omega)
  omega

theorem visit_initial (cpu : Nat) {v : Nat} (small : v < 2 ^ 31) :
    (⟨-1, none, none⟩ : Scan).visit cpu v = ⟨v, some cpu, none⟩ := by
  simp [Scan.visit, toInt_load small]

section Visit

variable {scan : Scan} {best cpu v : Nat}

theorem visit_less (minQueueLen : scan.minQueueLen = (best : Int)) (bound : best < 2 ^ 31)
    (less : v < best) :
    scan.visit cpu v = { scan with minQueueLen := v, minCpu := some cpu } := by
  have small : v < 2 ^ 31 := Nat.lt_trans less bound
  simp [Scan.visit, minQueueLen, toULong_load bound, toInt_load small, less]

theorem visit_tie (minQueueLen : scan.minQueueLen = (best : Int)) (bound : best < 2 ^ 31)
    (o : scan.minCpu ≠ some cpu) (tie : v = best) :
    scan.visit cpu v = { scan with utiCpu := some cpu } := by
  have pos : ¬(best : Int) = -1 := by omega
  simp [Scan.visit, minQueueLen, toULong_load bound, tie, pos, o]

theorem visit_more (minQueueLen : scan.minQueueLen = (best : Int)) (bound : best < 2 ^ 31)
    (more : best < v) : scan.visit cpu v = scan := by
  have pos : ¬(best : Int) = -1 := by omega
  have notLess : ¬v < best := by omega
  have notSame : v ≠ best := by omega
  simp [Scan.visit, minQueueLen, toULong_load bound, pos, notLess, notSame]

end Visit

theorem scan_succ (count : Nat) :
    scan load set (count + 1) =
      if set count then (scan load set count).visit count (load count)
      else scan load set count := by
  simp [scan, List.range_succ]

theorem Scanned.skip {scan : Scan} (scanned : Scanned load set count scan)
    (absent : set count = false) : Scanned load set (count + 1) scan := by
  have below : ∀ cpu, cpu < count + 1 → set cpu = true → cpu < count := by
    intro cpu inside isSet
    have o : cpu ≠ count := fun same => by simp [same, absent] at isSet
    omega
  cases scanned with
  | empty noCpu initial =>
    refine .empty (fun cpu inside => ?_) initial
    by_contra isSet
    have isSet := eq_true_of_ne_false isSet
    rw [noCpu cpu (below cpu inside isSet)] at isSet
    cases isSet
  | found best inside isSet minCpu minQueueLen least last =>
    refine .found best (by omega) isSet minCpu minQueueLen ?_ ?_
    · exact fun cpu inside isSet => least cpu (below cpu inside isSet) isSet
    · intro tie inside isTie o same
      obtain ⟨uti, utiInside, isUti, rest⟩ := last tie (below tie inside isTie) isTie o same
      exact ⟨uti, by omega, isUti, rest⟩

theorem Scanned.visit {scan : Scan} (scanned : Scanned load set count scan)
    (small : ∀ cpu < count + 1, load cpu < 2 ^ 31) (isSet : set count = true) :
    Scanned load set (count + 1) (scan.visit count (load count)) := by
  have smallHere := small count (Nat.lt_succ_self count)
  cases scanned with
  | empty noCpu initial =>
    have only : ∀ cpu < count + 1, set cpu = true → cpu = count := by
      intro cpu inside isCpu
      by_contra o
      rw [noCpu cpu (by omega)] at isCpu
      cases isCpu
    rw [initial, visit_initial count smallHere]
    refine .found count (Nat.lt_succ_self count) isSet rfl rfl ?_ ?_
    · intro cpu inside isCpu
      exact Nat.le_of_eq (by rw [only cpu inside isCpu])
    · intro tie inside isTie o
      exact absurd (only tie inside isTie) o
  | found best inside isBest minCpu minQueueLen least last =>
    have bound := small best (by omega)
    rcases Nat.lt_trichotomy (load count) (load best) with less | tie | more
    · rw [visit_less minQueueLen bound less]
      have leastBelow : ∀ cpu < count, set cpu = true → load count < load cpu :=
        fun cpu inside isCpu => Nat.lt_of_lt_of_le less (least cpu inside isCpu)
      refine .found count (Nat.lt_succ_self count) isSet rfl rfl ?_ ?_
      · intro cpu inside isCpu
        by_cases same : cpu = count
        · exact Nat.le_of_eq (by rw [same])
        · exact Nat.le_of_lt (leastBelow cpu (by omega) isCpu)
      · intro o inside isOther notSame same
        have := leastBelow o (by omega) isOther
        omega
    · have notBest : scan.minCpu ≠ some count := by
        rw [minCpu]
        exact fun same => by
          have := Option.some.inj same
          omega
      rw [visit_tie minQueueLen bound notBest tie]
      refine .found best (by omega) isBest minCpu minQueueLen ?_ ?_
      · intro cpu inside isCpu
        by_cases same : cpu = count
        · exact Nat.le_of_eq (by rw [same, tie])
        · exact least cpu (by omega) isCpu
      · exact fun _ _ _ _ _ => ⟨count, Nat.lt_succ_self count, rfl, isSet, tie⟩
    · rw [visit_more minQueueLen bound more]
      refine .found best (by omega) isBest minCpu minQueueLen ?_ ?_
      · intro cpu inside isCpu
        by_cases same : cpu = count
        · rw [same]
          exact Nat.le_of_lt more
        · exact least cpu (by omega) isCpu
      · intro o inside isOther notSame same
        have below : o < count := by
          by_contra beyond
          have : o = count := by omega
          rw [this] at same
          omega
        obtain ⟨uti, utiInside, isUti, rest⟩ := last o below isOther notSame same
        exact ⟨uti, by omega, isUti, rest⟩

theorem scanned_scan (small : ∀ cpu < processors, load cpu < 2 ^ 31) :
    Scanned load set processors (scan load set processors) := by
  induction processors with
  | zero => exact .empty (fun cpu inside => absurd inside (Nat.not_lt_zero cpu)) rfl
  | succ count ih =>
    have before := ih fun cpu inside => small cpu (by omega)
    rw [scan_succ]
    cases isSet : set count with
    | false => simpa using before.skip isSet
    | true => simpa using before.visit small isSet

namespace State

variable (state s : State)

def Allowed (set : Nat → Bool) (cpu : Nat) : Prop := cpu < state.processors ∧ set cpu = true

def threads (cpu : Nat) : Nat := (state.cpus cpu).runqLen + (state.cpus cpu).runqReserved

/-- A CPU of the set with the smallest `runq_len + runq_reserved`. -/
def IsMinimal (set : Nat → Bool) (cpu : Nat) : Prop :=
  state.Allowed set cpu ∧
    ∀ other < state.processors, set other = true → state.threads cpu ≤ state.threads other

/-- The smallest `runq_len + runq_reserved` occurs twice in the set. -/
def Tied (set : Nat → Bool) : Prop :=
  ∃ first < state.processors, ∃ second < state.processors, first ≠ second ∧
    state.IsMinimal set first ∧ state.IsMinimal set second

instance (set : Nat → Bool) (cpu : Nat) : Decidable (state.Allowed set cpu) :=
  inferInstanceAs (Decidable (_ ∧ _))

instance (set : Nat → Bool) (cpu : Nat) : Decidable (state.IsMinimal set cpu) :=
  inferInstanceAs (Decidable (_ ∧ _))

instance (set : Nat → Bool) : Decidable (state.Tied set) := by
  unfold Tied
  infer_instance

end State

theorem obtainCloneCpuid_spec {s : State} (small : ∀ cpu, s.threads cpu < 2 ^ 31)
    (set : Nat → Bool) (useLast : Bool) (tied : useLast = true → s.Tied set) :
    (∀ cpu, (s.obtainCloneCpuid set useLast).1 = some cpu → s.IsMinimal set cpu) ∧
      ((s.obtainCloneCpuid set useLast).1 = none → ∀ cpu, ¬s.Allowed set cpu) := by
  have loads : ∀ cpu, s.load cpu = s.threads cpu := fun cpu => by
    have := small cpu
    rw [threads] at this
    rw [load, Cpu.load, threads]
    omega
  have answer : (s.obtainCloneCpuid set useLast).1 =
      choose s.load set s.processors useLast := by
    rw [obtainCloneCpuid]
    split <;> simp_all
  rw [answer, choose]
  have scanned : Scanned s.load set s.processors
      (scan s.load set s.processors) :=
    scanned_scan fun cpu _ => by
      rw [loads]
      exact small cpu
  cases scanned with
  | empty noCpu initial =>
    have nothing : ∀ cpu, ¬s.Allowed set cpu := fun cpu allowed => by
      have absent := noCpu cpu allowed.1
      rw [allowed.2] at absent
      cases absent
    refine ⟨fun cpu found => ?_, fun _ => nothing⟩
    rw [initial] at found
    cases useLast <;> simp at found
  | found best inside isSet minCpu minQueueLen least last =>
    have least : ∀ cpu < s.processors, set cpu = true →
        s.threads best ≤ s.threads cpu := fun cpu inside isCpu => by
      rw [← loads, ← loads]
      exact least cpu inside isCpu
    cases useLast with
    | false =>
      rw [if_neg Bool.false_ne_true, minCpu]
      refine ⟨fun cpu found => ?_, nofun⟩
      cases found
      exact ⟨⟨inside, isSet⟩, least⟩
    | true =>
      obtain ⟨first, _, second, _, ne, isFirst, isSecond⟩ := tied rfl
      -- One of the two minimal CPUs is not the one that was found first.
      obtain ⟨tie, isTie, o⟩ : ∃ tie, s.IsMinimal set tie ∧ tie ≠ best := by
        by_cases same : first = best
        · exact ⟨second, isSecond, fun isBest => ne (same.trans isBest.symm)⟩
        · exact ⟨first, isFirst, same⟩
      have equal : s.load tie = s.load best := by
        rw [loads, loads]
        exact Nat.le_antisymm (isTie.2 best inside isSet) (least tie isTie.1.1 isTie.1.2)
      obtain ⟨uti, utiInside, isUti, utiSet, utiLoad⟩ :=
        last tie isTie.1.1 isTie.1.2 o equal
      rw [if_pos rfl, isUti]
      refine ⟨fun cpu found => ?_, nofun⟩
      cases found
      rw [loads, loads] at utiLoad
      refine ⟨⟨utiInside, utiSet⟩, ?_⟩
      rw [utiLoad]
      exact least

/-! ## The balance -/

/-- The condition on the steps: no helper threads, a tie for `use_last`, and no CPU that
gets 2^31 threads. -/
def Regular (state : State) : Op → Prop
  | .place set useLast =>
    (useLast = true → state.Tied set) ∧ ∀ cpu < state.processors, state.threads cpu + 1 < 2 ^ 31
  | .placeHelper _ => False
  | .migrate _ target => state.threads target + 1 < 2 ^ 31
  | .enqueue _ | .abandon _ | .leave _ => True

/-- A CPU has one reservation for each thread it awaits. -/
structure Balanced (state : State) : Prop where
  reserved : ∀ cpu, (state.cpus cpu).runqReserved = state.awaited cpu
  placed : ∀ placement ∈ state.placements, placement.helper = false
  small : ∀ cpu, state.threads cpu < 2 ^ 31

namespace Balanced

variable {state s next : State} {cpu : Nat} {v : Cpu}

theorem change (balanced : Balanced s) (placements : List Placement)
    (awaited : ∀ o, placements.count ⟨o, false⟩ =
      if o = cpu then v.runqReserved else s.awaited o)
    (placed : ∀ placement ∈ placements, placement.helper = false)
    (small : v.runqLen + v.runqReserved < 2 ^ 31) :
    Balanced { s.setCpu cpu v with placements := placements } where
  reserved o := by
    rw [State.awaited, awaited o]
    by_cases same : o = cpu
    · simp [State.setCpu, same]
    · simpa [setCpu, same] using balanced.reserved o
  placed := placed
  small o := by
    by_cases same : o = cpu
    · simpa [threads, setCpu, same] using small
    · simpa [threads, setCpu, same] using balanced.small o

theorem finish (balanced : Balanced s) (found : placement ∈ s.placements)
    (reserved : v.runqReserved + 1 = (s.cpus placement.cpu).runqReserved)
    (small : v.runqLen + v.runqReserved < 2 ^ 31) :
    Balanced ((s.drop placement).setCpu placement.cpu v) := by
  have isPlaced : placement = ⟨placement.cpu, false⟩ := by
    rw [← balanced.placed placement found]
  refine balanced.change (s.placements.erase placement) (fun o => ?_)
    (fun o isOther => balanced.placed o (List.mem_of_mem_erase isOther)) small
  rw [balanced.reserved placement.cpu, awaited] at reserved
  by_cases same : o = placement.cpu
  · subst same
    rw [if_pos rfl, ← isPlaced, List.count_erase_self]
    rw [← isPlaced] at reserved
    omega
  · have ne : (⟨o, false⟩ : Placement) ≠ placement := fun equal =>
      same (congrArg Placement.cpu equal)
    rw [if_neg same, List.count_erase_of_ne ne, awaited]

theorem reserved_pos (balanced : Balanced s) (found : placement ∈ s.placements) :
    0 < (s.cpus placement.cpu).runqReserved := by
  have isPlaced : placement = ⟨placement.cpu, false⟩ := by
    rw [← balanced.placed placement found]
  rw [balanced.reserved, awaited, ← isPlaced]
  exact List.count_pos_iff.mpr found

theorem unreserve_of_pos (pos : 0 < v.runqReserved) (small : v.runqReserved < 2 ^ 31) :
    v.unreserve.runqReserved + 1 = v.runqReserved := by
  have r := @CInt.toULong_of_range ((v.runqReserved : Int) - 1) (by omega) (by omega)
  simp only [Cpu.unreserve]
  omega

theorem setCpu (balanced : Balanced s)
    (reserved : v.runqReserved = (s.cpus cpu).runqReserved)
    (small : v.runqLen + v.runqReserved < 2 ^ 31) :
    Balanced (s.setCpu cpu v) := by
  refine balanced.change s.placements (fun o => ?_) balanced.placed small
  split
  next same => rw [same, reserved, balanced.reserved, awaited]
  · rfl

theorem place (balanced : Balanced s) {set : Nat → Bool} {useLast : Bool}
    (regular : Regular s (.place set useLast))
    (ran : exec s (.place set useLast) = some next) : Balanced next := by
  have spec := obtainCloneCpuid_spec balanced.small set useLast regular.1
  simp only [exec, obtainCloneCpuid] at ran
  simp only [obtainCloneCpuid] at spec
  cases chosen : choose s.load set s.processors useLast with
  | none =>
    rw [chosen] at ran
    cases ran
    exact balanced
  | some cpu =>
    rw [chosen] at ran spec
    cases ran
    have inside := (spec.1 cpu rfl).1.1
    have room := regular.2 cpu inside
    rw [threads] at room
    have reserve : (s.cpus cpu).reserve.runqReserved =
        (s.cpus cpu).runqReserved + 1 :=
      Nat.mod_eq_of_lt (by omega)
    refine balanced.change (⟨cpu, false⟩ :: s.placements) (fun o => ?_) ?_ ?_
    · rw [reserve, balanced.reserved]
      by_cases same : o = cpu
      · rw [if_pos same, same, List.count_cons_self, awaited]
      · have ne : (⟨cpu, false⟩ : Placement) ≠ ⟨o, false⟩ := fun equal =>
          same (congrArg Placement.cpu equal).symm
        rw [if_neg same, List.count_cons_of_ne ne, awaited]
    · intro placement isPlacement
      rcases List.mem_cons.mp isPlacement with rfl | isPlacement
      · rfl
      · exact balanced.placed placement isPlacement
    · rw [reserve]
      simp only [Cpu.reserve]
      omega

theorem exec_balanced (balanced : Balanced s) (regular : Regular s op)
    (ran : exec s op = some next) : Balanced next := by
  cases op with simp only [exec, Option.ite_none_right_eq_some, Option.some.injEq] at ran
  | place set useLast => exact balanced.place regular ran
  | placeHelper cpu => exact absurd regular id
  | enqueue placement =>
    obtain ⟨found, rfl⟩ := ran
    have small := balanced.small placement.cpu
    rw [State.threads] at small
    have added : (s.cpus placement.cpu).addThread.runqLen =
        (s.cpus placement.cpu).runqLen + 1 := Nat.mod_eq_of_lt (by omega)
    have less : (s.cpus placement.cpu).addThread.unreserve.runqReserved + 1 =
        (s.cpus placement.cpu).runqReserved :=
      unreserve_of_pos (balanced.reserved_pos found) (by simp only [Cpu.addThread]; omega)
    refine balanced.finish found less ?_
    change (s.cpus placement.cpu).addThread.runqLen + _ < _
    simp only [State.drop]
    omega
  | abandon placement =>
    obtain ⟨found, rfl⟩ := ran
    have small := balanced.small placement.cpu
    rw [State.threads] at small
    have less : (s.cpus placement.cpu).release.runqReserved + 1 =
        (s.cpus placement.cpu).runqReserved :=
      unreserve_of_pos (balanced.reserved_pos found) (by simp only; omega)
    refine balanced.finish found less ?_
    change (s.cpus placement.cpu).runqLen + _ < _
    simp only [State.drop]
    omega
  | leave cpu =>
    obtain ⟨_, rfl⟩ := ran
    have small := balanced.small cpu
    rw [State.threads] at small
    refine balanced.setCpu rfl ?_
    simp only [Cpu.dropThread]
    omega
  | migrate source target =>
    obtain ⟨_, rfl⟩ := ran
    have small := balanced.small source
    rw [State.threads] at small
    have left : Balanced (s.setCpu source (s.cpus source).dropThread) := by
      refine balanced.setCpu rfl ?_
      simp only [Cpu.dropThread]
      omega
    refine left.setCpu rfl ?_
    have room : s.threads target + 1 < 2 ^ 31 := regular
    rw [State.threads] at room
    by_cases same : target = source
    · simp only [same, State.setCpu, Function.update_self, Cpu.addThread, Cpu.dropThread]
      omega
    · simp only [State.setCpu, Function.update_of_ne same, Cpu.addThread]
      omega

end Balanced

theorem balanced_of_reachable {s : State}
    (reached : (machine.restrict Regular).Reachable s) : Balanced s := by
  refine reached.invariant Balanced ?_ ?_
  · rintro start ⟨cpus, placements⟩
    refine ⟨fun cpu => ?_, fun placement isPlacement => ?_, fun cpu => ?_⟩
    · rw [cpus, awaited, placements, List.count_nil]
    · rw [placements] at isPlacement
      cases isPlacement
    · rw [threads, cpus]
      decide
  · intro s op next _ balanced taken
    exact balanced.exec_balanced taken.1 taken.2

/-- In every run without helper threads, `runq_reserved` is the number of threads that have
been placed on the CPU and are neither in its run queue nor abandoned, and
`obtain_clone_cpuid` finds a CPU of the set with the smallest sum of both numbers if there is
a CPU in the set. -/
theorem reservations_balanced {state : State}
    (reached : (machine.restrict Regular).Reachable state) :
    (∀ cpu, (state.cpus cpu).runqReserved = state.awaited cpu) ∧
      ∀ set useLast, (useLast = true → state.Tied set) →
        (∀ cpu, (state.obtainCloneCpuid set useLast).1 = some cpu → state.IsMinimal set cpu) ∧
          ((state.obtainCloneCpuid set useLast).1 = none → ∀ cpu, ¬state.Allowed set cpu) := by
  have balanced := balanced_of_reachable reached
  exact ⟨balanced.reserved, fun set useLast tied =>
    obtainCloneCpuid_spec balanced.small set useLast tied⟩

/-! ## Runs -/

def boot (processors : Nat) : State := ⟨processors, fun _ => ⟨0, 0, .idle⟩, []⟩

theorem initial_boot (processors : Nat) : machine.init (boot processors) :=
  ⟨fun _ => rfl, rfl⟩

instance (state : State) (op : Op) : Decidable (Regular state op) := by
  cases op <;> unfold Regular <;> infer_instance

/-- A process is started on the first of two CPUs, a clone fails and another one is under
way on the second. -/
theorem reservations_balanced_clone :
    ∃ state, (machine.restrict Regular).Reachable state ∧ (state.cpus 0).runqLen = 1 ∧
      (state.cpus 1).runqReserved = 1 ∧ (state.cpus 1).runqReserved = state.awaited 1 := by
  obtain ⟨state, reached, isPlaced⟩ : ∃ state, (machine.restrict Regular).Reachable state ∧
      (state.cpus 0).runqLen = 1 ∧ (state.cpus 1).runqReserved = 1 :=
    Machine.exists_restrict_run (fun _ _ => of_decide_eq_true) (initial_boot 2) (fun _ _ _ => id)
      [.place (fun _ => true) true, .abandon ⟨1, false⟩, .place (fun _ => true) false,
        .enqueue ⟨0, false⟩, .place (fun _ => true) false] (by decide +kernel)
  exact ⟨state, reached, isPlaced.1, isPlaced.2, (reservations_balanced reached).1 1⟩

/-- A helper thread is taken off a count it was never part of.  With `use_last` a CPU is
answered although another one of the set has fewer threads, or no CPU although the set has
one. -/
theorem reservations_unbalanced :
    (∃ state, machine.Reachable state ∧ state.placements = [] ∧
      (state.cpus 0).runqReserved = 2 ^ 64 - 1) ∧
    (∃ state, machine.Reachable state ∧ state.Allowed (fun _ => true) 2 ∧
      (state.obtainCloneCpuid (fun _ => true) true).1 = some 1 ∧
      state.threads 2 < state.threads 1) ∧
    ∃ state, machine.Reachable state ∧ state.Allowed (fun _ => true) 0 ∧
      (state.obtainCloneCpuid (fun _ => true) true).1 = none :=
  ⟨Machine.exists_run (initial_boot 1) (fun _ _ _ => id) [.placeHelper 0, .enqueue ⟨0, true⟩]
      (by decide +kernel),
    Machine.exists_run (initial_boot 3) (fun _ _ _ => id)
      [.place (· == 0) false, .enqueue ⟨0, false⟩, .place (· == 1) false, .enqueue ⟨1, false⟩]
      (by decide +kernel),
    Machine.exists_run (initial_boot 1) (fun _ _ _ => id) [] (by decide +kernel)⟩

end McKernel.Reservation
