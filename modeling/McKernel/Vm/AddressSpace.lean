import McKernel.Lib.Machine
import McKernel.Vm.SystemCalls

/-!
# Runs of an address space

An address space is edited by calls of the range functions.  Their callers check most of
the arguments; what they let through is stated here call by call.  `brk` and `mremap`
are taken whole, since they pass on bounds that nobody has checked.
-/

namespace McKernel.Vm

open ProcessVm Extent

variable {env : Env} {fuel : Nat} {vm : ProcessVm}

/-- What can happen to an address space. `setStraight` and `straightMapping` are the stores
of `do_mmap` that set up straight mappings. -/
inductive Op where
  | add (start end_ : Nat) (phys : Option Nat) (flag memobj offset pgshift : Nat)
  | remove (start end_ : Nat)
  | split (range addr : Nat)
  | join (surviving merging : Nat)
  | extendUp (range newend : Nat)
  | changeProt (range protflag : Nat)
  | setStraight (range straightStart : Nat)
  | straightMapping (va len : Nat)
  | brk (address : Nat)
  | mremap (call : MremapCall)

/-- The arguments that the system calls let through. Bounds are page aligned; nobody makes
sure that the bounds of a new range do not wrap around. -/
def LetThrough (vm : ProcessVm) : Op → Prop
  | .add start end_ _ _ _ _ _ => pageSize ∣ start ∧ pageSize ∣ end_
  | .remove start end_ => pageSize ∣ start ∧ pageSize ∣ end_
  | .split range addr =>
    range ∈ vm.live ∧ (vm.ranges range).start < addr ∧ addr < (vm.ranges range).end_ ∧
      pageSize ∣ addr
  | .join surviving merging => surviving ∈ vm.live ∧ merging ∈ vm.live
  | .extendUp range newend => range ∈ vm.live ∧ pageSize ∣ newend
  | .changeProt range _ => range ∈ vm.live
  | .setStraight range straightStart => range ∈ vm.live ∧ pageSize ∣ straightStart
  | .straightMapping _ _ => True
  | .brk _ => True
  | .mremap _ => True

def exec (env : Env) (fuel : Nat) (vm : ProcessVm) : Op → Option ProcessVm
  | .add start end_ phys flag memobj offset pgshift =>
    some (addProcessMemoryRange env vm start end_ phys flag memobj offset pgshift).2
  | .remove start end_ => (removeProcessMemoryRange env fuel vm start end_).map Prod.snd
  | .split range addr => some (splitProcessMemoryRange env vm range addr).2
  | .join surviving merging => some (joinProcessMemoryRange vm surviving merging).2
  | .extendUp range newend => some (extendUpProcessMemoryRange vm range newend).2
  | .changeProt range protflag => some (changeProtProcessMemoryRange env vm range protflag).2
  | .setStraight range straightStart =>
    some (vm.setStraightStart range straightStart)
  | .straightMapping va len => some { vm with straightVa := va, straightLen := len }
  | .brk address => some (brk env vm address).2
  | .mremap call => (mremap env fuel vm call).map Prod.snd

/-- An address space without ranges. -/
structure Empty (vm : ProcessVm) : Prop where
  tree : vm.vmRangeTree = .nil
  cache : vm.rangeCache = List.replicate rangeCacheSize none
  region : vm.region.Valid

/-- All runs of an address space; every call may take any number of rounds. -/
def machine (env : Env) : Machine ProcessVm Op where
  init := Empty
  step vm op next := LetThrough vm op ∧ ∃ fuel, exec env fuel vm op = some next

/-- The new ranges lie in their regions. -/
def Sound (vm : ProcessVm) : Op → Prop
  | .add start end_ _ _ _ _ _ => start < end_
  | .brk address =>
    vm.region.brkStart ≤ address → vm.region.brkEnd ≤ address →
      vm.region.brkEndAllocated ≤ address → BrkFits vm address
  | .mremap call =>
    ∀ range ∈ vm.live, (vm.ranges range).start ≤ call.oldaddr →
      call.oldaddr < (vm.ranges range).end_ → MremapFits vm call range
  | _ => True

theorem invariant_of_empty (empty : Empty vm) : Invariant vm := by
  have nothing : vm.live = [] := by simp [live, empty.tree]
  refine ⟨⟨.of_live ?_ ?_, ?_, empty.region⟩, ?_⟩
  · simp [nothing]
  · simp [nothing]
  · simp [nothing]
  · simp [empty.cache]

theorem Invariant.setStraightStart {r straightStart : Nat} (inv : Invariant vm)
    (aligned : pageSize ∣ straightStart) :
    Invariant (vm.setStraightStart r straightStart) := by
  have entry : ∀ o, let stored := (vm.setStraightStart r straightStart).ranges o
      stored.start = (vm.ranges o).start ∧ stored.end_ = (vm.ranges o).end_ ∧
        (stored.straightStart = (vm.ranges o).straightStart ∨
          stored.straightStart = straightStart) := by
    intro o
    by_cases same : o = r
    · subst same
      simp [ProcessVm.setStraightStart, write]
    · simp [ProcessVm.setStraightStart, write, same]
  refine ⟨⟨.of_live ?_ ?_, ?_, inv.region⟩, inv.cached⟩
  · intro o linked
    obtain ⟨nonempty, lower, upper, startAligned, endAligned⟩ :=
      inv.wellFormed.valid_of_mem linked
    constructor <;> simp only [(entry o).1, (entry o).2.1] <;> assumption
  · refine inv.wellFormed.pairwise.imp fun {left right} apart => ?_
    rwa [(entry left).2.1, (entry right).1]
  · intro o linked
    rcases (entry o).2.2 with same | set
    · rw [same]
      exact inv.straight o linked
    · rw [set]
      exact aligned

theorem invariant_exec (inv : Invariant vm)
    (letThrough : LetThrough vm op) (sound : Sound vm op)
    (ran : exec env fuel vm op = some next) : Invariant next := by
  cases op with
  | add start end_ phys flag memobj off pgshift =>
    cases ran
    exact (add_spec inv sound letThrough.1 letThrough.2 rfl).invariant
  | remove start end_ =>
    obtain ⟨⟨res, vm₁⟩, called, rfl⟩ := Option.map_eq_some_iff.mp ran
    exact (remove_spec inv letThrough.1 letThrough.2 called).1
  | split r addr =>
    cases ran
    obtain ⟨linked, lower, upper, aligned⟩ := letThrough
    rcases split_spec inv linked lower upper aligned rfl with
      ⟨-, -, extends_, -⟩ | ⟨_, -, splits⟩
    · exact extends_.invariant
    · exact splits.invariant
  | join surviving merging =>
    cases ran
    exact join_spec inv letThrough.1 letThrough.2 rfl
  | extendUp r newend =>
    cases ran
    exact (extendUp_spec inv letThrough.1 letThrough.2 rfl).1
  | changeProt r protflag =>
    cases ran
    exact (changeProt_spec inv rfl).invariant
  | setStraight r straightStart =>
    cases ran
    exact inv.setStraightStart letThrough.2
  | straightMapping va len =>
    cases ran
    exact inv.of_sameLayout (.of_eq rfl rfl rfl) inv.cached
  | brk address =>
    cases ran
    exact brk_spec inv sound rfl
  | mremap call =>
    obtain ⟨⟨res, vm₁⟩, called, rfl⟩ := Option.map_eq_some_iff.mp ran
    exact mremap_spec inv sound called

instance (vm : ProcessVm) (op : Op) : Decidable (LetThrough vm op) := by
  cases op <;> unfold LetThrough <;> infer_instance

instance (vm : ProcessVm) (op : Op) : Decidable (Sound vm op) := by
  cases op <;> unfold Sound <;> infer_instance

variable {ops : List Op}

theorem reachable_of_run (reached : (machine env).Reachable vm)
    (res : Machine.run (fun vm op => decide (LetThrough vm op)) (exec env fuel) vm ops =
      some final) : (machine env).Reachable final := by
  refine Machine.reachable_of_run ?_ reached res
  intro vm op next passed ran
  exact ⟨of_decide_eq_true passed, fuel, ran⟩

theorem reachable_of_sound_run (reached : ((machine env).restrict Sound).Reachable vm)
    (res : Machine.run (fun vm op => decide (LetThrough vm op ∧ Sound vm op)) (exec env fuel)
      vm ops = some final) : ((machine env).restrict Sound).Reachable final := by
  refine Machine.reachable_of_run ?_ reached res
  intro vm op next passed ran
  obtain ⟨letThrough, sound⟩ := of_decide_eq_true passed
  exact ⟨sound, letThrough, fuel, ran⟩

/-- In every run of sound calls the linked ranges are non-empty, page aligned, inside the
user region and in address order, so that an address belongs to at most one of them. -/
theorem range_tree_wellFormed (env : Env) {vm : ProcessVm}
    (reached : ((machine env).restrict Sound).Reachable vm) :
    WellFormed vm ∧ ∀ address, coverage vm.rangeList address ≤ 1 := by
  have invariant : Invariant vm := by
    refine reached.invariant Invariant (fun _ => invariant_of_empty) ?_
    rintro vm op next - invariant ⟨sound, letThrough, fuel, executed⟩
    exact invariant_exec invariant letThrough sound executed
  exact ⟨invariant.wellFormed, invariant.wellFormed.ordered.coverage_le_one⟩

def quietEnv : Env where
  kmalloc call := 0x100 * (call + 1)
  pageTable _ := none
  allocPages _ := none
  memobjFlags _ := 0

def newVm : ProcessVm where
  ranges _ := ⟨0, 0, 0, 0, 0, 0, 0, 0⟩
  vmRangeTree := .nil
  rangeCache := [none, none, none, none]
  rangeCacheInd := 0
  region := ⟨0x1000, userEndMax, 0x800000, 0x800000, 0x800000, 0x2aaaaaa00000⟩
  straightVa := 0
  straightLen := 0
  heapExtension := 4096
  clock := 0

theorem empty_newVm : Empty newVm :=
  ⟨rfl, rfl, ⟨by decide, by decide, by decide⟩⟩

theorem invariant_of_newVm (region : vm.region = newVm.region)
    (cache : vm.rangeCache = newVm.rangeCache) (wellFormed : WellFormed vm)
    (straight : ∀ r ∈ vm.live, pageSize ∣ (vm.ranges r).straightStart) : Invariant vm :=
  ⟨⟨wellFormed, straight, region ▸ empty_newVm.region⟩, by simp [cache, newVm]⟩

/-- A run with a split, a change of permissions, a removal, a longer heap and a move. -/
theorem range_tree_wellFormed_after_move :
    ∃ vm, ((machine quietEnv).restrict Sound).Reachable vm ∧
      (vm.rangeList.map fun range => (range.start, range.end_)) =
        [(0x800000, 0x801000), (0x10002000, 0x10003000), (0x20000000, 0x20001000)] ∧
      WellFormed vm ∧ ∀ address, coverage vm.rangeList address ≤ 1 := by
  have executed : (Machine.run (fun vm op => decide (LetThrough vm op ∧ Sound vm op))
      (exec quietEnv 9) newVm
      [.add 0x10000000 0x10004000 none 0x31000 0 0 12, .split 0x100 0x10002000,
        .changeProt 0x300 0x10000, .remove 0x10003000 0x10004000, .brk 0x800800,
        .mremap ⟨0x10000000, 0x2000, 0x1000, 3, 0x20000000, 0⟩]).map
        (fun vm => vm.rangeList.map fun range => (range.start, range.end_)) =
      some [(0x800000, 0x801000), (0x10002000, 0x10003000), (0x20000000, 0x20001000)] := by
    decide +kernel
  obtain ⟨vm, result, bounds⟩ := Option.map_eq_some_iff.mp executed
  have reached := reachable_of_sound_run (.init empty_newVm) result
  exact ⟨vm, reached, bounds, range_tree_wellFormed quietEnv reached⟩

/-- The operations are let through and break the tree's invariant. -/
def Breaks (ops : List Op) : Prop :=
  ∃ vm, (machine quietEnv).Reachable vm ∧
    Machine.run (fun vm op => decide (LetThrough vm op)) (exec quietEnv 9) newVm ops = some vm ∧
      ¬ WellFormed vm

theorem breaks_of_run
    (ran : (Machine.run (fun vm op => decide (LetThrough vm op)) (exec quietEnv 9)
      newVm ops).map (fun vm => decide (WellFormed vm)) = some false) : Breaks ops := by
  obtain ⟨vm, res, broken⟩ := Option.map_eq_some_iff.mp ran
  exact ⟨vm, reachable_of_run (.init empty_newVm) res, res, of_decide_eq_false broken⟩

/-- `brk` to the last page, `mremap` to a fixed target that ends at the top of the address
space, `mremap` to a fixed target below the old pages of one mapping, and `mremap` with
garbage in `newstart` all break the tree. -/
theorem unsound_calls_break_tree :
    Breaks [.brk (2 ^ 64 - 1)] ∧
      Breaks [.add 0x10000000 0x1000a000 none 0x31000 0 0 12,
        .mremap ⟨0x10006000, 0x2000, 0x2000, 3, 0xffffffffffffe000, 0⟩] ∧
      Breaks [.add 0x10000000 0x1000a000 none 0x31000 0 0 12,
        .mremap ⟨0x10006000, 0x2000, 0x2000, 3, 0x10002000, 0⟩] ∧
      Breaks [.add 0x10000000 0x1000a000 none 0x31000 0 0 12,
        .mremap ⟨0x10000000, 0x2000, 0x3000, 1, 0, 0x20000123⟩] := by
  refine ⟨?_, ?_, ?_, ?_⟩
  · exact breaks_of_run (by decide +kernel)
  · exact breaks_of_run (by decide +kernel)
  · exact breaks_of_run (by decide +kernel)
  · exact breaks_of_run (by decide +kernel)

end McKernel.Vm
