import McKernel.Vm.StackGrowth

/-!
# The cache of looked-up ranges

A lookup reads the tree and then stores what it has found in the cache.  Faults look ranges up
under the read lock, or before they take a lock at all; `xpmem_detach_att` removes ranges under
the read lock, too, and everybody else under the write lock.
-/

namespace McKernel.Vm

open RbTree ProcessVm Extent List

def xpmemFreeProcessMemoryRange (vm : ProcessVm) (range : Nat) : ProcessVm :=
  (eraseRange vm range).replaceCached range none

/-- The last lines of `lookup_process_memory_range`. -/
def storeMatch (vm : ProcessVm) (range : Nat) : ProcessVm :=
  let ind := (vm.rangeCacheInd + (rangeCacheSize - 1)) % rangeCacheSize
  { vm with rangeCacheInd := ind, rangeCache := vm.rangeCache.set ind (some range) }

/-- An address space with the lookups that have found a range and not stored it yet, and
whether they hold the read lock. -/
structure Shared where
  vm : ProcessVm
  pending : List (Nat × Bool)

/-- Calls under the write lock, faults, and the two halves of a lookup. -/
inductive SharedOp where
  | call (op : Op)
  | fault (stack : Stack) (fault : Fault)
  | detach (range : Nat)
  | search (start end_ : Nat) (locked : Bool)
  | store (range : Nat) (locked : Bool)

def Shared.exec (env : Env) (fuel : Nat) (state : Shared) : SharedOp → Option Shared
  | .call op =>
    if LetThrough state.vm op ∧ state.pending.all (!·.2) then
      (Vm.exec env fuel state.vm op).map (⟨·, state.pending⟩)
    else none
  | .fault stack fault => some ⟨(doPageFaultProcessVm stack state.vm fault).2, state.pending⟩
  | .detach range =>
    if range ∈ state.vm.live then
      some ⟨xpmemFreeProcessMemoryRange state.vm range, state.pending⟩
    else none
  | .search start end_ locked =>
    if start < end_ ∧ cachedRange state.vm start end_ = none then
      (firstMatch state.vm.ranges start end_ state.vm.vmRangeTree none).map fun range =>
        ⟨state.vm, (range, locked) :: state.pending⟩
    else none
  | .store range locked =>
    if (range, locked) ∈ state.pending then
      some ⟨storeMatch state.vm range, state.pending.erase (range, locked)⟩
    else none

def sharedMachine (env : Env) : Machine Shared SharedOp where
  init state := Empty state.vm ∧ state.pending = []
  step state op next := ∃ fuel, state.exec env fuel op = some next

/-- No lookup is on its way when ranges change, calls are sound, and a stack range that a fault
has to grow can grow. -/
def Shared.Alone (state : Shared) : SharedOp → Prop
  | .call op => state.pending = [] ∧ Sound state.vm op
  | .detach _ => state.pending = []
  | .fault stack fault => ∀ range ∈ state.vm.live, fault.Below stack state.vm range →
      (state.vm.ranges range).memobj = 0 → Growable state.vm fault.addr range
  | _ => True

instance (state : Shared) : (op : SharedOp) → Decidable (state.Alone op)
  | .call op => inferInstanceAs (Decidable (state.pending = [] ∧ Sound state.vm op))
  | .detach _ => inferInstanceAs (Decidable (state.pending = []))
  | .fault stack fault => inferInstanceAs (Decidable (∀ range ∈ state.vm.live,
      fault.Below stack state.vm range → (state.vm.ranges range).memobj = 0 →
        Growable state.vm fault.addr range))
  | .search .. | .store .. => instDecidableTrue

/-! ## Steps -/

variable {env : Env} {vm vm' : ProcessVm}

/-- A fault whose stack range can grow keeps the invariant and what is linked. -/
theorem invariant_fault (inv : Invariant vm)
    (growable : ∀ range ∈ vm.live, fault.Below stack vm range →
      (vm.ranges range).memobj = 0 → Growable vm fault.addr range) :
    Invariant (doPageFaultProcessVm stack vm fault).2 ∧
      (doPageFaultProcessVm stack vm fault).2.live = vm.live := by
  cases begun : beginFault stack vm fault with
  | mk found vm' =>
  obtain ⟨same, inv', ranges, spec⟩ := beginFault_spec inv begun
  unfold doPageFaultProcessVm
  rw [begun]
  match found, spec with
  | .failed, _ => exact ⟨inv', same.live⟩
  | .skip range?, _ =>
    obtain ⟨after, -, live, -⟩ :=
      checkFault_spec inv' (Prod.eta (checkFault vm' fault range?)).symm
    exact ⟨after, live.trans same.live⟩
  | .grow range, ⟨_, below, plain⟩ =>
    simp only [(checkFault_known _ fault range).1]
    have fits := growable range below.linked below plain
    exact ⟨inv'.growRange (same.live ▸ below.linked) (ranges ▸ below.above)
      ((same.growable_iff ranges).mpr fits), same.live⟩

theorem invariant_detach (inv : Invariant vm) (linked : r ∈ vm.live) :
    Invariant (xpmemFreeProcessMemoryRange vm r) := by
  have freed := (free_spec inv linked).1
  unfold freeProcessMemoryRange at freed
  simp only at freed
  split at freed
  · exact freed.of_sameLayout (.of_eq rfl rfl rfl) freed.cached
  · exact freed

/-! ## Runs -/

/-- Ranges that have been found are linked. -/
structure Shared.Ok (state : Shared) : Prop extends Invariant state.vm where
  pending : ∀ lookup ∈ state.pending, lookup.1 ∈ state.vm.live

theorem Shared.Ok.exec {fuel : Nat} {state next : Shared} {op : SharedOp} (ok : state.Ok)
    (alone : state.Alone op) (ran : state.exec env fuel op = some next) : next.Ok := by
  cases op with
  | fault stack fault =>
    cases ran
    obtain ⟨inv, same⟩ := invariant_fault ok.toInvariant alone
    exact ⟨inv, fun lookup isPending => same ▸ ok.pending lookup isPending⟩
  | call op =>
    simp only [Shared.exec] at ran
    split at ran
    next passed =>
      obtain ⟨vm, called, rfl⟩ := Option.map_eq_some_iff.mp ran
      exact ⟨invariant_exec ok.toInvariant passed.1 alone.2 called, by simp [alone.1]⟩
    · cases ran
  | detach r =>
    simp only [Shared.exec] at ran
    split at ran
    next linked =>
      cases ran
      exact ⟨invariant_detach ok.toInvariant linked, by simp [show state.pending = [] from alone]⟩
    · cases ran
  | search start end_ locked =>
    simp only [Shared.exec] at ran
    split at ran
    · obtain ⟨r, hit, rfl⟩ := Option.map_eq_some_iff.mp ran
      refine ⟨ok.toInvariant, fun lookup isPending => ?_⟩
      rcases mem_cons.mp isPending with rfl | old
      · exact ((firstMatch_some hit).resolve_left (by simp)).1
      · exact ok.pending lookup old
    · cases ran
  | store r locked =>
    simp only [Shared.exec] at ran
    split at ran
    next waiting =>
      cases ran
      refine ⟨⟨ok.toLayout.of_sameLayout (.of_eq rfl rfl rfl), fun o inCache => ?_⟩,
        fun lookup isPending => ok.pending lookup (mem_of_mem_erase isPending)⟩
      rcases mem_or_eq_of_mem_set inCache with old | new
      · exact ok.cached o old
      · cases new
        exact ok.pending _ waiting
    · cases ran

/-- Whatever the cache holds, a lookup finds what a search of the tree finds, the first range
that meets the interval.  If no lookup is on its way when ranges are removed, the cached ranges
are linked. -/
theorem range_lookup_ok (env : Env) :
    (∀ vm start end_, Invariant vm → start < end_ →
      (lookupProcessMemoryRange vm start end_).1 =
        firstMatch vm.ranges start end_ vm.vmRangeTree none ∧
      (∀ range, (lookupProcessMemoryRange vm start end_).1 = some range →
        range ∈ vm.live ∧ Meets (vm.ranges range) start end_ ∧
        ∀ other ∈ vm.live, Meets (vm.ranges other) start end_ →
          (vm.ranges range).start ≤ (vm.ranges other).start) ∧
      ((lookupProcessMemoryRange vm start end_).1 = none →
        ∀ range ∈ vm.live, ¬ Meets (vm.ranges range) start end_)) ∧
    ∀ state, ((sharedMachine env).restrict Shared.Alone).Reachable state →
      ∀ range, some range ∈ state.vm.rangeCache → range ∈ state.vm.live := by
  refine ⟨fun vm start end_ invariant interval => ?_, fun state reached => ?_⟩
  · have wellFormed := invariant.wellFormed
    have search := firstMatch_eq start end_ vm.vmRangeTree
      (fun range linked => (wellFormed.valid_of_mem linked).nonempty) wellFormed.pairwise none
    rw [lookup_first invariant interval]
    refine ⟨?_, fun range first => ?_, fun none => by simpa using none⟩
    · rw [search, Option.or_none]
      rfl
    obtain ⟨meets, front, back, position, missed⟩ := find?_eq_some_iff_append.mp first
    have around := wellFormed.around position
    have linked : range ∈ vm.live := by simp [position]
    refine ⟨linked, by simpa using meets, fun other isLinked meetsOther => ?_⟩
    have valid := wellFormed.valid_of_mem linked
    rw [position] at isLinked
    rcases mem_append.mp isLinked with before | here
    · have := missed other before
      simp [meetsOther] at this
    · rcases mem_cons.mp here with rfl | behind
      · exact le_rfl
      · have := around.2 other behind
        have := valid.nonempty
        omega
  · have ok : state.Ok := by
      refine reached.invariant Shared.Ok ?_ ?_
      · rintro state ⟨empty, nothing⟩
        exact ⟨invariant_of_empty empty, by simp [nothing]⟩
      · rintro state op next - ok ⟨alone, fuel, executed⟩
        exact ok.exec alone executed
    exact ok.cached

def newShared : Shared := ⟨newVm, []⟩

theorem init_newShared : (sharedMachine env).init newShared := ⟨empty_newVm, rfl⟩

theorem step_of_exec (state : Shared) (op : SharedOp) (next : Shared)
    (ran : state.exec env 9 op = some next) : (sharedMachine env).step state op next :=
  ⟨9, ran⟩

/-- A lookup, a fault that finds the cached range, and the removal of another one. -/
theorem range_lookup_ok_cached :
    ∃ state, ((sharedMachine quietEnv).restrict Shared.Alone).Reachable state ∧
      some 0x100 ∈ state.vm.rangeCache ∧ 0x100 ∈ state.vm.live := by
  obtain ⟨state, reached, cached⟩ : ∃ state,
      ((sharedMachine quietEnv).restrict Shared.Alone).Reachable state ∧
        some 0x100 ∈ state.vm.rangeCache :=
    Machine.exists_restrict_run (fun _ _ => of_decide_eq_true) init_newShared step_of_exec
      [.call (.add 0x10000000 0x10001000 none 0x31000 0 0 12),
        .call (.add 0x20000000 0x20001000 none 0x31000 0 0 12),
        .fault ⟨0x30000000, 0x30001000⟩ ⟨0x10000000, false, false, false, false⟩,
        .detach 0x200] (by decide +kernel)
  exact ⟨state, reached, cached, (range_lookup_ok quietEnv).2 state reached 0x100 cached⟩

/-- A detach under the read lock, and a removal under the write lock beside the lookup of the
stack before any lock, free a range that has been found; then it is stored in the cache. -/
theorem freed_range_is_cached :
    (∃ state, (sharedMachine quietEnv).Reachable state ∧ some 0x100 ∈ state.vm.rangeCache ∧
      0x100 ∉ state.vm.live) ∧
    ∃ state, (sharedMachine quietEnv).Reachable state ∧ some 0x100 ∈ state.vm.rangeCache ∧
      state.vm.live = [] :=
  ⟨Machine.exists_run init_newShared step_of_exec
      [.call (.add 0x10000000 0x10001000 none 0x31000 0 0 12),
        .search 0x10000000 0x10000001 true, .detach 0x100, .store 0x100 true] (by decide +kernel),
    Machine.exists_run init_newShared step_of_exec
      [.call (.add 0x10000000 0x10001000 none 0x31000 0 0 12),
        .search 0x10000fff 0x10001000 false, .call (.remove 0x10000000 0x10001000),
        .store 0x100 false] (by decide +kernel)⟩

end McKernel.Vm
