import McKernel.Vm.AddressSpace
import McKernel.Vm.RemoveView

/-!
# Growing the stack

`do_page_fault_process_vm` moves the start of the stack range down to the page of the fault
before it looks at anything else.  It takes the reservation for the stack from the address
space of the running thread, whose address space need not be the one that faults, and finds
the stack range before it takes a lock.
-/

namespace McKernel.Vm

open ProcessVm Extent List

/-- The part `[stack_start, stack_end)` of the address space of the running thread. -/
structure Stack where
  start : Nat
  end_ : Nat
  deriving DecidableEq, Repr

/-- A fault: the address, the bits of `reason` that are looked at, and `vm->exiting`. -/
structure Fault where
  addr : Nat
  write : Bool
  patch : Bool
  instr : Bool
  exiting : Bool
  deriving DecidableEq, Repr

/-- How a fault ends before a page is looked for: an error without a range, a range that
forbids the access, or a range for `page_fault_process_memory_range`. -/
inductive Faulted where
  | error
  | denied (range : Nat)
  | passed (range : Nat)
  deriving DecidableEq, Repr

/-- The range whose permissions were checked. -/
def Faulted.range? : Faulted → Option Nat
  | .error => none
  | .denied range | .passed range => some range

/-- Store the `start` member of a range. -/
def ProcessVm.setStart (vm : ProcessVm) (range newstart : Nat) : ProcessVm :=
  vm.write range { vm.ranges range with start := newstart }

/-- Where a stack range begins after a fault at `addr`. -/
def grownStart (range : VmRange) (addr : Nat) : Nat :=
  ULong.roundDown (if range.pgshift ≠ 0 then range.pgshift else pageShift) addr

/-- The access that a range with these flags does not allow. -/
def Fault.forbidden (fault : Fault) (flag : Nat) : Bool :=
  !hasFlag flag VR_PROT_MASK || (fault.write && !fault.patch && !hasFlag flag VR_PROT_WRITE) ||
    (fault.instr && !hasFlag flag VR_PROT_EXEC)

/-- `do_page_fault_process_vm` from `skip` on. -/
def checkFault (vm : ProcessVm) (fault : Fault) (range : Option Nat) : Faulted × ProcessVm :=
  if fault.exiting then (.error, vm)
  else
    let (range, vm) := match range with
      | some range => (some range, vm)
      | none => lookupProcessMemoryRange vm fault.addr (ULong.add fault.addr 1)
    match range with
    | none => (.error, vm)
    | some range =>
      (if fault.forbidden (vm.ranges range).flag then .denied range else .passed range, vm)

/-- What `do_page_fault_process_vm` knows before it takes a lock: that there is no stack, the
range to check if it has one already, or the range to grow. -/
inductive Begun where
  | failed
  | skip (range : Option Nat)
  | grow (range : Nat)
  deriving DecidableEq, Repr

/-- The lookup of the stack range and the tests behind it. -/
def beginFault (stack : Stack) (vm : ProcessVm) (fault : Fault) : Begun × ProcessVm :=
  if stack.start ≤ fault.addr ∧ fault.addr < stack.end_ then
    match lookupProcessMemoryRange vm (stack.end_ - 1) stack.end_ with
    | (none, vm) => (.failed, vm)
    | (some range, vm) =>
      let entry := vm.ranges range
      (if entry.memobj ≠ 0 ∨ entry.start ≤ fault.addr then .skip (some range) else .grow range, vm)
  else (.skip none, vm)

/-- The store under the write lock. -/
def growRange (vm : ProcessVm) (range addr : Nat) : ProcessVm :=
  vm.setStart range (grownStart (vm.ranges range) addr)

/-- `do_page_fault_process_vm` up to the call of `page_fault_process_memory_range`, with nobody
in between. -/
def doPageFaultProcessVm (stack : Stack) (vm : ProcessVm) (fault : Fault) : Faulted × ProcessVm :=
  match beginFault stack vm fault with
  | (.failed, vm) => (.error, vm)
  | (.skip range, vm) => checkFault vm fault range
  | (.grow range, vm) => checkFault (growRange vm range fault.addr) fault (some range)

/-- A fault keeps the ranges in order, moves their starts only downwards and not below the
reservation of the address space, and looks at a range with the address. -/
structure FaultOk (own : Stack) (vm : ProcessVm) (fault : Fault) (result : Faulted)
    (vm' : ProcessVm) : Prop where
  wellFormed : WellFormed vm'
  downwards : ∀ range, (vm'.ranges range).start ≤ (vm.ranges range).start
  reserved : ∀ range, (vm'.ranges range).start < (vm.ranges range).start →
    own.start ≤ (vm'.ranges range).start
  covers : ∀ range ∈ result.range?, Covers (vm'.ranges range) fault.addr

/-- A range can grow down to an address: its new start is a page of the user region, and no
other range lies in what it grows into. -/
structure Growable (vm : ProcessVm) (addr range : Nat) : Prop where
  aligned : pageSize ∣ grownStart (vm.ranges range) addr
  user : vm.region.userStart ≤ grownStart (vm.ranges range) addr
  free : ∀ other ∈ vm.live, other ≠ range →
    ¬ Meets (vm.ranges other) (grownStart (vm.ranges range) addr) (vm.ranges range).start

/-- The range is at the top of the stack and begins above a fault in the stack. -/
structure Fault.Below (stack : Stack) (vm : ProcessVm) (fault : Fault) (range : Nat) : Prop where
  inStack : stack.start ≤ fault.addr ∧ fault.addr < stack.end_
  linked : range ∈ vm.live
  top : Meets (vm.ranges range) (stack.end_ - 1) stack.end_
  above : fault.addr < (vm.ranges range).start

/-- A range that begins above the fault can grow inside the reservation `own` of the address
space; if it is a file, it does not grow, and the process is on its way out. -/
def Fault.Fits (own stack : Stack) (vm : ProcessVm) (fault : Fault) : Prop :=
  ∀ range, fault.Below stack vm range →
    ((vm.ranges range).memobj = 0 → Growable vm fault.addr range ∧
      own.start ≤ grownStart (vm.ranges range) fault.addr) ∧
    ((vm.ranges range).memobj ≠ 0 → fault.exiting = true)

instance (vm : ProcessVm) (addr range : Nat) : Decidable (Growable vm addr range) :=
  decidable_of_iff (pageSize ∣ grownStart (vm.ranges range) addr ∧
      vm.region.userStart ≤ grownStart (vm.ranges range) addr ∧
      ∀ other ∈ vm.live, other ≠ range →
        ¬ Meets (vm.ranges other) (grownStart (vm.ranges range) addr) (vm.ranges range).start)
    ⟨fun ⟨a, b, c⟩ => ⟨a, b, c⟩, fun ⟨a, b, c⟩ => ⟨a, b, c⟩⟩

instance (stack : Stack) (vm : ProcessVm) (fault : Fault) (range : Nat) :
    Decidable (fault.Below stack vm range) :=
  decidable_of_iff ((stack.start ≤ fault.addr ∧ fault.addr < stack.end_) ∧ range ∈ vm.live ∧
      Meets (vm.ranges range) (stack.end_ - 1) stack.end_ ∧ fault.addr < (vm.ranges range).start)
    ⟨fun ⟨a, b, c, d⟩ => ⟨a, b, c, d⟩, fun ⟨a, b, c, d⟩ => ⟨a, b, c, d⟩⟩

variable {own stack : Stack} {vm vm' : ProcessVm} {fault : Fault} {res : Faulted}
  {r newstart addr : Nat} {vm'' : ProcessVm}

theorem setStart_eq (o : Nat) : (vm.setStart r newstart).ranges o =
    { vm.ranges o with
      start := if o = r then newstart else (vm.ranges o).start } := by
  by_cases same : o = r
  · simp [ProcessVm.setStart, write, same]
  · simp [ProcessVm.setStart, write, same]

theorem grownStart_le (entry : VmRange) (addr : Nat) : grownStart entry addr ≤ addr :=
  Nat.and_le_left

/-- Growing keeps the ranges in order if and only if the range can grow. -/
theorem wellFormed_growRange_iff (wellFormed : WellFormed vm) (linked : r ∈ vm.live)
    (below : addr < (vm.ranges r).start) :
    WellFormed (growRange vm r addr) ↔ Growable vm addr r := by
  have down := (grownStart_le (vm.ranges r) addr).trans below.le
  constructor
  · intro grown
    have own : (growRange vm r addr).ranges r = _ := setStart_eq r
    rw [if_pos rfl] at own
    have valid := grown.valid_of_mem (show r ∈ (growRange vm r addr).live from linked)
    rw [own] at valid
    refine ⟨valid.startAligned, valid.lower, fun o otherLinked ne meets => ne ?_⟩
    -- The first common address belongs to both ranges.
    have entry : (growRange vm r addr).ranges o = _ := setStart_eq o
    rw [if_neg ne] at entry
    have nonempty := (wellFormed.valid_of_mem otherLinked).nonempty
    have nonempty' := (wellFormed.valid_of_mem linked).nonempty
    refine grown.eq_of_covers (show r ∈ (growRange vm r addr).live from linked)
      (show o ∈ (growRange vm r addr).live from otherLinked)
      (?_ : Covers _ (max (grownStart (vm.ranges r) addr) (vm.ranges o).start)) ?_ <;>
      simp only [own, entry, Covers, lo_vmRange, hi_vmRange, Meets] at meets ⊢ <;> omega
  · rintro ⟨aligned, user, free⟩
    refine .of_live (fun o otherLinked => ?_) ?_
    · obtain ⟨nonempty, userStart, upper, startAligned, endAligned⟩ :=
        wellFormed.valid_of_mem otherLinked
      rw [growRange, setStart_eq]
      by_cases same : o = r
      · subst same
        rw [if_pos rfl]
        exact ⟨Nat.lt_of_le_of_lt down nonempty, user, upper, aligned, endAligned⟩
      · rw [if_neg same]
        exact ⟨nonempty, userStart, upper, startAligned, endAligned⟩
    · refine wellFormed.pairwise.imp_of_mem fun {left right} leftLinked _ apart => ?_
      simp only [growRange, setStart_eq]
      split
      next same =>
        subst same
        have nonempty := (wellFormed.valid_of_mem leftLinked).nonempty
        have ne : left ≠ right := by
          rintro rfl
          omega
        have missed := free left leftLinked ne
        simp only [Meets] at missed
        omega
      · exact apart

theorem Invariant.growRange (inv : Invariant vm) (linked : r ∈ vm.live)
    (below : addr < (vm.ranges r).start) (growable : Growable vm addr r) :
    Invariant (growRange vm r addr) := by
  refine ⟨⟨(wellFormed_growRange_iff inv.wellFormed linked below).mpr growable,
    fun o otherLinked => ?_, inv.region⟩, inv.cached⟩
  rw [Vm.growRange, setStart_eq]
  exact inv.straight o otherLinked

theorem Invariant.top_unique (inv : Invariant vm) {end_ r o : Nat} (linked : r ∈ vm.live)
    (otherLinked : o ∈ vm.live) (meets : Meets (vm.ranges r) (end_ - 1) end_)
    (otherMeets : Meets (vm.ranges o) (end_ - 1) end_) : r = o := by
  refine inv.wellFormed.eq_of_covers otherLinked linked (?_ : Covers _ (end_ - 1)) ?_ <;>
    simp only [Meets, Covers, lo_vmRange, hi_vmRange] at meets otherMeets ⊢ <;> omega

theorem SameLayout.growable_iff (same : SameLayout vm vm') (ranges : vm'.ranges = vm.ranges) :
    Growable vm' addr r ↔ Growable vm addr r := by
  constructor
  · rintro ⟨aligned, user, free⟩
    rw [ranges] at aligned user free
    rw [same.region] at user
    rw [same.live] at free
    exact ⟨aligned, user, free⟩
  · rintro ⟨aligned, user, free⟩
    exact ⟨by rwa [ranges], by rwa [ranges, same.region], by rwa [ranges, same.live]⟩

/-- What holds of the ranges for what the first half of a fault has found. -/
def Begun.Found (stack : Stack) (vm : ProcessVm) (fault : Fault) : Begun → Prop
  | .failed | .skip none => ∀ range, ¬ fault.Below stack vm range
  | .skip (some range) => range ∈ vm.live ∧ fault.addr < (vm.ranges range).end_ ∧
      ((vm.ranges range).start ≤ fault.addr ∧ (∀ range, ¬ fault.Below stack vm range) ∨
        fault.Below stack vm range ∧ (vm.ranges range).memobj ≠ 0)
  | .grow range => fault.addr < (vm.ranges range).end_ ∧ fault.Below stack vm range ∧
      (vm.ranges range).memobj = 0

theorem beginFault_spec (inv : Invariant vm) (begun : beginFault stack vm fault = (found, vm')) :
    SameLayout vm vm' ∧ Invariant vm' ∧ vm'.ranges = vm.ranges ∧ found.Found stack vm fault := by
  unfold beginFault at begun
  split at begun
  next inStack =>
    cases called : lookupProcessMemoryRange vm (stack.end_ - 1) stack.end_ with
    | mk range? vm'' =>
    obtain ⟨same, inv', -⟩ := lookup_spec inv called
    obtain ⟨ranges, -, -, -⟩ := lookup_fields called
    have first := lookup_first inv (show stack.end_ - 1 < stack.end_ by omega)
    rw [called] at first begun
    cases range? with
    | none =>
      cases begun
      refine ⟨same, inv', ranges, fun range below => ?_⟩
      have missed := find?_eq_none.mp first.symm range below.linked
      simp [below.top] at missed
    | some range =>
      have linked := mem_of_find?_eq_some first.symm
      have meets : Meets (vm.ranges range) (stack.end_ - 1) stack.end_ := by
        simpa using find?_some first.symm
      have upper : fault.addr < (vm.ranges range).end_ := by
        have := meets.2
        omega
      simp only [ranges, Prod.mk.injEq] at begun
      obtain ⟨rfl, rfl⟩ := begun
      refine ⟨same, inv', ranges, ?_⟩
      by_cases above : (vm.ranges range).start ≤ fault.addr
      · rw [if_pos (.inr above)]
        refine ⟨linked, upper, .inl ⟨above, fun other below => ?_⟩⟩
        obtain rfl := inv.top_unique below.linked linked below.top meets
        exact Nat.not_lt.mpr above below.above
      · have below : fault.Below stack vm range :=
          ⟨inStack, linked, meets, Nat.lt_of_not_le above⟩
        split
        next keeps => exact ⟨linked, upper, .inr ⟨below, keeps.resolve_right above⟩⟩
        next grows => exact ⟨upper, below, not_not.mp (not_or.mp grows).1⟩
  next outside =>
    cases begun
    exact ⟨.of_eq rfl rfl rfl, inv, rfl, fun range below => outside below.inStack⟩

/-- What a check of a known range or of a looked-up one comes to. -/
theorem checkFault_spec (inv : Invariant vm) (checked : checkFault vm fault range? = (res, vm')) :
    Invariant vm' ∧ vm'.ranges = vm.ranges ∧ vm'.live = vm.live ∧ ∀ range ∈ res.range?,
      fault.exiting = false ∧ (range? = some range ∨
        range? = none ∧ Covers (vm.ranges range) fault.addr) := by
  unfold checkFault at checked
  split at checked
  · cases checked
    exact ⟨inv, rfl, rfl, by simp [Faulted.range?]⟩
  next alive =>
    have alive := Bool.eq_false_iff.mpr alive
    have known {range found : Nat} (isChecked : found ∈ (if
        fault.forbidden (vm.ranges range).flag then Faulted.denied range
        else .passed range).range?) : range = found := by
      revert isChecked
      split <;> exact Option.some.inj
    cases range? with
    | some range =>
      cases checked
      exact ⟨inv, rfl, rfl, fun found isChecked => ⟨alive, .inl (by rw [known isChecked])⟩⟩
    | none =>
      cases called : lookupProcessMemoryRange vm fault.addr (ULong.add fault.addr 1) with
      | mk found vm'' =>
      obtain ⟨same, inv', spec⟩ := lookup_spec inv called
      obtain ⟨ranges, -, -, -⟩ := lookup_fields called
      rw [called] at checked
      cases found with
      | none =>
        cases checked
        exact ⟨inv', ranges, same.live, by simp [Faulted.range?]⟩
      | some range =>
        simp only [ranges] at checked
        cases checked
        refine ⟨inv', ranges, same.live, fun found isChecked => ⟨alive, .inr ⟨rfl, ?_⟩⟩⟩
        obtain rfl := known isChecked
        obtain ⟨-, _, meets⟩ := spec range rfl
        have := meets.1
        rw [ULong.add] at *
        exact ⟨by rw [lo_vmRange]; omega, meets.2⟩

/-- A check that is given a range stores nothing and looks at that range. -/
theorem checkFault_known (vm : ProcessVm) (fault : Fault) (r : Nat) :
    (checkFault vm fault (some r)).2 = vm ∧
      (fault.exiting = false → r ∈ (checkFault vm fault (some r)).1.range?) := by
  unfold checkFault
  cases fault.exiting
  · refine ⟨rfl, fun _ => ?_⟩
    simp only [Bool.false_eq_true, if_false]
    split <;> rfl
  · exact ⟨rfl, nofun⟩

theorem checkFault_ok (inv : Invariant vm')
    (downwards : ∀ o, (vm'.ranges o).start ≤ (vm.ranges o).start)
    (reserved : ∀ o, (vm'.ranges o).start < (vm.ranges o).start → own.start ≤ (vm'.ranges o).start)
    (range? : Option Nat) (covers : ∀ range, range? = some range → fault.exiting = true ∨
      Covers (vm'.ranges range) fault.addr) :
    FaultOk own vm fault (checkFault vm' fault range?).1 (checkFault vm' fault range?).2 := by
  obtain ⟨inv', ranges, -, spec⟩ := checkFault_spec inv (Prod.eta _).symm
  refine ⟨inv'.wellFormed, by rwa [ranges], by rwa [ranges], fun range isChecked => ?_⟩
  rw [ranges]
  obtain ⟨alive, same | ⟨-, found⟩⟩ := spec range isChecked
  · exact (covers range same).resolve_left (by simp [alive])
  · exact found

/-- A growth moves only the start of the range, and downwards. -/
theorem growRange_moves (below : addr < (vm.ranges r).start) :
    (∀ o, ((growRange vm r addr).ranges o).start ≤ (vm.ranges o).start) ∧
      ∀ o, ((growRange vm r addr).ranges o).start < (vm.ranges o).start →
        ((growRange vm r addr).ranges o).start = grownStart (vm.ranges r) addr := by
  have down := (grownStart_le (vm.ranges r) addr).trans below.le
  constructor <;> intro o <;> rw [growRange, setStart_eq] <;> by_cases same : o = r
  · subst same
    simpa using down
  · simp [same]
  · simp [same]
  · simp [same]

theorem growRange_covers (upper : addr < (vm.ranges r).end_) :
    Covers ((growRange vm r addr).ranges r) addr := by
  rw [growRange, setStart_eq, if_pos rfl]
  exact ⟨grownStart_le _ _, upper⟩

/-- An address space with the faults that are past the lookup of the stack range and not yet
checked. -/
structure Faults where
  vm : ProcessVm
  running : List (Fault × Begun)

/-- The steps of a fault, and the calls that add, change and remove ranges under the write
lock. -/
inductive FaultOp where
  | begin (stack : Stack) (fault : Fault)
  | grow (fault : Fault) (range : Nat)
  | check (fault : Fault) (range : Option Nat)
  | call (op : Op)

def Faults.exec (env : Env) (fuel : Nat) (state : Faults) : FaultOp → Option Faults
  | .begin stack fault =>
    let (found, vm) := beginFault stack state.vm fault
    some ⟨vm, if found = .failed then state.running else (fault, found) :: state.running⟩
  | .grow fault range =>
    if (fault, .grow range) ∈ state.running then
      some ⟨growRange state.vm range fault.addr,
        (fault, .skip (some range)) :: state.running.erase (fault, .grow range)⟩
    else none
  | .check fault range =>
    if (fault, .skip range) ∈ state.running then
      some ⟨(checkFault state.vm fault range).2, state.running.erase (fault, .skip range)⟩
    else none
  | .call op =>
    if LetThrough state.vm op then (Vm.exec env fuel state.vm op).map (⟨·, state.running⟩)
    else none

/-- The range that the first half of a fault found still begins above the address when it
grows, and can grow; nobody changes the ranges while a fault holds one. -/
def Faults.Orderly (own : Stack) (state : Faults) : FaultOp → Prop
  | .begin stack fault => ∀ range ∈ state.vm.live, fault.Below stack state.vm range →
      (state.vm.ranges range).memobj ≠ 0 → fault.exiting = true
  | .grow fault range => fault.addr < (state.vm.ranges range).start ∧
      Growable state.vm fault.addr range ∧
      own.start ≤ grownStart (state.vm.ranges range) fault.addr
  | .check .. => True
  | .call op => Sound state.vm op ∧ ∀ entry ∈ state.running, entry.2 = .skip none

instance (own : Stack) (state : Faults) : (op : FaultOp) → Decidable (state.Orderly own op)
  | .begin stack fault => inferInstanceAs (Decidable (∀ range ∈ state.vm.live,
      fault.Below stack state.vm range → (state.vm.ranges range).memobj ≠ 0 →
        fault.exiting = true))
  | .grow fault range => inferInstanceAs (Decidable (fault.addr < (state.vm.ranges range).start ∧
      Growable state.vm fault.addr range ∧
      own.start ≤ grownStart (state.vm.ranges range) fault.addr))
  | .check .. => instDecidableTrue
  | .call op => inferInstanceAs (Decidable (Sound state.vm op ∧
      ∀ entry ∈ state.running, entry.2 = .skip none))

/-- Each step of a fault keeps its part of the promise. -/
def Faults.StepOk (own : Stack) (state : Faults) (op : FaultOp) (next : Faults) : Prop :=
  match op with
  | .begin _ fault | .grow fault _ => FaultOk own state.vm fault .error next.vm
  | .check fault range => FaultOk own state.vm fault (checkFault state.vm fault range).1 next.vm
  | .call _ => WellFormed next.vm

/-- What the ranges are to the faults that hold them. -/
def Holds (vm : ProcessVm) : Fault × Begun → Prop
  | (fault, .grow range) => range ∈ vm.live ∧ fault.addr < (vm.ranges range).end_
  | (fault, .skip (some range)) => range ∈ vm.live ∧ fault.addr < (vm.ranges range).end_ ∧
      (fault.exiting = true ∨ (vm.ranges range).start ≤ fault.addr)
  | _ => True

/-- Running faults hold ranges that are still linked. -/
structure Faults.Ok (state : Faults) : Prop extends Invariant state.vm where
  running : ∀ entry ∈ state.running, Holds state.vm entry

theorem Holds.of_downwards {entry : Fault × Begun} (holds : Holds vm entry)
    (live : vm'.live = vm.live) (upper : ∀ o, (vm'.ranges o).end_ = (vm.ranges o).end_)
    (down : ∀ o, (vm'.ranges o).start ≤ (vm.ranges o).start) : Holds vm' entry := by
  match entry, holds with
  | (_, .grow range), ⟨linked, below⟩ => exact ⟨live ▸ linked, upper range ▸ below⟩
  | (_, .skip (some range)), ⟨linked, below, reason⟩ =>
    exact ⟨live ▸ linked, upper range ▸ below, reason.imp_right (down range).trans⟩
  | (_, .skip none), _ => trivial
  | (_, .failed), _ => trivial

theorem Faults.Ok.exec {env : Env} {fuel : Nat} {state next : Faults} {op : FaultOp}
    (ok : state.Ok) (orderly : state.Orderly own op) (ran : state.exec env fuel op = some next) :
    next.Ok ∧ state.StepOk own op next := by
  cases op with
  | begin stack fault =>
    cases begun : beginFault stack state.vm fault with
    | mk found vm' =>
    obtain ⟨same, inv, ranges, spec⟩ := beginFault_spec ok.toInvariant begun
    simp only [Faults.exec, begun] at ran
    cases ran
    have old (entry) (isRunning : entry ∈ state.running) : Holds vm' entry :=
      (ok.running entry isRunning).of_downwards same.live (by simp [ranges]) (by simp [ranges])
    refine ⟨⟨inv, fun entry isRunning => ?_⟩,
      ⟨inv.wellFormed, by simp [ranges], by simp [ranges], nofun⟩⟩
    simp only at isRunning
    split at isRunning
    · exact old entry isRunning
    rcases mem_cons.mp isRunning with rfl | isOld
    · match found, spec with
      | .failed, _ | .skip none, _ => trivial
      | .skip (some range), ⟨linked, upper, .inl ⟨above, _⟩⟩ =>
        exact ⟨same.live ▸ linked, ranges ▸ upper, .inr (ranges ▸ above)⟩
      | .skip (some range), ⟨linked, upper, .inr ⟨below, file⟩⟩ =>
        exact ⟨same.live ▸ linked, ranges ▸ upper, .inl (orderly range linked below file)⟩
      | .grow range, ⟨upper, below, _⟩ => exact ⟨same.live ▸ below.linked, ranges ▸ upper⟩
    · exact old entry isOld
  | grow fault range =>
    simp only [Faults.exec] at ran
    split at ran
    next isRunning =>
      cases ran
      obtain ⟨above, growable, inside⟩ := orderly
      obtain ⟨linked, upper⟩ := ok.running _ isRunning
      obtain ⟨down, moved⟩ := growRange_moves above
      have inv := ok.toInvariant.growRange linked above growable
      refine ⟨⟨inv, fun entry isEntry => ?_⟩,
        ⟨inv.wellFormed, down, fun o lower => moved o lower ▸ inside, nofun⟩⟩
      rcases mem_cons.mp isEntry with rfl | isOld
      · have covers := growRange_covers upper
        exact ⟨linked, covers.2, .inr covers.1⟩
      · refine (ok.running entry (mem_of_mem_erase isOld)).of_downwards rfl (fun o => ?_) down
        rw [growRange, setStart_eq]
    · cases ran
  | check fault range =>
    simp only [Faults.exec] at ran
    split at ran
    next isRunning =>
      cases ran
      obtain ⟨inv, ranges, live, -⟩ := checkFault_spec ok.toInvariant
        (Prod.eta (checkFault state.vm fault range)).symm
      refine ⟨⟨inv, fun entry isEntry => ?_⟩, checkFault_ok ok.toInvariant (fun _ => le_rfl)
        (fun _ lower => absurd lower (lt_irrefl _)) range ?_⟩
      · exact (ok.running entry (mem_of_mem_erase isEntry)).of_downwards live
          (by simp [ranges]) (by simp [ranges])
      · rintro found rfl
        obtain ⟨-, upper, reason⟩ := ok.running _ isRunning
        exact reason.imp_right (⟨·, upper⟩)
    · cases ran
  | call op =>
    simp only [Faults.exec] at ran
    split at ran
    next passed =>
      obtain ⟨vm, called, rfl⟩ := Option.map_eq_some_iff.mp ran
      have inv := invariant_exec ok.toInvariant passed orderly.1 called
      refine ⟨⟨inv, fun entry isRunning => ?_⟩, inv.wellFormed⟩
      obtain ⟨fault, found⟩ := entry
      obtain rfl : found = .skip none := orderly.2 _ isRunning
      trivial
    · cases ran

end McKernel.Vm
