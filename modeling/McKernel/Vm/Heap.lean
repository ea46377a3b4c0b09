import McKernel.Vm.AddressSpace
import McKernel.Vm.RemoveView

/-!
# The heap

`brk` keeps two ends of the heap: the break, and the end of what is mapped, which runs
ahead of the break by the heap extension.  A process is its address space with the bytes
of the pages that are in its page table.  Pages are mapped and cleared when a range is
added, or cleared and mapped by the fault handler; other mappings come and go meanwhile.
-/

namespace McKernel.Vm

open ProcessVm Extent

/-- A process: a byte is absent until its page is in the page table. -/
structure Process extends ProcessVm where
  memory : Nat → Option Nat

/-- The pages that the allocator hands out. `frame` are the bytes of such a page, `leftover`
is what a call leaves in the page table that fails after it has begun to map pages. With
`zero_at_free` pages are cleared when they are freed. -/
structure HeapEnv extends Env where
  zeroAtFree : Bool
  frame : Nat → Nat → Nat
  leftover : Nat → Nat → Option Nat
  freeClear : zeroAtFree = true → ∀ call point, frame call point = 0

/-- `add_process_memory_range` gets as far as the page table. -/
def touchesPages (env : Env) (vm : ProcessVm) (start end_ : Nat) (phys : Option Nat)
    (flag : Nat) : Bool :=
  mapsPages phys flag && decide (vm.region.userStart ≤ start) &&
    decide (end_ ≤ vm.region.userEnd) && (kmalloc env vm).1.isSome

/-- The condition of `add_process_memory_range` under "Clear content!". -/
def clearsPages (phys : Option Nat) (flag : Nat) : Bool :=
  phys.isSome && !hasFlag flag VR_REMOTE && !hasFlag flag VR_DEMAND_PAGING &&
    hasFlag flag VR_PROT_MASK

/-- The bytes after `add_process_memory_range`. -/
def addedMemory (env : HeapEnv) (vm : ProcessVm) (memory : Nat → Option Nat) (start end_ : Nat)
    (phys : Option Nat) (flag : Nat) (ok : Bool) (point : Nat) : Option Nat :=
  if touchesPages env.toEnv vm start end_ phys flag ∧ start ≤ point ∧ point < end_ then
    if ok then
      some (if clearsPages phys flag && !env.zeroAtFree then 0 else env.frame vm.clock point)
    else env.leftover vm.clock point
  else memory point

/-- The pages that `extend_process_region` hands on, `p`. -/
def heapPhys (env : Env) (vm : ProcessVm) : Option Nat := some ((env.allocPages vm.clock).getD 0)

def heapFlag (env : Env) (vm : ProcessVm) : Nat :=
  if env.allocPages vm.clock = none then brkFlag ||| VR_DEMAND_PAGING else brkFlag

def ProcessVm.newEnd (vm : ProcessVm) (address : Nat) : Nat :=
  newEndAllocated vm.heapExtension vm.region.brkEndAllocated address

/-- `brk`, and the bytes of what it maps. -/
def Process.brk (env : HeapEnv) (process : Process) (address : Nat) : Nat × Process :=
  let region := process.region
  let (result, vm) := Vm.brk env.toEnv process.toProcessVm address
  if address < region.brkStart ∨ address < region.brkEnd ∨ address < region.brkEndAllocated then
    (result, ⟨vm, process.memory⟩)
  else
    (result, ⟨vm, addedMemory env process.toProcessVm.tick process.memory region.brkEndAllocated
      (process.toProcessVm.newEnd address) (heapPhys env.toEnv process.toProcessVm)
      (heapFlag env.toEnv process.toProcessVm)
      (vm.region.brkEndAllocated ≠ region.brkEndAllocated)⟩)

/-- The fault handler: the bytes of the page that are not there are cleared, or come from the
object of the range. A page that does not fit into the range is not used. -/
def Process.fault (process : Process) (addr size : Nat) (bytes : Nat → Nat) : Process :=
  match process.live.find? fun range => decide (Covers (process.ranges range) addr) with
  | none => process
  | some range =>
    let page := addr / size * size
    if (process.ranges range).start ≤ page ∧ page + size ≤ (process.ranges range).end_ then
      ⟨process.toProcessVm, fun point =>
        if page ≤ point ∧ point < page + size ∧ process.memory point = none then
          some (if (process.ranges range).memobj = 0 then 0 else bytes point)
        else process.memory point⟩
    else process

/-- Calls of `brk`, mappings that `mmap` adds, intervals that `munmap` or an `mmap` with
`MAP_FIXED` removes, page faults, and stores of the process. -/
inductive HeapOp where
  | brk (address : Nat)
  | mmap (start end_ : Nat) (phys : Option Nat) (flag memobj offset pgshift : Nat)
  | munmap (start end_ : Nat)
  | fault (addr size : Nat) (bytes : Nat → Nat)
  | store (addr byte : Nat)

def Process.exec (env : HeapEnv) (fuel : Nat) (process : Process) : HeapOp → Option Process
  | .brk address => some (process.brk env address).2
  | .mmap start end_ phys flag memobj offset pgshift =>
    let (result, vm) := addProcessMemoryRange env.toEnv process.toProcessVm start end_ phys flag
      memobj offset pgshift
    some ⟨vm, addedMemory env process.toProcessVm process.memory start end_ phys flag
      result.isOk⟩
  | .munmap start end_ =>
    (removeProcessMemoryRange env.toEnv fuel process.toProcessVm start end_).map
      fun (_, vm) => ⟨vm, fun point =>
        if process.view point ≠ none ∧ vm.view point = none then none else process.memory point⟩
  | .fault addr size bytes => some (process.fault addr size bytes)
  | .store addr byte =>
    some ⟨process.toProcessVm, fun point =>
      if point = addr ∧ process.memory addr ≠ none then some byte else process.memory point⟩

/-- What a new range needs: room in the user area, memory for the entry, a page table that
takes the pages, and an interval where nothing is mapped. -/
structure Grants (env : Env) (vm : ProcessVm) (start end_ : Nat) (phys : Option Nat)
    (flag : Nat) : Prop where
  lower : vm.region.userStart ≤ start
  upper : end_ ≤ vm.region.userEnd
  entry : (kmalloc env vm).1.isSome = true
  table : mapsPages phys flag = true → env.pageTable (vm.clock + 1) = none
  free : ∀ range ∈ vm.live, ¬ Meets (vm.ranges range) start end_

/-- A call that gets as far as the page table has what it needs: it does not leave pages
there that belong to nothing. -/
def Clean (env : Env) (vm : ProcessVm) (start end_ : Nat) (phys : Option Nat) (flag : Nat) :
    Prop :=
  touchesPages env vm start end_ phys flag = true → Grants env vm start end_ phys flag

/-- No sum of `brk` wraps around, and it has what it needs, unless the mapped end is the
break and no page is touched. Nothing is unmapped from the heap, and nothing is stored
behind the break. -/
def Regular (env : HeapEnv) (process : Process) : HeapOp → Prop
  | .brk address =>
    process.region.brkStart ≤ address → process.region.brkEndAllocated ≤ address →
      BrkFits process.toProcessVm address ∧
      let granted (condition : Env → ProcessVm → Nat → Nat → Option Nat → Nat → Prop) : Prop :=
        condition env.toEnv process.toProcessVm.tick process.region.brkEndAllocated
          (process.toProcessVm.newEnd address) (heapPhys env.toEnv process.toProcessVm)
          (heapFlag env.toEnv process.toProcessVm)
      granted Clean ∧ (process.region.brkEnd = process.region.brkEndAllocated ∨ granted Grants)
  | .mmap start end_ phys flag _ _ _ =>
    start < end_ ∧ pageSize ∣ start ∧ pageSize ∣ end_ ∧
      Clean env.toEnv process.toProcessVm start end_ phys flag
  | .munmap start end_ =>
    start < end_ ∧ pageSize ∣ start ∧ pageSize ∣ end_ ∧
      (end_ ≤ process.region.brkStart ∨ process.region.brkEndAllocated ≤ start) ∧
      ¬ InStraight process.toProcessVm start end_ ∧
      ∀ range ∈ process.live, (process.ranges range).straightStart = 0
  | .fault _ _ _ => True
  | .store addr _ => ¬(process.region.brkEnd ≤ addr ∧ addr < process.region.brkEndAllocated)

/-- An address mapped as heap, perhaps to be paged in on demand. -/
def IsHeap (vm : ProcessVm) (point : Nat) : Prop :=
  ∃ view, vm.view point = some view ∧ view.object = none ∧
    (view.flag = brkFlag ∨ view.flag = brkFlag ||| VR_DEMAND_PAGING)

/-- What the process reads at an address, when its page is there or has been faulted in. -/
def Process.Reads (process : Process) (point byte : Nat) : Prop :=
  ∀ bytes, (process.fault point pageSize bytes).memory point = some byte

/-- The invariant of the heap. Behind the break nothing has been stored yet. -/
structure HeapOk (process : Process) : Prop where
  invariant : Invariant process.toProcessVm
  lower : process.region.brkStart ≤ process.region.brkEnd
  upper : process.region.brkEnd ≤ process.region.brkEndAllocated
  heap : ∀ point, process.region.brkStart ≤ point →
    point < process.region.brkEndAllocated → IsHeap process.toProcessVm point
  zero : ∀ point, process.region.brkEnd ≤ point → point < process.region.brkEndAllocated →
    process.memory point = none ∨ process.memory point = some 0
  resident : ∀ point, process.view point = none → process.memory point = none

/-- The answer of `brk`: the break is where it was asked to be and what is between is
accessible and zero, or nothing changes and the answer is the break. -/
def Answers (process next : Process) (address result : Nat) : Prop :=
  (result = address ∧ next.region.brkEnd = address ∧
    ∀ point, process.region.brkEnd ≤ point → point < address →
      IsHeap next.toProcessVm point ∧ next.Reads point 0) ∨
  result = process.region.brkEnd ∧ next.region.brkEnd = process.region.brkEnd ∧
    next.region.brkEndAllocated = process.region.brkEndAllocated

variable {env : HeapEnv} {vm vm' : ProcessVm} {process next : Process} {address p : Nat}

/-! ## What a new range needs -/

theorem add_ok_iff {env : Env} (memobj off pgshift : Nat) (inv : Invariant vm)
    (nonempty : start < end_) :
    (addProcessMemoryRange env vm start end_ phys flag memobj off pgshift).1.isOk = true ↔
      Grants env vm start end_ phys flag := by
  unfold addProcessMemoryRange
  split
  next outside =>
    refine ⟨fun ok => (Bool.false_ne_true ok).elim, fun grants => ?_⟩
    have := grants.lower
    have := grants.upper
    omega
  next inside =>
    simp only [not_or, Nat.not_lt] at inside
    cases allocated : kmalloc env vm with | mk found vm₁ =>
    obtain ⟨rfl, fresh⟩ := kmalloc_spec allocated
    cases found with
    | none =>
      exact ⟨fun ok => (Bool.false_ne_true ok).elim,
        fun grants => by simpa [allocated] using grants.entry⟩
    | some r =>
      have fresh := fresh r rfl
      simp only
      generalize stored : vm.tick.write r
        ⟨start, end_, flag, 0, memobj, off, pgshift, 0⟩ = vm₂
      have same₂ : SameLayout vm vm₂ := by
        rw [← stored]
        exact (sameLayout_tick vm).trans (sameLayout_write fun linked => absurd linked fresh)
      -- The insertion succeeds when the interval is free.
      have inserts (vm₃ : ProcessVm) (same : SameLayout vm vm₃)
          (entry : vm₃.ranges r = ⟨start, end_, flag, 0, memobj, off, pgshift, 0⟩) :
          (vmRangeInsert vm₃ r).1 = none ↔
            ∀ o ∈ vm.live, ¬ Meets (vm.ranges o) start end_ := by
        have meets (o : Nat) (linked : o ∈ vm.live) :
            Meets (vm₃.ranges o) start end_ ↔ Meets (vm.ranges o) start end_ := by
          rw [Meets, Meets, same.start o linked, same.end_ o linked]
        rcases vmRangeInsert_spec (same.wellFormed inv.wellFormed)
          (by rw [entry]; exact nonempty) with
          ⟨o, linked, overlaps, res⟩ | ⟨front, back, tree, position, -, below, above, res⟩
        · rw [entry] at overlaps
          rw [same.live] at linked
          rw [res]
          exact ⟨fun inserted => (Option.some_ne_none _ inserted).elim,
            fun free => absurd ((meets o linked).mp overlaps) (free o linked)⟩
        · rw [res]
          refine ⟨fun _ o linked overlaps => ?_, fun _ => rfl⟩
          obtain ⟨begins, ends⟩ := (meets o linked).mpr overlaps
          rw [entry] at below above
          rw [← same.live, position] at linked
          rcases List.mem_append.mp linked with inFront | inBack
          · have : (vm₃.ranges o).end_ ≤ start := below o inFront
            omega
          · have : end_ ≤ (vm₃.ranges o).start := above o inBack
            omega
      have entry₂ : vm₂.ranges r = ⟨start, end_, flag, 0, memobj, off, pgshift, 0⟩ := by
        simp [← stored, write]
      have clock : vm₂.clock = vm.clock + 1 := by rw [← stored]; rfl
      have grants : Grants env vm start end_ phys flag ↔
          (mapsPages phys flag = true → env.pageTable (vm.clock + 1) = none) ∧
            ∀ o ∈ vm.live, ¬ Meets (vm.ranges o) start end_ :=
        ⟨fun grants => ⟨grants.table, grants.free⟩, fun needs =>
          ⟨inside.1, inside.2, by simp [allocated], needs.1, needs.2⟩⟩
      rw [grants]
      by_cases maps : mapsPages phys flag = true
      · simp only [if_pos maps, pageTable, clock]
        cases table : env.pageTable (vm.clock + 1) with
        | some error =>
          exact ⟨fun ok => (Bool.false_ne_true ok).elim, fun needs => by simpa using needs.1 maps⟩
        | none =>
          have inserted := inserts vm₂.tick (same₂.trans (sameLayout_tick vm₂)) entry₂
          rcases insertion : vmRangeInsert vm₂.tick r with ⟨_ | error, vm₃⟩ <;>
            rw [insertion] at inserted <;> simp_all [Except.isOk, Except.toBool]
      · simp only [if_neg maps]
        have inserted := inserts vm₂ same₂ entry₂
        rcases insertion : vmRangeInsert vm₂ r with ⟨_ | error, vm₃⟩ <;>
          rw [insertion] at inserted <;> simp_all [Except.isOk, Except.toBool]

theorem extend_result {env : Env} {newEnd : Nat} (inv : Invariant vm) (fits : BrkFits vm address)
    (reaches : vm.region.brkEndAllocated ≤ address)
    (called : extendProcessRegion env vm vm.region.brkEndAllocated address brkFlag =
      (newEnd, vm')) :
    newEnd = vm.region.brkEndAllocated ∧
        ¬ Grants env vm.tick vm.region.brkEndAllocated (vm.newEnd address) (heapPhys env vm)
          (heapFlag env vm) ∨
      newEnd = vm.newEnd address ∧
        Grants env vm.tick vm.region.brkEndAllocated (vm.newEnd address) (heapPhys env vm)
          (heapFlag env vm) := by
  have nonempty : vm.region.brkEndAllocated < vm.newEnd address :=
    (newEndAllocated_spec fits reaches).2.1
  rw [← add_ok_iff 0 0 (heapAlignShift vm.heapExtension) (extends_tick inv).invariant nonempty]
  have unfolds (res : Except Errno Nat × ProcessVm) (added : addProcessMemoryRange env vm.tick
      vm.region.brkEndAllocated (vm.newEnd address) (heapPhys env vm) (heapFlag env vm) 0 0
      (heapAlignShift vm.heapExtension) = res) := congrArg (Except.isOk ∘ Prod.fst) added
  simp only [Function.comp] at unfolds
  simp only [extendProcessRegion] at called
  split at called
  next added =>
    cases called
    exact .inl ⟨rfl, by rw [unfolds _ added]; exact Bool.false_ne_true⟩
  next added =>
    cases called
    exact .inr ⟨rfl, by rw [unfolds _ added]; rfl⟩

/-- The pages that `extend_process_region` has got are cleared. -/
theorem clearsPages_heap {env : Env}
    (maps : mapsPages (heapPhys env vm) (heapFlag env vm) = true) :
    clearsPages (heapPhys env vm) (heapFlag env vm) = true := by
  unfold heapFlag at maps ⊢
  split at maps
  · have demand : mapsPages (heapPhys env vm) (brkFlag ||| VR_DEMAND_PAGING) = false := rfl
    rw [demand] at maps
    cases maps
  next allocated =>
    rw [if_neg allocated]
    rfl

/-! ## Steps that leave the heap where it is -/

theorem view_extends (inv : Invariant vm) (extends_ : Extends vm vm')
    (kept : ∀ r ∈ vm.live, vm'.ranges r = vm.ranges r) {view : View}
    (seen : vm.view p = some view) : vm'.view p = some view := by
  rcases view_cases inv.wellFormed p with ⟨r, linked, covers, viewed⟩ | ⟨-, none⟩
  · rw [← seen, viewed, ← kept r linked]
    exact extends_.invariant.wellFormed.view_of_covers (extends_.retains r linked).linked
      (by rwa [kept r linked])
  · rw [none] at seen
    cases seen

theorem IsHeap.extends (heap : IsHeap vm p) (inv : Invariant vm) (extends_ : Extends vm vm')
    (kept : ∀ r ∈ vm.live, vm'.ranges r = vm.ranges r) : IsHeap vm' p := by
  obtain ⟨view, seen, heap⟩ := heap
  exact ⟨view, view_extends inv extends_ kept seen, heap⟩

theorem IsHeap.coarsens (heap : IsHeap vm p)
    (keeps : Option.Rel Coarsens (vm.view p) (vm'.view p)) : IsHeap vm' p := by
  obtain ⟨view, seen, heap⟩ := heap
  rw [seen] at keeps
  cases later : vm'.view p with
  | none =>
    rw [later] at keeps
    cases keeps
  | some view' =>
    rw [later] at keeps
    cases keeps with | some same =>
    rcases same with rfl | rfl
    · exact ⟨_, later, heap⟩
    · exact ⟨_, later, heap⟩

theorem IsHeap.memobj_eq (heap : IsHeap vm p) (wellFormed : WellFormed vm) (linked : r ∈ vm.live)
    (covers : Covers (vm.ranges r) p) : (vm.ranges r).memobj = 0 := by
  obtain ⟨view, seen, anonymous, -⟩ := heap
  cases seen.symm.trans (wellFormed.view_of_covers linked covers)
  simpa [VmRange.viewAt] using anonymous

/-- Pages get into the page table for a range that is added, or nothing changes. -/
theorem addedMemory_cases {phys : Option Nat} {flag : Nat} (ok : Bool)
    (memory : Nat → Option Nat) (clean : Clean env.toEnv vm start end_ phys flag)
    (succeeds : Grants env.toEnv vm start end_ phys flag → ok = true) (p : Nat) :
    addedMemory env vm memory start end_ phys flag ok p = memory p ∨
      (start ≤ p ∧ p < end_) ∧ Grants env.toEnv vm start end_ phys flag ∧
        mapsPages phys flag = true ∧ addedMemory env vm memory start end_ phys flag ok p =
          some (if clearsPages phys flag && !env.zeroAtFree then 0
            else env.frame vm.clock p) := by
  unfold addedMemory
  split
  next here =>
    have grants := clean here.1
    have maps : mapsPages phys flag = true := by
      simp only [touchesPages, Bool.and_eq_true] at here
      exact here.1.1.1.1
    exact .inr ⟨here.2, grants, maps, if_pos (succeeds grants)⟩
  · exact .inl rfl

/-- The fault handler fills in bytes of one range. -/
theorem fault_cases (process : Process) (addr size : Nat) (bytes : Nat → Nat) :
    (process.fault addr size bytes).toProcessVm = process.toProcessVm ∧
      ∀ p, (process.fault addr size bytes).memory p = process.memory p ∨
        ∃ r ∈ process.live, Covers (process.ranges r) p ∧
          (process.fault addr size bytes).memory p =
            some (if (process.ranges r).memobj = 0 then 0 else bytes p) := by
  unfold Process.fault
  split
  · exact ⟨rfl, fun _ => .inl rfl⟩
  next r found =>
    simp only
    split
    next inside =>
      refine ⟨rfl, fun p => ?_⟩
      by_cases here : addr / size * size ≤ p ∧ p < addr / size * size + size ∧
          process.memory p = none
      · refine .inr ⟨r, List.mem_of_find?_eq_some found, ?_, if_pos here⟩
        simp only [Covers, lo_vmRange, hi_vmRange]
        omega
      · exact .inl (if_neg here)
    · exact ⟨rfl, fun _ => .inl rfl⟩

/-- Heap memory that has not been written reads as zero. -/
theorem reads_zero (inv : Invariant process.toProcessVm) (heap : IsHeap process.toProcessVm p)
    (zero : process.memory p = none ∨ process.memory p = some 0) : process.Reads p 0 := by
  intro bytes
  obtain ⟨view, seen, -⟩ := id heap
  obtain ⟨r, found, -⟩ := Option.map_eq_some_iff.mp seen
  have linked := List.mem_of_find?_eq_some found
  have covers : Covers (process.ranges r) p := by simpa using List.find?_some found
  have memobj : (process.ranges r).memobj = 0 := heap.memobj_eq inv.wellFormed linked covers
  have valid := inv.wellFormed.valid_of_mem linked
  obtain ⟨first, start⟩ := valid.startAligned
  obtain ⟨last, end_⟩ := valid.endAligned
  have page : (process.ranges r).start ≤ p / pageSize * pageSize ∧
      p / pageSize * pageSize + pageSize ≤ (process.ranges r).end_ := by
    simp only [Covers, lo_vmRange, hi_vmRange] at covers
    simp only [pageSize] at start end_ ⊢
    omega
  simp only [Process.fault, found, if_pos page, memobj, if_true]
  rcases zero with absent | zero
  · refine if_pos ⟨Nat.div_mul_le_self p pageSize, ?_, absent⟩
    exact Nat.lt_div_mul_add (by decide)
  · rw [if_neg (by simp [zero]), zero]

/-- A step that leaves the ends of the heap alone. -/
theorem HeapOk.step (ok : HeapOk process) (invariant : Invariant next.toProcessVm)
    (region : next.region = process.region)
    (heap : ∀ p, process.region.brkStart ≤ p → p < process.region.brkEndAllocated →
      IsHeap process.toProcessVm p → IsHeap next.toProcessVm p)
    (zero : ∀ p, process.region.brkEnd ≤ p → p < process.region.brkEndAllocated →
      next.memory p = process.memory p ∨ next.memory p = some 0)
    (resident : ∀ p, next.view p = none → next.memory p = none) : HeapOk next := by
  refine ⟨invariant, ?_, ?_, ?_, ?_, resident⟩ <;> rw [region]
  · exact ok.lower
  · exact ok.upper
  · exact fun p lower upper => heap p lower upper (ok.heap p lower upper)
  · intro p lower upper
    rcases zero p lower upper with same | cleared
    · rw [same]
      exact ok.zero p lower upper
    · exact .inr cleared

theorem view_eq_none_of_extends (inv : Invariant vm) (extends_ : Extends vm vm')
    (kept : ∀ r ∈ vm.live, vm'.ranges r = vm.ranges r) (unseen : vm'.view p = none) :
    vm.view p = none := by
  cases seen : vm.view p with
  | none => rfl
  | some view => exact absurd (view_extends inv extends_ kept seen) (by simp [unseen])

theorem HeapOk.mmap (ok : HeapOk process)
    (regular : Regular env process (.mmap start end_ phys flag memobj off pgshift))
    (added : addProcessMemoryRange env.toEnv process.toProcessVm start end_ phys flag memobj off
      pgshift = (res, vm')) :
    HeapOk ⟨vm', addedMemory env process.toProcessVm process.memory start end_ phys flag
      res.isOk⟩ := by
  obtain ⟨nonempty, startAligned, endAligned, clean⟩ := regular
  have adds := add_spec ok.invariant nonempty startAligned endAligned added
  have succeeds (grants : Grants env.toEnv process.toProcessVm start end_ phys flag) :
      res.isOk = true := by
    have isOk := (add_ok_iff memobj off pgshift ok.invariant nonempty).mpr grants
    rwa [added] at isOk
  have memory := addedMemory_cases _ process.memory clean succeeds
  refine ok.step adds.invariant adds.region
    (fun p _ _ heap => heap.extends ok.invariant adds.toExtends adds.kept) ?_ ?_
  · intro p lower upper
    refine (memory p).imp id fun ⟨inside, grants, _⟩ => ?_
    obtain ⟨view, seen, -⟩ := ok.heap p (ok.lower.trans lower) upper
    rw [view_eq_none_of_clear grants.free inside.1 inside.2] at seen
    cases seen
  · intro p unseen
    rcases memory p with same | ⟨inside, grants, -⟩
    · exact same.trans (ok.resident p
        (view_eq_none_of_extends ok.invariant adds.toExtends adds.kept unseen))
    · cases res with
      | error error => cases succeeds grants
      | ok new =>
        obtain ⟨linked, entry⟩ := adds.added new rfl
        have covers : Covers (vm'.ranges new) p := by
          rw [entry]
          exact inside
        cases unseen.symm.trans (adds.invariant.wellFormed.view_of_covers linked covers)

theorem HeapOk.munmap (ok : HeapOk process) (regular : Regular env process (.munmap start end_))
    (removed : removeProcessMemoryRange env.toEnv fuel process.toProcessVm start end_ =
      some (res, vm')) :
    HeapOk ⟨vm', fun p =>
      if process.view p ≠ none ∧ vm'.view p = none then none else process.memory p⟩ := by
  obtain ⟨interval, startAligned, endAligned, apart, proper, notStraight⟩ := regular
  obtain ⟨invariant, -, region⟩ := remove_spec ok.invariant startAligned endAligned removed
  have mapped : Mapped process.toProcessVm := by
    refine ⟨ok.invariant, fun r linked => ?_⟩
    have upper := (ok.invariant.wellFormed.valid_of_mem linked).upper
    have bound := ok.invariant.region.userEnd
    have small : userEndMax < 2 ^ 64 := by decide
    have straight : (process.ranges r).straightStart = 0 := notStraight r linked
    omega
  have heap (p : Nat) (lower : process.region.brkStart ≤ p)
      (upper : p < process.region.brkEndAllocated) (heap : IsHeap process.toProcessVm p) :
      IsHeap vm' p :=
    heap.coarsens (((remove_view env.toEnv mapped interval startAligned endAligned proper).2
      res vm' removed).1.keeps p (by omega))
  refine ok.step invariant region heap ?_ ?_
  · intro p lower upper
    obtain ⟨view, seen, -⟩ := heap p (ok.lower.trans lower) upper
      (ok.heap p (ok.lower.trans lower) upper)
    exact .inl (if_neg fun gone => by simp [seen] at gone)
  · intro p unseen
    by_cases before : process.view p = none
    · exact (if_neg fun gone => gone.1 before).trans (ok.resident p before)
    · exact if_pos ⟨before, unseen⟩

theorem HeapOk.fault (ok : HeapOk process) (addr size : Nat) (bytes : Nat → Nat) :
    HeapOk (process.fault addr size bytes) := by
  obtain ⟨same, memory⟩ := fault_cases process addr size bytes
  refine ok.step (same ▸ ok.invariant) (congrArg ProcessVm.region same)
    (fun p _ _ heap => same ▸ heap) ?_ ?_
  · intro p lower upper
    refine (memory p).imp id fun ⟨r, linked, covers, filled⟩ => ?_
    have heap := ok.heap p (ok.lower.trans lower) upper
    rw [filled, if_pos (heap.memobj_eq ok.invariant.wellFormed linked covers)]
  · intro p unseen
    rw [congrArg ProcessVm.view same] at unseen
    rcases memory p with same | ⟨r, linked, covers, -⟩
    · exact same.trans (ok.resident p unseen)
    · rw [ok.invariant.wellFormed.view_of_covers linked covers] at unseen
      cases unseen

theorem HeapOk.store (ok : HeapOk process) (regular : Regular env process (.store addr byte)) :
    HeapOk ⟨process.toProcessVm, fun p =>
      if p = addr ∧ process.memory addr ≠ none then some byte else process.memory p⟩ := by
  refine ok.step ok.invariant rfl (fun p _ _ heap => heap) ?_ ?_
  · intro p lower upper
    refine .inl (if_neg fun here => regular ?_)
    rw [← here.1]
    exact ⟨lower, upper⟩
  · intro p unseen
    have absent := ok.resident p unseen
    exact (if_neg fun here => here.2 (here.1 ▸ absent)).trans absent

/-! ## Calls of `brk` -/

/-- A call that moves the break within what is mapped. -/
theorem HeapOk.moveBreak (ok : HeapOk process) (above : process.region.brkEnd ≤ address)
    (inside : address ≤ process.region.brkEndAllocated) :
    HeapOk { process with region := { process.region with brkEnd := address } } := by
  refine ⟨ok.invariant.setRegion rfl rfl ok.invariant.region.mapAligned
    ok.invariant.region.brkAligned, ok.lower.trans above, inside, ok.heap, ?_, ok.resident⟩
  intro p (behind : address ≤ p) before
  exact ok.zero p (above.trans behind) before

section Extend

variable {newEnd : Nat} (ok : HeapOk process)
  (fits : BrkFits process.toProcessVm address)
  (reaches : process.region.brkEndAllocated ≤ address)
  (called : extendProcessRegion env.toEnv process.toProcessVm process.region.brkEndAllocated
    address brkFlag = (newEnd, vm'))
  (clean : Clean env.toEnv process.toProcessVm.tick process.region.brkEndAllocated
    (process.toProcessVm.newEnd address) (heapPhys env.toEnv process.toProcessVm)
    (heapFlag env.toEnv process.toProcessVm))

include ok fits reaches called clean

/-- A call that extends what is mapped, or tries to; the break stays where it is for now. -/
theorem HeapOk.extend :
    HeapOk ⟨{ vm' with region := { vm'.region with brkEndAllocated := newEnd } },
      addedMemory env process.toProcessVm.tick process.memory process.region.brkEndAllocated
        (process.toProcessVm.newEnd address) (heapPhys env.toEnv process.toProcessVm)
        (heapFlag env.toEnv process.toProcessVm)
        (decide (newEnd ≠ process.region.brkEndAllocated))⟩ := by
  obtain ⟨extends_, aligned, kept, grown⟩ :=
    extendProcessRegion_spec ok.invariant fits reaches called
  have region := extends_.region
  have outcome := extend_result ok.invariant fits reaches called
  have grows : process.region.brkEndAllocated < process.toProcessVm.newEnd address :=
    (newEndAllocated_spec fits reaches).2.1
  have memory := addedMemory_cases (decide (newEnd ≠ process.region.brkEndAllocated))
    process.memory clean fun grants => by
      obtain ⟨rfl, -⟩ := outcome.resolve_left fun failed => failed.2 grants
      simpa using grows.ne'
  have heap (p : Nat) (behind : process.region.brkStart ≤ p) (before : p < newEnd) :
      IsHeap vm' p := by
    by_cases old : p < process.region.brkEndAllocated
    · exact (ok.heap p behind old).extends ok.invariant extends_ kept
    · obtain ⟨-, new, linked, starts, ends, memobj, flags⟩ := grown.resolve_left (by omega)
      have covers : Covers (vm'.ranges new) p := by
        simp only [Covers, lo_vmRange, hi_vmRange]
        omega
      exact ⟨_, extends_.invariant.wellFormed.view_of_covers linked covers,
        by simp [VmRange.viewAt, memobj], flags⟩
  have ends := ok.lower.trans ok.upper
  refine ⟨extends_.invariant.setRegion rfl rfl extends_.invariant.region.mapAligned aligned,
    ?_, ?_, fun p behind => heap p (region ▸ behind), ?_, ?_⟩
  · simpa only [region] using ok.lower
  · have upper := ok.upper
    simp only [region]
    rcases outcome with ⟨rfl, -⟩ | ⟨rfl, -⟩
    · exact upper
    · exact upper.trans grows.le
  · intro p behind (before : p < newEnd)
    simp only [region] at behind
    rcases memory p with same | ⟨-, -, maps, filled⟩
    · by_cases old : p < process.region.brkEndAllocated
      · exact (ok.zero p behind old).imp same.trans same.trans
      · -- Demand paging: nothing was mapped here, so no page is here.
        obtain ⟨rfl, grants⟩ := outcome.resolve_left (by omega)
        exact .inl (same.trans (ok.resident p
          (view_eq_none_of_clear grants.free (by omega) before)))
    · refine .inr (filled.trans (congrArg some ?_))
      rw [clearsPages_heap maps]
      cases clear : env.zeroAtFree with
      | false => rfl
      | true => exact env.freeClear clear _ _
  · intro p unseen
    rcases memory p with same | ⟨inside, grants, -⟩
    · exact same.trans (ok.resident p (view_eq_none_of_extends ok.invariant extends_ kept unseen))
    · obtain ⟨rfl, -⟩ := outcome.resolve_left fun failed => failed.2 grants
      obtain ⟨view, seen, -⟩ := heap p (by omega) inside.2
      cases seen.symm.trans unseen

end Extend

theorem HeapOk.brk (ok : HeapOk process) (regular : Regular env process (.brk address)) :
    HeapOk (process.brk env address).2 ∧
      Answers process (process.brk env address).2 address (process.brk env address).1 := by
  have lower := ok.lower
  have upper := ok.upper
  -- After the break has moved, what it has passed is heap and reads as zero.
  have answers {next : Process} (extended : HeapOk next)
      (start : next.region.brkStart = process.region.brkStart)
      (end_ : next.region.brkEnd = process.region.brkEnd) (above : process.region.brkEnd ≤ address)
      (inside : address ≤ next.region.brkEndAllocated) :
      HeapOk { next with region := { next.region with brkEnd := address } } ∧
        Answers process { next with region := { next.region with brkEnd := address } } address
          address := by
    refine ⟨extended.moveBreak (by omega) inside, .inl ⟨rfl, rfl, fun p behind before => ?_⟩⟩
    have heap := extended.heap p (by omega) (by omega)
    have zero := extended.zero p (by omega) (by omega)
    exact ⟨heap, reads_zero (extended.moveBreak (by omega) inside).invariant heap zero⟩
  simp only [Process.brk, Vm.brk]
  by_cases below : address < process.region.brkStart ∨ address < process.region.brkEnd
  · rw [if_pos below, if_pos (by omega)]
    exact ⟨ok, .inr ⟨rfl, rfl, rfl⟩⟩
  rw [if_neg below]
  by_cases inside : address < process.region.brkEndAllocated
  · rw [if_pos inside, if_pos (by omega)]
    exact answers ok rfl rfl (by omega) inside.le
  rw [if_neg inside, if_neg (by omega)]
  obtain ⟨fits, clean, succeeds⟩ := regular (by omega) (by omega)
  generalize called : extendProcessRegion env.toEnv process.toProcessVm _ address brkFlag = pair
  obtain ⟨newEnd, vm'⟩ := pair
  have extended := ok.extend fits (by omega) called clean
  have region := (extendProcessRegion_spec ok.invariant fits (by omega) called).1.region
  simp only
  by_cases failed : newEnd = process.region.brkEndAllocated
  · have atEnd : process.region.brkEnd = process.region.brkEndAllocated := by
      refine succeeds.resolve_right fun grants => ?_
      obtain ⟨rfl, -⟩ := (extend_result ok.invariant fits (by omega) called).resolve_left
        fun failed => failed.2 grants
      exact (newEndAllocated_spec fits (by omega)).2.1.ne' failed
    subst failed
    simp only [if_true, region, ne_eq, not_true, decide_false]
    rw [show ({ vm' with region := { vm'.region with brkEndAllocated :=
      process.region.brkEndAllocated } } : ProcessVm) = vm' by rw [← region]] at extended
    simp only [ne_eq, not_true, decide_false] at extended
    exact ⟨extended, .inr ⟨atEnd.symm, by simp only [region], by simp only [region]⟩⟩
  · rw [if_neg failed]
    have reaches : address ≤ newEnd := by
      obtain ⟨-, -, -, grown⟩ := extendProcessRegion_spec ok.invariant fits (by omega) called
      exact (grown.resolve_left failed).1
    exact answers extended (by simp only [region]) (by simp only [region]) (by omega) reaches

theorem HeapOk.exec {op : HeapOp} (ok : HeapOk process) (regular : Regular env process op)
    (ran : process.exec env fuel op = some next) : HeapOk next := by
  cases op with
  | brk address =>
    cases ran
    exact (ok.brk regular).1
  | mmap start end_ phys flag memobj off pgshift =>
    cases ran
    exact ok.mmap regular rfl
  | munmap start end_ =>
    obtain ⟨⟨res, vm'⟩, removed, rfl⟩ := Option.map_eq_some_iff.mp ran
    exact ok.munmap regular removed
  | fault addr size bytes =>
    cases ran
    exact ok.fault addr size bytes
  | store addr byte =>
    cases ran
    exact ok.store regular

end McKernel.Vm
