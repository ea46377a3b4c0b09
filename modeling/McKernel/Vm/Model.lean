import McKernel.Lib.Errno
import McKernel.Lib.RbTree
import McKernel.Lib.ULong

/-!
# The memory ranges of a process

The model of the range functions of `kernel/process.c` and of the system calls that
move the bounds of ranges themselves, `brk` and `mremap`.  The ranges of an address
space are `struct vm_range` objects on the kernel heap, linked into a red-black tree;
code that holds a pointer to a range reads and writes the object even after the range
has left the tree.

The functions call into the kernel heap, the page table and the page allocator.  What
these answer is an arbitrary function of the number of calls made so far.
-/

namespace McKernel.Vm

open RbTree

/-! ## Ranges and address spaces -/

def largePageShift : Nat := 21

/-- `USER_END`. -/
def userEndMax : Nat := 0x800000000000

/-- `ULONG_MAX`, the `-1` passed as an upper bound. -/
def ulongMax : Nat := 2 ^ 64 - 1

/-- Bits of `vm_range.flag`. -/
def VR_RESERVED : Nat := 0x2
@[inherit_doc VR_RESERVED] def VR_IO_NOCACHE : Nat := 0x100
@[inherit_doc VR_RESERVED] def VR_REMOTE : Nat := 0x200
@[inherit_doc VR_RESERVED] def VR_WRITE_COMBINED : Nat := 0x400
@[inherit_doc VR_RESERVED] def VR_DEMAND_PAGING : Nat := 0x1000
@[inherit_doc VR_RESERVED] def VR_PRIVATE : Nat := 0x2000
@[inherit_doc VR_RESERVED] def VR_FILEOFF : Nat := 0x8000
@[inherit_doc VR_RESERVED] def VR_PROT_READ : Nat := 0x10000
@[inherit_doc VR_RESERVED] def VR_PROT_WRITE : Nat := 0x20000
@[inherit_doc VR_RESERVED] def VR_PROT_EXEC : Nat := 0x40000
@[inherit_doc VR_RESERVED] def VR_PROT_MASK : Nat := 0x70000

def MF_HUGETLBFS : Nat := 0x100000

/-- `flag & mask`, as a condition. -/
def hasFlag (flag mask : Nat) : Bool := flag &&& mask != 0

/-- `flag & ~mask`. -/
def clearFlag (flag mask : Nat) : Nat := flag &&& (2 ^ 64 - 1 - mask)

def vrflagProtToMaxprot (flag : Nat) : Nat := (flag &&& VR_PROT_MASK) <<< 4

/-- `struct vm_range`; `memobj` and `privateData` are addresses, `0` for null. -/
structure VmRange where
  start : Nat
  end_ : Nat
  flag : Nat
  straightStart : Nat
  memobj : Nat
  objoff : Nat
  pgshift : Nat
  privateData : Nat
  deriving DecidableEq, Repr

/-- The bounds of `struct vm_regions` that the range functions use. -/
structure VmRegions where
  userStart : Nat
  userEnd : Nat
  brkStart : Nat
  brkEnd : Nat
  brkEndAllocated : Nat
  mapEnd : Nat
  deriving DecidableEq, Repr

/-- `struct process_vm` with the members of its process that the range functions use.
`ranges` is the contents of the `vm_range` objects by address, `clock` counts the calls
out of this module. -/
structure ProcessVm where
  ranges : Nat → VmRange
  vmRangeTree : ColorTree Nat
  rangeCache : List (Option Nat)
  rangeCacheInd : Nat
  region : VmRegions
  straightVa : Nat
  straightLen : Nat
  heapExtension : Nat
  clock : Nat

/-- The answers of the kernel heap (`0` for failure), of the page-table functions and of
`ihk_mc_alloc_aligned_pages_user`, by the number of the call, and the flags of memory
objects. -/
structure Env where
  kmalloc : Nat → Nat
  pageTable : Nat → Option Errno
  allocPages : Nat → Option Nat
  memobjFlags : Nat → Nat

namespace ProcessVm

def live (vm : ProcessVm) : List Nat := vm.vmRangeTree.toList

def write (vm : ProcessVm) (address : Nat) (range : VmRange) : ProcessVm :=
  { vm with ranges := Function.update vm.ranges address range }

/-- Store the `end` member of a range. -/
def setEnd (vm : ProcessVm) (range newend : Nat) : ProcessVm :=
  vm.write range { vm.ranges range with end_ := newend }

/-- Store the `flag` member of a range. -/
def setFlag (vm : ProcessVm) (range flag : Nat) : ProcessVm :=
  vm.write range { vm.ranges range with flag }

/-- Store the `straight_start` member of a range. -/
def setStraightStart (vm : ProcessVm) (range straightStart : Nat) : ProcessVm :=
  vm.write range { vm.ranges range with straightStart }

/-- Count a call out of the module. -/
def tick (vm : ProcessVm) : ProcessVm := { vm with clock := vm.clock + 1 }

def rangeCacheSize : Nat := 4

def locate (vm : ProcessVm) (range : Nat) : Option (Zipper Nat) :=
  search (· == range) vm.vmRangeTree []

/-- Replace a range in `range_cache`. -/
def replaceCached (vm : ProcessVm) (range : Nat) (other : Option Nat) : ProcessVm :=
  { vm with rangeCache :=
      vm.rangeCache.map fun cached => if cached = some range then other else cached }

end ProcessVm

open ProcessVm

/-- `kmalloc` of a range object. The heap never hands out an object that is in use: an
answer that names a linked range counts as a failure. -/
def kmalloc (env : Env) (vm : ProcessVm) : Option Nat × ProcessVm :=
  let address := env.kmalloc vm.clock
  (if address = 0 ∨ address ∈ vm.live then none else some address, vm.tick)

def pageTable (env : Env) (vm : ProcessVm) : Option Errno × ProcessVm :=
  (env.pageTable vm.clock, vm.tick)

def nextProcessMemoryRange (vm : ProcessVm) (range : Nat) : Option Nat :=
  (vm.locate range).bind Zipper.nextValue?

/-! ## Lookup -/

def cachedRange (vm : ProcessVm) (start end_ : Nat) : Option Nat :=
  (List.range rangeCacheSize).findSome? fun i =>
    match vm.rangeCache.getD ((i + vm.rangeCacheInd) % rangeCacheSize) none with
    | none => none
    | some range =>
      if (vm.ranges range).start ≤ start ∧ end_ ≤ (vm.ranges range).end_ then some range
      else none

/-- The descent of `lookup_process_memory_range`: a match that begins behind `start` is
kept while the left subtree is tried. -/
def firstMatch (ranges : Nat → VmRange) (start end_ : Nat) :
    ColorTree Nat → Option Nat → Option Nat
  | .nil, found => found
  | .node _ left range right, found =>
    if end_ ≤ (ranges range).start then firstMatch ranges start end_ left found
    else if (ranges range).end_ ≤ start then firstMatch ranges start end_ right found
    else if start < (ranges range).start then
      firstMatch ranges start end_ left (some range)
    else some range

/-- `lookup_process_memory_range`. -/
def lookupProcessMemoryRange (vm : ProcessVm) (start end_ : Nat) : Option Nat × ProcessVm :=
  if end_ ≤ start then (none, vm)
  else
    match cachedRange vm start end_ with
    | some range => (some range, vm)
    | none =>
      match firstMatch vm.ranges start end_ vm.vmRangeTree none with
      | none => (none, vm)
      | some range =>
        let ind := (vm.rangeCacheInd + (rangeCacheSize - 1)) % rangeCacheSize
        (some range,
          { vm with rangeCacheInd := ind, rangeCache := vm.rangeCache.set ind (some range) })

/-! ## Adding a range -/

/-- Where `vm_range_insert` turns at a linked range. -/
def insertTurn (ranges : Nat → VmRange) (newrange : Nat) (range : Nat) : Turn :=
  if (ranges newrange).end_ ≤ (ranges range).start then .left
  else if (ranges range).end_ ≤ (ranges newrange).start then .right
  else .stop

/-- `vm_range_insert`. -/
def vmRangeInsert (vm : ProcessVm) (newrange : Nat) : Option Errno × ProcessVm :=
  match descend (insertTurn vm.ranges newrange) vm.vmRangeTree [] with
  | .found _ => (some .EFAULT, vm)
  | .hole path => (none, { vm with vmRangeTree := link newrange path })

/-- Whether `add_process_memory_range` fills the page table: not without physical pages
(`none` is `NOPHYS`), and not for ranges paged on demand or without permissions. -/
def mapsPages (phys : Option Nat) (flag : Nat) : Bool :=
  phys.isSome &&
    (hasFlag flag VR_REMOTE || hasFlag flag VR_IO_NOCACHE ||
      (!hasFlag flag VR_DEMAND_PAGING && hasFlag flag VR_PROT_MASK))

/-- `add_process_memory_range`; a success returns the new range. -/
def addProcessMemoryRange (env : Env) (vm : ProcessVm) (start end_ : Nat) (phys : Option Nat)
    (flag memobj offset pgshift : Nat) : Except Errno Nat × ProcessVm :=
  if start < vm.region.userStart ∨ vm.region.userEnd < end_ then (.error .EINVAL, vm)
  else
    match kmalloc env vm with
    | (none, vm) => (.error .ENOMEM, vm)
    | (some range, vm) =>
      let vm := vm.write range ⟨start, end_, flag, 0, memobj, offset, pgshift, 0⟩
      let (error, vm) := if mapsPages phys flag then pageTable env vm else (none, vm)
      match error with
      | some error => (.error error, vm)
      | none =>
        match vmRangeInsert vm range with
        | (some error, vm) => (.error error, vm)
        | (none, vm) => (.ok range, vm)

/-! ## Editing ranges in place -/

/-- A range that is cut at an address its page size does not divide loses that page size. -/
def dropPgshift (vm : ProcessVm) (range addr : Nat) : ProcessVm :=
  if (vm.ranges range).pgshift ≠ 0 ∧ addr &&& (2 ^ (vm.ranges range).pgshift - 1) ≠ 0 then
    vm.write range { vm.ranges range with pgshift := 0 }
  else vm

/-- `split_process_memory_range`: the range keeps the part below `addr`, the new range
that is returned gets the rest. -/
def splitProcessMemoryRange (env : Env) (vm : ProcessVm) (range addr : Nat) :
    Except Errno Nat × ProcessVm :=
  match pageTable env (dropPgshift vm range addr) with
  | (some error, vm) => (.error error, vm)
  | (none, vm) =>
    match kmalloc env vm with
    | (none, vm) => (.error .ENOMEM, vm)
    | (some newrange, vm) =>
      let old := vm.ranges range
      let offset := ULong.sub addr old.start
      let vm := vm.write newrange
        { start := addr
          end_ := old.end_
          flag := old.flag
          straightStart := if old.straightStart ≠ 0 then ULong.add old.straightStart offset
            else 0
          memobj := old.memobj
          objoff := if old.memobj ≠ 0 then ULong.add old.objoff offset else 0
          pgshift := old.pgshift
          privateData := old.privateData }
      let vm := vm.setEnd range addr
      match vmRangeInsert vm newrange with
      | (some error, vm) => (.error error, vm)
      | (none, vm) => (.ok newrange, vm)

/-- `rb_erase` of a range. -/
def eraseRange (vm : ProcessVm) (range : Nat) : ProcessVm :=
  match vm.locate range with
  | some zipper => { vm with vmRangeTree := zipper.erase }
  | none => vm

/-- `join_process_memory_range`. -/
def joinProcessMemoryRange (vm : ProcessVm) (surviving merging : Nat) :
    Option Errno × ProcessVm :=
  let left := vm.ranges surviving
  let right := vm.ranges merging
  if left.end_ ≠ right.start ∨ left.flag ≠ right.flag ∨ left.memobj ≠ right.memobj then
    (some .EINVAL, vm)
  else if left.memobj ≠ 0 ∧
      ULong.add left.objoff (ULong.sub left.end_ left.start) ≠ right.objoff then
    (some .EINVAL, vm)
  else
    let vm := vm.setEnd surviving right.end_
    let vm := eraseRange vm merging
    (none, vm.replaceCached merging (some surviving))

def extendUpProcessMemoryRange (vm : ProcessVm) (range newend : Nat) :
    Option Errno × ProcessVm :=
  let entry := vm.ranges range
  if newend ≤ entry.end_ then (some .EINVAL, vm)
  else if vm.region.userEnd < newend then (some .EPERM, vm)
  else if (nextProcessMemoryRange vm range).any fun next => (vm.ranges next).start < newend then
    (some .ENOMEM, vm)
  else (none, vm.setEnd range newend)

/-- The page-table attributes of a range, `enum ihk_mc_pt_attribute`. -/
structure PtAttribute where
  active : Bool
  writable : Bool
  noExecute : Bool
  remote : Bool
  uncachable : Bool
  writeCombined : Bool
  dirty : Bool
  deriving DecidableEq, Repr

/-- `arch_vrflag_to_ptattr` with `PF_POPULATE`; the attributes every range has are left
out. -/
def archVrflagToPtattr (flag : Nat) : PtAttribute where
  active := hasFlag flag VR_PROT_MASK
  writable := hasFlag flag VR_PROT_WRITE
  noExecute := !hasFlag flag VR_PROT_EXEC
  remote := hasFlag flag VR_REMOTE
  uncachable := !hasFlag flag VR_REMOTE && hasFlag flag VR_IO_NOCACHE
  writeCombined := hasFlag flag VR_WRITE_COMBINED
  dirty := hasFlag flag VR_PRIVATE

/-- `left & ~right`. -/
def PtAttribute.andNot (left right : PtAttribute) : PtAttribute where
  active := left.active && !right.active
  writable := left.writable && !right.writable
  noExecute := left.noExecute && !right.noExecute
  remote := left.remote && !right.remote
  uncachable := left.uncachable && !right.uncachable
  writeCombined := left.writeCombined && !right.writeCombined
  dirty := left.dirty && !right.dirty

def PtAttribute.none : PtAttribute := ⟨false, false, false, false, false, false, false⟩

/-- The attributes to clear and to set when the flags of a range change. A private mapping
of an object (`copied`) stays read-only in the page table, so that a write faults and
copies the page. -/
def changedAttributes (copied : Bool) (oldflag newflag : Nat) : PtAttribute × PtAttribute :=
  let oldattr := archVrflagToPtattr oldflag
  let newattr := archVrflagToPtattr newflag
  let setattr := newattr.andNot oldattr
  (oldattr.andNot newattr, if copied then { setattr with writable := false } else setattr)

def changeProtProcessMemoryRange (env : Env) (vm : ProcessVm) (range protflag : Nat) :
    Option Errno × ProcessVm :=
  let entry := vm.ranges range
  let newflag := clearFlag entry.flag VR_PROT_MASK ||| (protflag &&& VR_PROT_MASK)
  let copied := entry.memobj != 0 && hasFlag entry.flag VR_PRIVATE &&
    !hasFlag (env.memobjFlags entry.memobj) MF_HUGETLBFS
  if entry.flag = newflag then (none, vm)
  else if copied && changedAttributes copied entry.flag newflag = (.none, .none) then
    (none, vm.setFlag range newflag)
  else
    match pageTable env vm with
    | (some error, vm) =>
      if error = .ENOENT then (none, vm.setFlag range newflag) else (some error, vm)
    | (none, vm) => (none, vm.setFlag range newflag)

/-! ## Removing ranges -/

/-- `free_process_memory_range`: errors of the page-table functions are ignored. -/
def freeProcessMemoryRange (vm : ProcessVm) (range : Nat) : ProcessVm :=
  let entry := vm.ranges range
  let vm := eraseRange vm range
  let vm := vm.replaceCached range none
  if entry.straightStart = 0 ∧ entry.start = vm.straightVa ∧
      entry.end_ = ULong.add vm.straightVa vm.straightLen then
    { vm with straightLen := 0 }
  else vm

/-- Split a range that begins below `addr`; the part from `addr` on is returned. -/
def splitBelow (env : Env) (vm : ProcessVm) (range addr : Nat) : Except Errno Nat × ProcessVm :=
  if (vm.ranges range).start < addr then splitProcessMemoryRange env vm range addr
  else (.ok range, vm)

/-- Split a range that ends above `addr`; the part below `addr` stays in the range. -/
def splitAbove (env : Env) (vm : ProcessVm) (range addr : Nat) : Except Errno Nat × ProcessVm :=
  if addr < (vm.ranges range).end_ then splitProcessMemoryRange env vm range addr
  else (.ok range, vm)

/-- The loop of `remove_process_memory_range`. A success returns `ro_freed`; without fuel
the loop has not ended. For a range with private data it never does: the hook of XPMEM waits
to read `memory_range_lock`, which every caller holds for writing. -/
def removeLoop (env : Env) (start end_ : Nat) :
    Nat → Option Nat → Bool → ProcessVm → Option (Except Errno Bool × ProcessVm)
  | 0, _, _, _ => none
  | _ + 1, none, roFreed, vm => some (.ok roFreed, vm)
  | fuel + 1, some range, roFreed, vm =>
    if (vm.ranges range).start < end_ then
      let next := nextProcessMemoryRange vm range
      match splitBelow env vm range start with
      | (.error error, vm) => some (.error error, vm)
      | (.ok range, vm) =>
        match splitAbove env vm range end_ with
        | (.error error, vm) => some (.error error, vm)
        | (.ok _, vm) =>
          let roFreed := roFreed || !hasFlag (vm.ranges range).flag VR_PROT_WRITE
          if (vm.ranges range).privateData ≠ 0 then none
          else removeLoop env start end_ fuel next roFreed (freeProcessMemoryRange vm range)
    else some (.ok roFreed, vm)

/-- The first range from `range` on whose straight addresses contain `start`. -/
def straightRange (vm : ProcessVm) (start : Nat) : Nat → Option Nat → Option Nat
  | 0, _ => none
  | _ + 1, none => none
  | fuel + 1, some range =>
    let entry := vm.ranges range
    if entry.straightStart ≠ 0 ∧ entry.straightStart ≤ start ∧
        start < ULong.add entry.straightStart (ULong.sub entry.end_ entry.start) then some range
    else straightRange vm start fuel (nextProcessMemoryRange vm range)

/-- The interval that `remove_process_memory_range` works on: a part of the straight
mapping is replaced by the interval of the range it belongs to. -/
def removeTarget (vm : ProcessVm) (start end_ : Nat) : Option (Nat × Nat) × ProcessVm :=
  let straightEnd := ULong.add vm.straightVa vm.straightLen
  if vm.straightVa ≠ 0 ∧ vm.straightVa ≤ start ∧ end_ ≤ straightEnd ∧
      ¬ (start = vm.straightVa ∧ end_ = straightEnd) then
    let (first, vm) := lookupProcessMemoryRange vm 0 ulongMax
    match straightRange vm start vm.live.length first with
    | none => (none, vm)
    | some range =>
      let entry := vm.ranges range
      let start' := ULong.add entry.start (ULong.sub start entry.straightStart)
      (some (start', ULong.add start' (ULong.sub end_ start)), vm)
  else (some (start, end_), vm)

/-- `remove_process_memory_range`; `fuel` bounds the rounds of its loop. -/
def removeProcessMemoryRange (env : Env) (fuel : Nat) (vm : ProcessVm) (start end_ : Nat) :
    Option (Except Errno Bool × ProcessVm) :=
  match removeTarget vm start end_ with
  | (none, vm) => some (.ok false, vm)
  | (some (start, end_), vm) =>
    let (first, vm) := lookupProcessMemoryRange vm start end_
    removeLoop env start end_ fuel first false vm

/-! ## `brk` -/

/-- The page size of the heap, `align_shift`. -/
def heapAlignShift (heapExtension : Nat) : Nat :=
  if pageSize < heapExtension then largePageShift else pageShift

/-- The new end of the heap: at least `heap_extension` bytes are added. -/
def newEndAllocated (heapExtension endAllocated address : Nat) : Nat :=
  let newEnd := ULong.roundUp pageShift address
  if ULong.sub newEnd endAllocated < heapExtension then
    ULong.roundUp (heapAlignShift heapExtension) (ULong.add endAllocated heapExtension)
  else newEnd

/-- `extend_process_region`: the new end of the allocated heap. Pages that cannot be
allocated at once are left to demand paging. -/
def extendProcessRegion (env : Env) (vm : ProcessVm) (endAllocated address flag : Nat) :
    Nat × ProcessVm :=
  let newEnd := newEndAllocated vm.heapExtension endAllocated address
  let pages := if hasFlag flag VR_DEMAND_PAGING then none else env.allocPages vm.clock
  let flag := if pages = none then flag ||| VR_DEMAND_PAGING else flag
  match addProcessMemoryRange env vm.tick endAllocated newEnd (some (pages.getD 0)) flag 0 0
      (heapAlignShift vm.heapExtension) with
  | (.error _, vm) => (endAllocated, vm)
  | (.ok _, vm) => (newEnd, vm)

def brkFlag : Nat :=
  let flag := VR_PROT_READ ||| VR_PROT_WRITE ||| VR_PRIVATE
  flag ||| vrflagProtToMaxprot flag

/-- The system call `brk`. -/
def brk (env : Env) (vm : ProcessVm) (address : Nat) : Nat × ProcessVm :=
  let region := vm.region
  if address < region.brkStart ∨ address < region.brkEnd then (region.brkEnd, vm)
  else if address < region.brkEndAllocated then
    (address, { vm with region := { region with brkEnd := address } })
  else
    let (newEnd, vm) := extendProcessRegion env vm region.brkEndAllocated address brkFlag
    if newEnd = region.brkEndAllocated then (region.brkEndAllocated, vm)
    else
      (address, { vm with region :=
        { vm.region with brkEndAllocated := newEnd, brkEnd := address } })

/-! ## `mremap` -/

/-- The loop of `search_free_space`. -/
def searchLoop (len pgshift : Nat) :
    Nat → Nat → ProcessVm → Option (Except Errno Nat × ProcessVm)
  | 0, _, _ => none
  | fuel + 1, addr, vm =>
    let addr := ULong.roundUp pgshift addr
    if vm.region.userEnd ≤ addr ∨ ULong.sub vm.region.userEnd len < addr then
      some (.error .ENOMEM, vm)
    else
      match lookupProcessMemoryRange vm addr (ULong.add addr len) with
      | (none, vm) =>
        some (.ok addr, { vm with region := { vm.region with mapEnd := ULong.add addr len } })
      | (some range, vm) => searchLoop len pgshift fuel (vm.ranges range).end_ vm

/-- `search_free_space`; `hint` is the value of `*addrp` before the call. -/
def searchFreeSpace (fuel : Nat) (vm : ProcessVm) (len pgshift hint : Nat) :
    Option (Except Errno Nat × ProcessVm) :=
  if hint ≠ 0 then
    match lookupProcessMemoryRange vm hint (ULong.add hint len) with
    | (none, vm) => some (.ok hint, vm)
    | (some _, vm) => searchLoop len pgshift fuel vm.region.mapEnd vm
  else searchLoop len pgshift fuel vm.region.mapEnd vm

/-- The arguments of `mremap`. `stack` is what the uninitialised variable `newstart`
holds when the call begins. -/
structure MremapCall where
  oldaddr : Nat
  oldsize0 : Nat
  newsize0 : Nat
  flags : Nat
  newaddr : Nat
  stack : Nat
  deriving Repr

namespace MremapCall

def oldsize (call : MremapCall) : Nat := ULong.roundUp pageShift call.oldsize0

def newsize (call : MremapCall) : Nat := ULong.roundUp pageShift call.newsize0

def oldend (call : MremapCall) : Nat := ULong.add call.oldaddr call.oldsize

def mayMove (call : MremapCall) : Bool := hasFlag call.flags 1

def fixed (call : MremapCall) : Bool := hasFlag call.flags 2

/-- The arguments `mremap` rejects at once. -/
def invalid (call : MremapCall) : Bool :=
  call.oldaddr % pageSize != 0 || call.newsize == 0 || hasFlag call.flags (2 ^ 32 - 1 - 3) ||
    (call.fixed && !call.mayMove) || (call.fixed && call.newaddr % pageSize != 0)

end MremapCall

/-- `mremap` once the new addresses are mapped: cut the old addresses out of their range,
move the pages and unmap the old addresses. -/
def mremapMove (env : Env) (fuel : Nat) (vm : ProcessVm) (call : MremapCall)
    (range newstart : Nat) : Option (Except Errno Nat × ProcessVm) :=
  let oldpart := ULong.add call.oldaddr (min call.oldsize call.newsize)
  let lower :=
    if (vm.ranges range).start ≠ call.oldaddr then
      splitProcessMemoryRange env vm range call.oldaddr
    else (.ok range, vm)
  match lower with
  | (.error error, vm) => some (.error error, vm)
  | (.ok range, vm) =>
    let upper :=
      if (vm.ranges range).end_ ≠ oldpart then splitProcessMemoryRange env vm range oldpart
      else (.ok range, vm)
    match upper with
    | (.error error, vm) => some (.error error, vm)
    | (.ok _, vm) =>
      match pageTable env vm with
      | (some error, vm) => some (.error error, vm)
      | (none, vm) =>
        (removeProcessMemoryRange env fuel vm call.oldaddr call.oldend).map
          fun (result, vm) => (result.map fun _ => newstart, vm)

/-- The last part of `mremap`: map the new addresses and move the pages there. -/
def mremapRelocate (env : Env) (fuel : Nat) (vm : ProcessVm) (call : MremapCall)
    (range newstart : Nat) : Option (Except Errno Nat × ProcessVm) :=
  let entry := vm.ranges range
  match addProcessMemoryRange env vm newstart (ULong.add newstart call.newsize) none entry.flag
      entry.memobj (ULong.add entry.objoff (ULong.sub call.oldaddr entry.start))
      entry.pgshift with
  | (.error error, vm) => some (.error error, vm)
  | (.ok _, vm) =>
    if call.oldsize = 0 then some (.ok newstart, vm)
    else mremapMove env fuel vm call range newstart

/-- `mremap` after the old mapping has been found. -/
def mremapRange (env : Env) (fuel : Nat) (vm : ProcessVm) (call : MremapCall) (range : Nat) :
    Option (Except Errno Nat × ProcessVm) :=
  if call.fixed then
    let newend := ULong.add call.newaddr call.newsize
    if call.newaddr < vm.region.userStart then some (.error .EPERM, vm)
    else if call.newaddr < call.oldend ∧ call.oldaddr < newend then some (.error .EINVAL, vm)
    else
      match removeProcessMemoryRange env fuel vm call.newaddr newend with
      | none => none
      | some (.error error, vm) => some (.error error, vm)
      | some (.ok _, vm) => mremapRelocate env fuel vm call range call.newaddr
  else if call.oldsize < call.newsize then
    let newend := ULong.add call.oldaddr call.newsize
    let atEnd := call.oldend = (vm.ranges range).end_
    let (extended, vm) :=
      if atEnd then extendUpProcessMemoryRange vm range newend else (some .EINVAL, vm)
    if extended = none then some (.ok call.oldaddr, vm)
    else if !call.mayMove then some (.error .ENOMEM, vm)
    else
      let hint := if atEnd then call.oldaddr else call.stack
      match searchFreeSpace fuel vm call.newsize (vm.ranges range).pgshift hint with
      | none => none
      | some (.error error, vm) => some (.error error, vm)
      | some (.ok newstart, vm) => mremapRelocate env fuel vm call range newstart
  else if call.newsize < call.oldsize then
    (removeProcessMemoryRange env fuel vm (ULong.add call.oldaddr call.newsize) call.oldend).map
      fun (result, vm) => (result.map fun _ => call.oldaddr, vm)
  else some (.ok call.oldaddr, vm)

/-- The system call `mremap`. -/
def mremap (env : Env) (fuel : Nat) (vm : ProcessVm) (call : MremapCall) :
    Option (Except Errno Nat × ProcessVm) :=
  if vm.straightVa ≠ 0 ∧ vm.straightVa ≤ call.oldaddr ∧
      call.oldaddr < ULong.add vm.straightVa vm.straightLen then some (.error .EINVAL, vm)
  else if call.invalid then some (.error .EINVAL, vm)
  else if !call.fixed ∧ call.oldsize = call.newsize then some (.ok call.oldaddr, vm)
  else if call.oldend < call.oldaddr then some (.error .EINVAL, vm)
  else if ULong.sub vm.region.userEnd vm.region.userStart < call.newsize then
    some (.error .ENOMEM, vm)
  else
    match lookupProcessMemoryRange vm call.oldaddr (ULong.add call.oldaddr pageSize) with
    | (none, vm) => some (.error .EFAULT, vm)
    | (some range, vm) =>
      let entry := vm.ranges range
      if call.oldaddr < entry.start ∨ entry.end_ < call.oldend ∨
          hasFlag entry.flag (VR_FILEOFF ||| VR_REMOTE ||| VR_IO_NOCACHE ||| VR_RESERVED) then
        some (.error .EFAULT, vm)
      else mremapRange env fuel vm call range

end McKernel.Vm
