import McKernel.Lib.Errno
import McKernel.Lib.Machine

/-!
# XPMEM attachments

An attachment of a segment window, from `kernel/xpmem.c`: the ranges of the attaching
process as `munmap` and `mprotect` cut them, the hook that `remove_process_memory_range`
calls for every range that it removes, and the page fault in the attachment.  Page tables are
functions of the addresses at which pages begin.
-/

namespace McKernel.Xpmem

/-- `PAGE_MASK` applied to an address. -/
def pageOf (address : Nat) : Nat := address / pageSize * pageSize

/-- The length that `do_mmap` maps. -/
def roundUp (size : Nat) : Nat := (size + (pageSize - 1)) / pageSize * pageSize

/-- `struct vm_range`; whether its `private_data` is the attachment. -/
structure Range where
  start : Nat
  stop : Nat
  attached : Bool
  deriving DecidableEq, Repr

def Range.contains (range : Range) (address : Nat) : Bool :=
  range.start ≤ address && address < range.stop

/-- `struct xpmem_attachment`. -/
structure Attachment where
  /-- Where the window begins in the segment owner, on a page boundary or not. -/
  vaddr : Nat
  atVaddr : Nat
  atSize : Nat
  destroying : Bool
  deriving DecidableEq, Repr

/-- The entry of the owner that maps a page: the physical address in the entry and how far
behind it the page is.  Only an entry of a large page has pages behind the first. -/
structure OwnerEntry where
  base : Nat
  behind : Nat
  deriving DecidableEq, Repr

/-- The page itself. -/
def OwnerEntry.phys (entry : OwnerEntry) : Nat := entry.base + entry.behind

/-- `memory_range_lock` of the attaching process, as far as writers hold it. -/
inductive Lock where
  | free
  /-- `munmap`, `mprotect` or `mmap` is under way. -/
  | held
  /-- `munmap` has called `xpmem_remove_process_memory_range` for a range of the attachment,
  which waits to read the lock that `munmap` holds. -/
  | hook (vmr : Range)
  deriving DecidableEq, Repr

structure State where
  att : Attachment
  ranges : List Range
  table : Nat → Option Nat
  owner : Nat → Option OwnerEntry
  lock : Lock

namespace State

variable (state : State)

/-- `lookup_process_memory_range` of one address. -/
def rangeAt (address : Nat) : Option Range := state.ranges.find? (·.contains address)

def replace (range : Range) (others : List Range) : State :=
  { state with ranges := state.ranges.filter (· != range) ++ others }

/-- `free_process_memory_range`. -/
def free (vmr : Range) : State :=
  { state with
    ranges := state.ranges.filter fun range => ¬(range.start = vmr.start ∧ range.stop = vmr.stop)
    table := fun page => if vmr.contains page then none else state.table page }

def cut (range : Range) (start stop : Nat) : Range :=
  { range with start := max range.start start, stop := min range.stop stop }

/-- The splits that `remove_process_memory_range` makes. -/
def splitOff (range : Range) (start stop : Nat) : State :=
  state.replace range
    ((if range.start < start then [{ range with stop := start }] else []) ++
      [cut range start stop] ++ (if stop < range.stop then [{ range with start := stop }] else []))

/-- A round of the loop in `remove_process_memory_range`. -/
def remove (range : Range) (start stop : Nat) : State :=
  let vmr := cut range start stop
  if range.attached then { state.splitOff range start stop with lock := .hook vmr }
  else (state.splitOff range start stop).free vmr

/-- `xpmem_ensure_valid_page`: the fault that populates the page of the owner. -/
def ensureValidPage (page : Nat) (backing : Option OwnerEntry) : State :=
  match state.owner page with
  | some _ => state
  | none => { state with owner := Function.update state.owner page backing }

/-- `xpmem_remap_pte` with the physical page of the owner's entry. -/
def remapPte (page phys : Nat) : State :=
  { state with table := Function.update state.table page (some phys) }

def segVaddr (page : Nat) : Nat := pageOf state.att.vaddr + (page - state.att.atVaddr)

/-- `xpmem_fault_process_memory_range`.  The backing is what a fault of the owner gives;
`sameAttributes` tells whether an entry that is there agrees with that of the owner. -/
def xpmemFault (page : Nat) (backing : Option OwnerEntry) (sameAttributes : Bool) :
    Option Errno × State :=
  if state.att.destroying then (none, state)
  else if page < state.att.atVaddr ∨ page + 1 > state.att.atVaddr + state.att.atSize then
    (none, state)
  else
    let pinned := state.ensureValidPage (state.segVaddr page) backing
    match pinned.owner (state.segVaddr page) with
    | none => (some .ENOENT, state)
    | some entry =>
      match pinned.table page with
      | some old =>
        if old = entry.base ∧ sameAttributes then (none, pinned) else (some .EFAULT, pinned)
      | none => (none, pinned.remapPte page entry.base)

end State

/-- The steps. -/
inductive Op where
  | acquire
  | release
  | split (range : Range) (page : Nat)
  /-- `join_process_memory_range`. -/
  | join (surviving merging : Range)
  /-- A round of `munmap`. -/
  | remove (range : Range) (start stop : Nat)
  /-- Another mapping. -/
  | mmap (start stop : Nat)
  | fault (page : Nat) (backing : Option OwnerEntry) (sameAttributes : Bool)
  deriving Repr

/-- A step, if it is possible: ranges change while the lock is held, and a fault reads it. -/
def exec (state : State) : Op → Option State
  | .acquire => if state.lock = .free then some { state with lock := .held } else none
  | .release => if state.lock = .held then some { state with lock := .free } else none
  | .split range page =>
    if state.lock = .held ∧ range ∈ state.ranges ∧ page % pageSize = 0 ∧ range.start < page ∧
        page < range.stop then
      some (state.replace range [{ range with stop := page }, { range with start := page }])
    else none
  | .join surviving merging =>
    if state.lock = .held ∧ surviving ∈ state.ranges ∧ merging ∈ state.ranges ∧
        surviving.stop = merging.start ∧ surviving.attached = merging.attached then
      some ((state.replace merging []).replace surviving
        [{ surviving with stop := merging.stop }])
    else none
  | .remove range start stop =>
    if state.lock = .held ∧ range ∈ state.ranges ∧ start % pageSize = 0 ∧
        stop % pageSize = 0 ∧ range.start < stop ∧ start < range.stop ∧ start < stop then
      some (state.remove range start stop)
    else none
  | .mmap start stop =>
    if state.lock = .held ∧ start < stop ∧
        ∀ range ∈ state.ranges, range.stop ≤ start ∨ stop ≤ range.start then
      some { state with ranges := ⟨start, stop, false⟩ :: state.ranges }
    else none
  | .fault page backing sameAttributes =>
    match state.rangeAt page with
    | none => none
    | some range =>
      if state.lock = .free ∧ page % pageSize = 0 ∧ range.attached then
        some (state.xpmemFault page backing sameAttributes).2
      else none

/-- `xpmem_attach` of a window of the segment at `seg`, which `do_mmap` puts at `base`. -/
def attach (base seg size : Nat) : State where
  att := ⟨seg, base, size + seg % pageSize, false⟩
  ranges := [⟨base, base + roundUp (size + seg % pageSize), true⟩]
  table _ := none
  owner _ := none
  lock := .free

/-- The attachment and what happens to it. -/
def machine (base seg size : Nat) : Machine State Op where
  init state := base % pageSize = 0 ∧ 0 < size ∧ state = attach base seg size
  step state op next := exec state op = some next

end McKernel.Xpmem
