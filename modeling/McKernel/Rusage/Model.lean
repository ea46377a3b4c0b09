import McKernel.Lib.Errno
import McKernel.Lib.Machine

/-!
# Memory accounting

`rusage_page_add` and `rusage_page_sub` count the pages that the page allocator hands out, user
pages by NUMA node and kernel pages apart.  Whether a page is counted as a user page is said by
the caller, when it allocates and again when it frees; here every place in the kernel that
allocates pages and every way in which they are freed has a name, with what it says.  Pages
with a `struct page` may be on the list of pending frees in between.
-/

namespace McKernel.Rusage

inductive Site where
  /-- `page_fault_process_memory_range`, a page of its own. -/
  | anonFault
  /-- The copy on write there. -/
  | cowFault
  /-- `copy_user_pte`. -/
  | forkCopy
  /-- `do_mmap`, for ordinary and for straight ranges. -/
  | mmapPopulate
  /-- `extend_process_region`. -/
  | brk
  | stack
  /-- Sections and arguments in `prepare_process_ranges_args_envs`. -/
  | programImage
  /-- `fileobj_get_page`. -/
  | filePage
  /-- `fileobj_create` with `MF_PREMAP`. -/
  | premapPage
  /-- `hugefileobj_get_page` and `hugefileobj_create`. -/
  | hugePage
  /-- `shmobj_get_page`. -/
  | shmPage
  /-- The new place of a page in `move_pages`. -/
  | movedPage
  | zeroPage
  /-- Page tables, stacks of threads, `kmalloc` and other memory of the kernel. -/
  | kernelPage
  deriving DecidableEq, Repr

/-- Allocated by a function that ends in `_user`. -/
def Site.isUser : Site → Bool
  | movedPage | zeroPage | kernelPage => false
  | _ => true

/-- There is a `struct page` in the hash. -/
def Site.hashed : Site → Bool
  | filePage | shmPage | zeroPage => true
  | _ => false

inductive Path where
  /-- `clear_range_l1` to `clear_range_l3`, and `remap_one_page`. -/
  | clearRange
  /-- `fileobj_free`, the end of a huge file object, `shmobj_destroy`. -/
  | objectFree
  /-- The error paths of `do_mmap`, `extend_process_region`, `init_process_stack`,
  `prepare_process_ranges_args_envs`, `fileobj_get_page` and `shmobj_get_page`. -/
  | setupError
  /-- The error path of `copy_user_pte`. -/
  | forkError
  /-- A straight range in `free_process_memory_range`. -/
  | straightRange
  /-- The old place of a page in `move_pages`. -/
  | movePages
  | kernelFree
  deriving DecidableEq, Repr

/-- Freed by `ihk_mc_free_pages_user`, not by `ihk_mc_free_pages`. -/
def Path.isUser : Path → Bool
  | clearRange | objectFree | setupError => true
  | forkError | straightRange | movePages | kernelFree => false

def Site.mapped : Site → Bool
  | premapPage | hugePage | zeroPage | kernelPage => false
  | _ => true

def Path.frees : Path → Site → Bool
  | clearRange, site => site.mapped
  | movePages, site => site.mapped
  | objectFree, site =>
    site == .filePage || site == .premapPage || site == .hugePage || site == .shmPage
  | setupError, site =>
    site == .mmapPopulate || site == .brk || site == .stack || site == .programImage ||
      site == .filePage || site == .shmPage
  | forkError, site => site == .forkCopy
  | straightRange, site => site == .mmapPopulate
  | kernelFree, site => site == .kernelPage

/-- The boot chunks of the physical pages, and their nodes. -/
structure Memory where
  chunkOf : Nat → Option Nat
  nodeOf : Nat → Nat

def block (page npages : Nat) : List Nat := List.range' page npages

/-- The node of a block. Blocks over two chunks are left out. -/
def Memory.node? (memory : Memory) (page npages : Nat) : Option Nat := do
  let chunk ← memory.chunkOf page
  if (block page npages).all fun other => memory.chunkOf other == some chunk then
    some (memory.nodeOf chunk)
  else none

def Memory.pageNode (memory : Memory) (page : Nat) : Option Nat :=
  (memory.chunkOf page).map memory.nodeOf

/-- What is handed out and the counters, where a value below zero is one that has wrapped
around. -/
structure State where
  handed : List (Nat × Site)
  total : Int
  /-- `memory_kmem_usage`. -/
  kmem : Int
  /-- `memory_numa_stat`. -/
  numa : Nat → Int
  /-- The CPUs with a list `pending_free_pages`. -/
  active : Nat → Bool
  pending : List (Nat × Nat × Nat)

inductive Op where
  /-- `mckernel_allocate_aligned_pages_node`. -/
  | alloc (site : Site) (page npages : Nat)
  /-- `mckernel_free_pages` on a CPU; `page_unmap` may have taken the page out of the hash. -/
  | free (cpu : Nat) (path : Path) (page npages : Nat) (unhashed : Bool)
  | begin (cpu : Nat)
  /-- A round of the loop in `finish_free_pages_pending`. -/
  | flush (cpu : Nat)
  /-- Its end. -/
  | finish (cpu : Nat)
  deriving Repr

namespace State

variable (state : State)

/-- `rusage_page_add`; a negative number of pages is `rusage_page_sub`. -/
def pageAdd (node : Nat) (pages : Int) (isUser : Bool) : State :=
  let size := pages * pageSize
  { state with
    total := state.total + size
    kmem := if isUser then state.kmem else state.kmem + size
    numa := fun other => if isUser ∧ other = node then state.numa other + size
      else state.numa other }

/-- `__mckernel_free_pages_in_allocator`. -/
def freeInAllocator (memory : Memory) (page npages : Nat) (isUser : Bool) : State :=
  match memory.node? page npages with
  | none => state
  | some node =>
    { state.pageAdd node (-npages) isUser with
      handed := state.handed.filter fun entry => entry.1 ∉ block page npages }

def mayFree (path : Path) (page npages : Nat) : Bool :=
  (block page npages).all fun other =>
    (state.handed.any fun entry => entry.1 == other && path.frees entry.2) &&
      state.pending.all fun (_, first, count) => other ∉ block first count

/-- `phys_to_page`. -/
def hasPage (page : Nat) : Bool := state.handed.any fun entry => entry.1 == page && entry.2.hashed

end State

/-- A step, if it is possible. -/
def exec (memory : Memory) (state : State) : Op → Option State
  | .alloc site page npages =>
    if npages = 0 ∨ (block page npages).any (fun other => state.handed.any (·.1 == other)) then
      none
    else (memory.node? page npages).map fun node =>
      { state.pageAdd node npages site.isUser with
        handed := (block page npages).map (·, site) ++ state.handed }
  | .free cpu path page npages unhashed =>
    if state.mayFree path page npages then
      if state.hasPage page && !unhashed && state.active cpu then
        some { state with pending := state.pending ++ [(cpu, page, npages)] }
      else some (state.freeInAllocator memory page npages path.isUser)
    else none
  | .begin cpu =>
    if state.active cpu then none
    else some { state with active := fun other => if other = cpu then true else state.active other }
  | .flush cpu =>
    match state.pending.find? (·.1 == cpu) with
    | none => none
    | some (owner, page, npages) =>
      -- always `IHK_MC_PG_USER`
      some { state.freeInAllocator memory page npages true with
        pending := state.pending.erase (owner, page, npages) }
  | .finish cpu =>
    if state.pending.any (·.1 == cpu) then none
    else some { state with
      active := fun other => if other = cpu then false else state.active other }

def boot : State where
  handed := []
  total := 0
  kmem := 0
  numa _ := 0
  active _ := false
  pending := []

def machine (memory : Memory) : Machine State Op where
  init state := state = boot
  step state op next := exec memory state op = some next

end McKernel.Rusage
