import McKernel.Lib.Machine

/-!
# Resident set accounting

`memory_stat_rss` and `memory_stat_mapped_file` count mapped memory by page size.  What is added
is decided in `rusage_memory_stat_add` from the range and from `page->mapped`; what is subtracted
is decided where entries are cleared and objects are freed, from the object and from
`page->count`.  The state has the entries of all page tables, the pages with a `struct page`,
and the pages of `MF_PREMAP` objects.
-/

namespace McKernel.Rss

/-- `PTL1_SIZE`, `PTL2_SIZE` and `PTL3_SIZE`. -/
inductive Size where
  | small
  | large
  | huge
  deriving DecidableEq, Repr

def Size.bytes : Size → Int
  | small => 4096
  | large => 2097152
  | huge => 1073741824

/-- The size of the entries that `split_large_page` makes. -/
def Size.smaller : Size → Option Size
  | small => none
  | large => some small
  | huge => some large

def ptEntries : Nat := 512

/-- What a range maps. -/
inductive Kind where
  /-- There is no `memobj`. -/
  | anonymous
  /-- `MF_ZEROOBJ`. -/
  | zeroObject
  /-- `MF_REG_FILE`, private or shared. -/
  | regularFile
  | hugetlbfs
  | premap
  /-- `MF_DEV_FILE`. -/
  | device
  /-- `MF_SHM` with `MF_XPMEM`. -/
  | xpmem
  /-- `MF_SHM`. -/
  | sharedMemory
  /-- `VR_REMOTE`, `VR_IO_NOCACHE` or `VR_RESERVED`. -/
  | special
  deriving DecidableEq, Repr

/-- The two counters of `struct rusage_global`. -/
inductive Counter where
  | rss
  | mappedFile
  deriving DecidableEq, Repr

/-- The counter for memory without a `struct page`. -/
def Kind.bare : Kind → Option Counter
  | anonymous | zeroObject | regularFile | hugetlbfs => some .rss
  | premap | device | xpmem | sharedMemory | special => none

/-- `rusage_memory_stat_add` looks for the `struct page`. -/
def Kind.sharable : Kind → Bool
  | regularFile | hugetlbfs | sharedMemory => true
  | _ => false

/-- The counter for a `struct page`, in `rusage_memory_stat_add` and `rusage_memory_stat_sub`. -/
def Kind.shared : Kind → Counter
  | xpmem | sharedMemory => .rss
  | _ => .mappedFile

/-- An entry of a page table, with its `struct page` if the memory has one. -/
structure Mapping where
  kind : Kind
  size : Size
  page : Option Nat
  deriving DecidableEq, Repr

/-- `struct page` of a page of a file or of a shared memory object. -/
structure Page where
  id : Nat
  shm : Bool
  size : Size
  mapped : Bool
  count : Nat
  deriving DecidableEq, Repr

def Page.kind (page : Page) : Kind := if page.shm then .sharedMemory else .regularFile

/-- `page_map`. -/
def Page.map (page : Page) : Page := { page with count := page.count + 1 }

structure State where
  maps : List Mapping
  pages : List Page
  /-- Pages of objects with `MF_PREMAP`. -/
  premapped : Nat
  counter : Counter → Size → Int

namespace State

variable (state : State)

/-- `memory_stat_rss_add`, `rusage_memory_stat_mapped_file_add`, and both `_sub`. -/
def count (counter : Counter) (size : Size) (times : Int) : State :=
  { state with counter := fun other class_ =>
      state.counter other class_ +
        if other = counter ∧ class_ = size then class_.bytes * times else 0 }

def enter (mapping : Mapping) : State := { state with maps := mapping :: state.maps }

def leave (mapping : Mapping) : State := { state with maps := state.maps.erase mapping }

/-- `phys_to_page`. -/
def page? (id : Nat) : Option Page := state.pages.find? (·.id == id)

def setPage (page next : Page) : State :=
  { state with pages := next :: state.pages.erase page }

def dropPage (page : Page) : State := { state with pages := state.pages.erase page }

/-- `rusage_memory_stat_add` for memory without a `struct page`, or where it is not looked at. -/
def addBare (kind : Kind) (size : Size) : State :=
  match kind.bare with
  | some counter => state.count counter size 1
  | none => state

/-- `rusage_memory_stat_add` with a `struct page`: only the first to map it counts. -/
def addPage (kind : Kind) (size : Size) (page : Page) : State :=
  if kind.sharable then
    if page.mapped then state
    else (state.setPage page { page with mapped := true }).count kind.shared size 1
  else state.addBare kind size

/-- `page_unmap`, and `rusage_memory_stat_sub` if this was the last. -/
def unmapPage (kind : Kind) (size : Size) (page : Page) : State :=
  if page.count > 1 then state.setPage page { page with count := page.count - 1 }
  else (state.dropPage page).count kind.shared size (-1)

/-- The entries that `split_large_page` makes: only the first one has the `struct page`. -/
def parts (mapping : Mapping) (size : Size) : List Mapping :=
  { mapping with size := size } ::
    List.replicate (ptEntries - 1) { mapping with size := size, page := none }

/-- What `split_large_page` counts. -/
def countSplit (size smaller : Size) : State :=
  (state.count .rss smaller ptEntries).count .rss size (-1)

/-- `page_map` of the first part; a page of the largest size is unmapped once. -/
def splitPage (mapping : Mapping) : State :=
  match mapping.page.bind state.page? with
  | some page => if mapping.size = .huge then state else state.setPage page page.map
  | none => state

def held (id : Nat) : Bool :=
  state.maps.any fun mapping => mapping.page == some id && mapping.kind != .xpmem

end State

inductive Op where
  /-- An entry for memory of its own: a fault, a populate or a fork.  `patch` is the fault of
  `patch_process_vm` when the table for the entry is there. -/
  | map (kind : Kind) (size : Size) (patch : Bool)
  /-- `ihk_mc_pt_set_range` fails further on, and clears this entry. -/
  | mapFailed (kind : Kind) (size : Size)
  /-- `fileobj_get_page` or `shmobj_get_page` allocates a page. -/
  | pageIn (id : Nat) (shm : Bool) (size : Size)
  | mapPage (id : Nat) (patch : Bool)
  /-- A fault for writing in a private range, of a page that is not mapped there. -/
  | copy (id : Nat) (patch : Bool)
  | copyMapped (mapping : Mapping) (patch : Bool)
  /-- A fault on an entry that is present, with nothing to copy. -/
  | refault (mapping : Mapping)
  /-- `xpmem_remap_pte`, of memory with or without a `struct page`. -/
  | attach (size : Size) (page : Option Nat)
  /-- `xpmem_detach` clears an entry. -/
  | detach (mapping : Mapping)
  | split (mapping : Mapping)
  /-- `split_large_page` of an entry that has a file offset. -/
  | splitOffset (size : Size)
  /-- `free_process_memory_range` clears an entry. -/
  | unmap (mapping : Mapping)
  /-- An object with `MF_PREMAP` allocates a page. -/
  | premap
  /-- `fileobj_free` of such an object. -/
  | freePremap (npages : Nat)
  /-- A page in `fileobj_free` or `shmobj_destroy`. -/
  | freePage (id : Nat)
  deriving DecidableEq, Repr

/-- One step, if the operation is possible. -/
def exec (state : State) : Op → Option State
  | .map kind size patch =>
    if kind = .sharedMemory then none
    else some ((if patch then state else state.addBare kind size).enter ⟨kind, size, none⟩)
  | .mapFailed kind size =>
    if kind = .sharedMemory then none else some (state.addBare kind size)
  | .pageIn id shm size =>
    if (state.page? id).isSome ∨ (shm = false ∧ size ≠ .small) then none
    else some { state with pages := ⟨id, shm, size, false, 1⟩ :: state.pages }
  | .mapPage id patch =>
    (state.page? id).map fun page =>
      let taken := state.setPage page page.map
      (if patch then taken else taken.addPage page.kind page.size page.map).enter
        ⟨page.kind, page.size, some id⟩
  | .copy id patch =>
    match state.page? id with
    | none => none
    | some page =>
      if page.shm then none
      else
        let source := state.addPage .regularFile page.size page
        some ((if patch then source else source.addBare .regularFile page.size).enter
          ⟨.regularFile, page.size, none⟩)
  | .copyMapped mapping patch =>
    if mapping ∈ state.maps ∧ mapping.kind = .regularFile then
      (mapping.page.bind state.page?).map fun page =>
        let counted := state.addPage .regularFile mapping.size page
        let source := { page with mapped := true }
        let left := (counted.unmapPage .regularFile mapping.size source).leave mapping
        (if patch then left else left.addBare .regularFile mapping.size).enter
          { mapping with page := none }
    else none
  | .refault mapping =>
    if mapping ∈ state.maps then
      match mapping.page.bind state.page? with
      | some page => some (state.addPage mapping.kind mapping.size page)
      | none => some (state.addBare mapping.kind mapping.size)
    else none
  | .attach size page => some (state.enter ⟨.xpmem, size, page⟩)
  | .detach mapping =>
    if mapping ∈ state.maps ∧ mapping.kind = .xpmem then some (state.leave mapping) else none
  | .split mapping =>
    if mapping ∈ state.maps then
      mapping.size.smaller.map fun smaller =>
        let left := ((state.splitPage mapping).countSplit mapping.size smaller).leave mapping
        { left with maps := State.parts mapping smaller ++ left.maps }
    else none
  | .splitOffset size => size.smaller.map fun smaller => state.countSplit size smaller
  | .unmap mapping =>
    if mapping ∈ state.maps then
      let left := state.leave mapping
      match mapping.kind with
      | .special | .hugetlbfs => some left
      -- clear_range sets free_physical to 0
      | .device | .premap => some left
      | kind =>
        match mapping.page with
        | none => some (if kind = .xpmem then left else left.count .rss mapping.size (-1))
        | some id =>
          match left.page? id with
          | none => some left
          | some page => some (left.unmapPage kind mapping.size page)
    else none
  | .premap =>
    some { state.count .mappedFile .small 1 with premapped := state.premapped + 1 }
  | .freePremap npages =>
    if npages ≤ state.premapped then
      some { state.count .mappedFile .small (-npages) with
        premapped := state.premapped - npages }
    else none
  | .freePage id =>
    if state.held id then none
    else
      (state.page? id).map fun page =>
        if page.count = 1 then (state.dropPage page).count page.kind.shared page.size (-1)
        else state

def boot : State := ⟨[], [], 0, fun _ _ => 0⟩

def machine : Machine State Op where
  init state := state = boot
  step state op next := exec state op = some next

end McKernel.Rss
