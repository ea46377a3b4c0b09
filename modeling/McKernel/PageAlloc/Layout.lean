import McKernel.PageAlloc.Deferred

/-!
# Memory chunks and nodes

The model of `__mckernel_free_pages_in_allocator` and of the pending frees around it
(`kernel/mem.c`).  Allocations work on the tree of a node, where neighbouring chunks of the
boot-time list have been merged; a block that is freed is looked up in that list again.
-/

namespace McKernel.PageAlloc

open Mem Extent CInt List Function Nat

/-- An entry of the list behind `ihk_mc_get_memory_chunk`. -/
structure MemoryChunk where
  start : Nat
  stop : Nat
  numaId : Nat
  deriving DecidableEq, Repr

instance : Extent MemoryChunk where
  lo := MemoryChunk.start
  hi := MemoryChunk.stop

/-- `memory_nodes` and the list of pending frees of a CPU, `none` outside of
`begin_free_pages_pending` and `finish_free_pages_pending`. -/
structure Memory where
  nodes : Nat → NumaNode
  pending : Option (List (Nat × Int))

/-- The test of the search in `__mckernel_free_pages_in_allocator`. -/
def MemoryChunk.encloses (paStart : Nat) (npages : Int) (chunk : MemoryChunk) : Bool :=
  !(decide (chunk.start > paStart) ||
    decide (chunk.stop < (paStart + allocSize npages) % 2 ^ 64))

/-- `__mckernel_free_pages_in_allocator`, without `rusage_page_sub`. -/
def mckernelFreePagesInAllocator (config : Config) (layout : List MemoryChunk)
    (nodes : Nat → NumaNode) (paStart : Nat) (npages : Int) : Nat → NumaNode :=
  match layout.find? (·.encloses paStart npages) with
  | none => nodes
  | some chunk =>
    update nodes chunk.numaId
      (ihkNumaFreePages config (nodes chunk.numaId) paStart npages)

/-- `mckernel_free_pages`; `hasPage` says that `phys_to_page` finds a page. -/
def mckernelFreePages (config : Config) (layout : List MemoryChunk) (hasPage : Bool)
    (memory : Memory) (pa : Nat) (npages : Int) : Memory :=
  match memory.pending, hasPage with
  | some list, true => { memory with pending := some (list ++ [(pa, npages)]) }
  | _, _ =>
    { memory with
      nodes := mckernelFreePagesInAllocator config layout memory.nodes pa npages }

def finishFreePagesPending (config : Config) (layout : List MemoryChunk) (memory : Memory) :
    Memory where
  nodes := (memory.pending.getD []).foldl
    (fun nodes (pa, npages) => mckernelFreePagesInAllocator config layout nodes pa npages)
    memory.nodes
  pending := none

theorem MemoryChunk.encloses_iff {chunk : MemoryChunk}
    (bounded : (freedBlock addr npages).limit ≤ 2 ^ 52) (pos : 0 < npages)
    (inRange : npages < 2 ^ 31) :
    chunk.encloses addr npages = true ↔
      chunk.start ≤ addr ∧ addr + pageSize * npages.toNat ≤ chunk.stop := by
  have size := @size_freedBlock npages addr pos inRange
  simp only [freedBlock, FreeChunk.limit] at bounded size
  simp only [MemoryChunk.encloses, size]
  rw [mod_eq_of_lt (by omega)]
  simp

/-- The books of all nodes. The chunks of the list are apart, and what a node was given
comes from chunks of that node. -/
structure Books (layout : List MemoryChunk) (nodes : Nat → NumaNode)
    (live added : Nat → List FreeChunk) : Prop where
  accounts : ∀ node, Accounts (nodes node) (live node) (added node)
  apart : layout.Pairwise Apart
  origin : ∀ node, ∀ range ∈ added node, ∃ chunk ∈ layout, chunk.numaId = node ∧
    chunk.start ≤ range.addr ∧ range.limit ≤ chunk.stop

variable {config : Config} {layout : List MemoryChunk} {nodes : Nat → NumaNode}
  {live added : Nat → List FreeChunk} {node addr : Nat} {npages : Int}

theorem Books.numaId_unique (books : Books layout nodes live added) {first second : MemoryChunk}
    (isFirst : first ∈ layout) (isSecond : second ∈ layout) {p : Nat}
    (covers : Covers first p) (alsoCovers : Covers second p) :
    first.numaId = second.numaId := by
  have same : ∀ x ∈ layout, Covers x p → Covers x p → x.numaId = x.numaId :=
    fun _ _ _ _ => rfl
  have forwards : layout.Pairwise fun x y =>
      Covers x p → Covers y p → x.numaId = y.numaId :=
    books.apart.imp fun {x y} apart coversX coversY => by
      simp only [Apart, Covers] at apart coversX coversY
      omega
  have backwards : layout.Pairwise (flip fun x y : MemoryChunk =>
      Covers x p → Covers y p → x.numaId = y.numaId) :=
    forwards.imp fun agree coversY coversX => (agree coversX coversY).symm
  exact forwards.forall_of_forall_of_flip same backwards isFirst isSecond covers alsoCovers

theorem Books.freed_to_owner (books : Books layout nodes live added)
    (held : freedBlock addr npages ∈ live node) (pos : 0 < npages) (inRange : npages < 2 ^ 31)
    (enclosed : ∃ c ∈ layout, c.start ≤ addr ∧ addr + pageSize * npages.toNat ≤ c.stop) :
    mckernelFreePagesInAllocator config layout nodes addr npages =
      update nodes node (ihkNumaFreePages config (nodes node) addr npages) := by
  have valid := (books.accounts node).valid (freedBlock addr npages) (by simp [owned, held])
  have nonempty := valid.nonempty
  obtain ⟨outer, isOuter, fits⟩ := enclosed
  obtain ⟨c, found⟩ := Option.isSome_iff_exists.mp (find?_isSome.mpr
    ⟨outer, isOuter, (MemoryChunk.encloses_iff valid.bounded pos inRange).mpr fits⟩)
  have contains :=
    (MemoryChunk.encloses_iff valid.bounded pos inRange).mp (find?_some found)
  change 0 < pageSize * npages.toNat at nonempty
  -- The first address of the block was given to the node as part of a chunk of the node.
  obtain ⟨r, isRange, covers⟩ : ∃ r ∈ added node, Covers r addr := by
    refine coverage_pos.mp ?_
    rw [← (books.accounts node).partition addr]
    refine coverage_pos.mpr ⟨freedBlock addr npages, by simp [owned, held], ?_⟩
    simp only [Covers, lo_freeChunk, hi_freeChunk, freedBlock]
    exact ⟨Nat.le_refl _, Nat.lt_add_of_pos_right nonempty⟩
  obtain ⟨own, isOwn, ofNode, starts, stops⟩ := books.origin node r isRange
  simp only [Covers, lo_freeChunk, hi_freeChunk, FreeChunk.limit] at covers stops
  have sameNode : c.numaId = node := by
    rw [← ofNode]
    have inChunk : Covers c addr := ⟨contains.1, by simp only [hi]; omega⟩
    refine books.numaId_unique (mem_of_find?_eq_some found) isOwn inChunk ⟨?_, ?_⟩ <;>
      simp only [lo, hi] <;> omega
  simp only [mckernelFreePagesInAllocator, found, sameNode]

/-- A block of `npages` pages that `node` has handed out comes back: it is freed with the size
it was allocated with, the node holds the same memory as before the allocation and no other
node changes, and once the freed memory has been zeroed as many pages can be allocated again. -/
structure ComesBack (config : Config) (nodes freed : Nat → NumaNode) (node : Nat) (npages : Int)
    (p2align : Nat) : Prop where
  size : shiftedSize npages = pageSize * npages.toNat
  others : ∀ other, other ≠ node → freed other = nodes other
  memory : ∀ point, coverage (heldFree (freed node)) point =
    coverage (heldFree (nodes node)) point
  allocatable : ∃ final addr, ihkNumaAllocPages config
      (ihkNumaZeroFreePages config (freed node) 0).1 npages p2align = some (final, addr) ∧
    addr ≠ 0

theorem coverage_le_considered {one : NumaNode} (p : Nat)
    (noneWaits : coverage one.toZeroList p = 0)
    (merged : config.zeroAtFree = false → coverage one.zeroedList p = 0) :
    coverage (heldFree one) p ≤ coverage (considered config one npages) p := by
  simp only [heldFree, coverage_append, noneWaits, considered]
  cases zeroAtFree : config.zeroAtFree with
  | false => simp [merged zeroAtFree]
  | true =>
    simp only [Bool.not_true, Bool.false_eq_true, if_false]
    repeat' split
    all_goals simp

/-- Pages that were freed and zeroed can be allocated again, wherever they wait. -/
theorem allocatable_of_free {p2align : Nat} {taken : NumaNode} {rest given : List FreeChunk}
    (accounts : Accounts taken (freedBlock addr npages :: rest) given) (pos : 0 < npages)
    (small : npages * pageSize < 2 ^ 31) (fits : p2align ≤ 51)
    (aligned : addr % (pageSize * 2 ^ p2align) = 0) :
    ∃ final again, ihkNumaAllocPages config (ihkNumaZeroFreePages config
        (ihkNumaFreePages config taken addr npages) 0).1 npages p2align = some (final, again) ∧
      again ≠ 0 := by
  have inRange : npages < 2 ^ 31 := by
    simp only [pageSize] at small
    omega
  have held : freedBlock addr npages ∈ freedBlock addr npages :: rest := by simp
  have within : Within (freedBlock addr npages) (freedBlock addr npages) :=
    ⟨le_refl _, le_refl _⟩
  have pageAligned : addr % pageSize = 0 :=
    mod_eq_zero_of_dvd ((dvd_mul_right _ _).trans (dvd_of_mod_eq_zero aligned))
  have afterZero := (accounts.free config pageAligned pos small held within).zeroes
    (zeroes_ihkNumaZeroFreePages config (ihkNumaFreePages config taken addr npages) 0)
  obtain ⟨final, again, result, succeeds⟩ :=
    ihkNumaAllocPages_succeeds_iff config afterZero pos inRange fits
  refine ⟨final, again, result, succeeds.mpr ⟨addr, aligned, fun p above below => ?_⟩⟩
  have covers : Covers (freedBlock addr npages) p := ⟨above, below⟩
  have back := accounts.coverage_heldFree afterZero held within p
  rw [coverage_cons, if_pos covers] at back
  refine lt_of_lt_of_le (lt_of_lt_of_eq (succ_pos _) back.symm)
    (coverage_le_considered p
      (noneWaits_of_free accounts pageAligned pos held within small p covers) fun off => ?_)
  -- Without zeroing the block went into the tree, and no other entry covers its bytes.
  have single := accounts.atMostOne p
  rw [coverage_cons, if_pos covers] at single
  have sameList : (ihkNumaZeroFreePages config
      (ihkNumaFreePages config taken addr npages) 0).1.zeroedList = taken.zeroedList := by
    simp only [ihkNumaZeroFreePages, off, Bool.not_false, if_true]
    rcases ihkNumaFreePages_spec config accounts pageAligned pos small held within with
      ⟨zeroes, -⟩ | ⟨arena, freed, -⟩
    · simp [off] at zeroes
    · simp only [freed]
  rw [sameList]
  omega

/-- A block that was allocated from a node comes back, at once or when the pending frees end,
if and only if it lies in one chunk of the list and its size in bytes is an `int`. -/
theorem blocks_return_to_node {p2align : Nat} {taken : NumaNode}
    (books : Books layout nodes live added) (positive : 0 < npages) (inRange : npages < 2 ^ 31)
    (aligned : p2align ≤ 51)
    (result : ihkNumaAllocPages config (nodes node) npages p2align = some (taken, addr))
    (success : addr ≠ 0) (hasPage : Bool) (pending : Option (List (Nat × Int)))
    (noOthers : pending.getD [] = []) :
    let freed := finishFreePagesPending config layout (mckernelFreePages config layout hasPage
      ⟨update nodes node taken, pending⟩ addr npages)
    ComesBack config nodes freed.nodes node npages p2align ↔
      npages * pageSize < 2 ^ 31 ∧ ∃ chunk ∈ layout, chunk.start ≤ addr ∧
        addr + pageSize * npages.toNat ≤ chunk.stop := by
  have before := books.accounts node
  have accounts := before.alloc positive inRange aligned result
  rw [if_pos success, @size_freedBlock npages addr positive inRange] at accounts
  change Accounts taken (freedBlock addr npages :: live node) (added node) at accounts
  have after : Books layout (update nodes node taken)
      (update live node (freedBlock addr npages :: live node)) added := by
    refine ⟨fun other => ?_, books.apart, books.origin⟩
    by_cases same : other = node
    · subst same
      simpa using accounts
    · simpa [same] using books.accounts other
  have held : freedBlock addr npages ∈
      update live node (freedBlock addr npages :: live node) node := by simp
  have valid := accounts.valid (freedBlock addr npages) (by simp [owned])
  intro freed
  have inAllocator : freed.nodes =
      mckernelFreePagesInAllocator config layout (update nodes node taken) addr npages := by
    cases pending with
    | none => rfl
    | some list =>
      cases noOthers
      cases hasPage <;> rfl
  constructor
  · intro back
    refine ⟨(shiftedSize_eq_iff positive inRange).mp back.size, ?_⟩
    by_contra! dropped
    -- No chunk is found: the bytes of the block stay away.
    have missing : layout.find? (·.encloses addr npages) = none := by
      refine find?_eq_none.mpr fun c mem => ?_
      rw [MemoryChunk.encloses_iff valid.bounded positive inRange]
      exact fun encloses => absurd encloses.2 (not_le.mpr (dropped c mem encloses.1))
    have memory := back.memory addr
    simp only [inAllocator, mckernelFreePagesInAllocator, missing, update_self] at memory
    have covers : Covers (freedBlock addr npages) addr :=
      ⟨Nat.le_refl _, Nat.lt_add_of_pos_right valid.nonempty⟩
    have left := before.partition addr
    have right := accounts.partition addr
    simp only [owned, heldFree, coverage_append, coverage_cons, if_pos covers] at left right memory
    omega
  · rintro ⟨small, enclosed⟩
    have toOwner : mckernelFreePagesInAllocator config layout _ addr npages = _ :=
      after.freed_to_owner held positive inRange enclosed
    rw [update_self, update_idem] at toOwner
    rw [inAllocator, toOwner]
    obtain ⟨blockAligned, -⟩ := ihkNumaAllocPages_run before positive inRange aligned result success
    refine ⟨shiftedSize_eq positive small, fun other different => update_of_ne different _ _,
      fun point => ?_, ?_⟩
    · have ownBlock : freedBlock addr npages ∈ freedBlock addr npages :: live node := by simp
      have within : Within (freedBlock addr npages) (freedBlock addr npages) :=
        ⟨le_refl _, le_refl _⟩
      have pageAligned : addr % pageSize = 0 := valid.addrAligned
      have returned := accounts.coverage_heldFree
        (accounts.free config pageAligned positive small ownBlock within) ownBlock within point
      have left := before.partition point
      have right := accounts.partition point
      simp only [owned, heldFree, coverage_append, coverage_cons, coverage_nil,
        update_self] at left right returned ⊢
      omega
    · rw [update_self]
      exact allocatable_of_free accounts positive small aligned blockAligned

/-- Two neighbouring chunks of node 0 and one of node 1. -/
def threeChunkLayout : List MemoryChunk :=
  [⟨0x10000, 0x12000, 0⟩, ⟨0x12000, 0x14000, 0⟩, ⟨0x20000, 0x24000, 1⟩]

/-- The chunks of node 0 have been merged in its tree. -/
def mergedChunks : Nat → NumaNode :=
  update (fun _ => NumaNode.init fun _ => 0) 0 (ihkNumaAddFreePages ⟨true, true⟩
    (ihkNumaAddFreePages ⟨true, true⟩ (NumaNode.init fun _ => 0) 0x10000 0x2000).1 0x12000 0x2000).1

theorem books_mergedChunks : Books threeChunkLayout mergedChunks (fun _ => [])
    (update (fun _ => []) 0 [⟨0x12000, 0x2000⟩, ⟨0x10000, 0x2000⟩]) := by
  have boot : Accounts (NumaNode.init fun _ => 0) [] [] := Accounts.boot _
  have valid : (⟨0x10000, 0x2000⟩ : FreeChunk).Valid := by decide
  have valid' : (⟨0x12000, 0x2000⟩ : FreeChunk).Valid := by decide
  have given := ((boot.add ⟨true, true⟩ valid (by decide)).2.add ⟨true, true⟩ valid' (by decide)).2
  refine ⟨fun node => ?_, by decide, fun node range isRange => ?_⟩ <;> by_cases zero : node = 0
  · subst zero
    simpa [mergedChunks] using given
  · simpa [mergedChunks, zero] using boot
  · subst zero
    simp only [update_self, mem_cons, not_mem_nil, or_false] at isRange
    rcases isRange with rfl | rfl <;> decide
  · simp [zero] at isRange

/-- Two pages of the first chunk, freed while frees are pending. -/
theorem blocks_return_to_node_merged :
    ∃ taken, ihkNumaAllocPages ⟨true, true⟩ (mergedChunks 0) 2 1 = some (taken, 0x10000) ∧
      let freed := finishFreePagesPending ⟨true, true⟩ threeChunkLayout
        (mckernelFreePages ⟨true, true⟩ threeChunkLayout true
          ⟨update mergedChunks 0 taken, some []⟩ 0x10000 2)
      ComesBack ⟨true, true⟩ mergedChunks freed.nodes 0 2 1 := by
  have result : (ihkNumaAllocPages ⟨true, true⟩ (mergedChunks 0) 2 1).map Prod.snd =
      some 0x10000 := by
    decide +kernel
  obtain ⟨⟨taken, addr⟩, allocated, rfl⟩ := Option.map_eq_some_iff.mp result
  exact ⟨taken, allocated, (blocks_return_to_node books_mergedChunks (by decide) (by decide)
    (by decide) allocated (by decide) true (some []) rfl).mpr (by decide)⟩

/-- Two neighbouring pages, merged in the tree of their node. -/
def twoPages : Nat → NumaNode := fun _ =>
  (ihkNumaAddFreePages ⟨true, true⟩
    (ihkNumaAddFreePages ⟨true, true⟩ (NumaNode.init fun _ => 0) 0x10000 0x1000).1
    0x11000 0x1000).1

/-- A block across the border of two neighbouring chunks is dropped when it is freed. -/
theorem blocks_dropped :
    (ihkNumaAllocPages ⟨true, true⟩ (twoPages 0) 2 0).any fun (taken, addr) =>
      let layout := [⟨0x10000, 0x11000, 0⟩, ⟨0x11000, 0x12000, 0⟩]
      let freed := finishFreePagesPending ⟨true, true⟩ layout (mckernelFreePages ⟨true, true⟩
        layout false ⟨update twoPages 0 taken, none⟩ addr 2)
      addr = 0x10000 && coverage (heldFree (twoPages 0)) addr = 1 &&
        heldFree (freed.nodes 0) = [] := by
  decide +kernel

end McKernel.PageAlloc
