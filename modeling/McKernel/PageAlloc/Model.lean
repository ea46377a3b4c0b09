import McKernel.Lib.CInt
import McKernel.Lib.Errno
import McKernel.Lib.Extent
import McKernel.Lib.Memory
import McKernel.Lib.RbTree

/-!
# The physical page allocator of a NUMA node

The model of `lib/page_alloc.c` with the red-black tree allocator.  Free memory of
a node is kept in chunks; the `struct free_chunk` of a chunk is stored in the first
bytes of the chunk itself.  Freed blocks wait on `to_zero_list` until they are
cleared, then on `zeroed_list` until the next allocation moves them into the tree.

Physical addresses lie far below `2 ^ 64`, so sums of addresses and sizes are sums
of natural numbers.  Values computed from the `int` arguments of a call are wrapped
as C wraps them.
-/

namespace McKernel.PageAlloc

open RbTree Mem CInt

/-! ## Chunks and their headers -/

/-- `struct free_chunk`, without the links of the tree and of the lists. -/
@[ext] structure FreeChunk where
  addr : Nat
  size : Nat
  deriving DecidableEq, Repr

namespace FreeChunk

def limit (chunk : FreeChunk) : Nat := chunk.addr + chunk.size

instance : Extent FreeChunk where
  lo := addr
  hi := limit

end FreeChunk

/-- `sizeof(struct free_chunk)`: two words, an `rb_node` of three words and an
`llist_node` of one word. -/
def headerSize : Nat := 48

/-- The straight mapping of physical memory, from `MAP_ST_START` on. -/
def physToVirt (addr : Nat) : Nat := 0xffff800000000000 + addr

/-- Address of the `node` member of a chunk, the null pointer for an empty tree. -/
def nodePointer : ColorTree FreeChunk → Nat
  | .nil => 0
  | .node _ _ chunk _ => physToVirt chunk.addr + 16

/-- Address of the `list` member of the first chunk of a list. -/
def listPointer : List FreeChunk → Nat
  | [] => 0
  | chunk :: _ => physToVirt chunk.addr + 40

/-- The colour bit of `__rb_parent_color`. -/
def colorBit : Color → Nat
  | .red => 0
  | .black => 1

/-- Store the `addr` and `size` members of a chunk. -/
def writeHeader (mem : Mem) (chunk : FreeChunk) : Mem :=
  storeWord (storeWord mem chunk.addr chunk.addr) (chunk.addr + 8) chunk.size

/-- Store the `size` member of a chunk. -/
def writeSize (mem : Mem) (chunk : FreeChunk) : Mem :=
  storeWord mem (chunk.addr + 8) chunk.size

/-- Bring the `rb_node` members of all linked chunks in line with the tree. -/
def writeLinks (parent : Nat) : ColorTree FreeChunk → Mem → Mem
  | .nil, mem => mem
  | .node color left chunk right, mem =>
    let self := physToVirt chunk.addr + 16
    let mem := storeWord mem (chunk.addr + 16) (parent + colorBit color)
    let mem := storeWord mem (chunk.addr + 24) (nodePointer right)
    let mem := storeWord mem (chunk.addr + 32) (nodePointer left)
    writeLinks self right (writeLinks self left mem)

/-- A tree of free chunks together with the memory that holds them. -/
structure Arena where
  root : ColorTree FreeChunk
  mem : Mem

namespace Arena

def chunks (arena : Arena) : List FreeChunk := arena.root.toList

def relink (root : ColorTree FreeChunk) (mem : Mem) : Arena :=
  ⟨root, writeLinks 0 root mem⟩

end Arena

open Arena

/-! ## Freeing a range -/

/-- The tests of the descent in `__page_alloc_rbtree_free_range`: it stops at a chunk
that overlaps the range or touches it. -/
def freeRangeTurn (addr size : Nat) (ichunk : FreeChunk) : Turn :=
  if ichunk.addr ≤ addr ∧ addr < ichunk.limit then .stop
  else if ichunk.limit = addr then .stop
  else if addr + size = ichunk.addr then .stop
  else if addr < ichunk.addr then .left
  else .right

/-- `ichunk` ends where the freed range starts: it is extended to the right, and
merged with the next chunk if the two have become contiguous. -/
def extendToRight (mem : Mem) (ichunk : Zipper FreeChunk) (size : Nat) : Arena :=
  let grown : FreeChunk := { ichunk.value with size := ichunk.value.size + size }
  match ichunk.nextValue? with
  | some right =>
    if grown.limit = right.addr then
      let merged : FreeChunk := { grown with size := grown.size + right.size }
      relink (ichunk.set merged).eraseNext
        (memset (writeSize mem merged) right.addr headerSize)
    else
      relink (ichunk.set grown).tree (writeSize mem grown)
  | none => relink (ichunk.set grown).tree (writeSize mem grown)

/-- The structure at `old` is updated to describe `chunk`, copied to the front of the
chunk, and cleared at its old place. -/
def moveToFront (mem : Mem) (old : Nat) (chunk : FreeChunk) : Mem :=
  let mem := storeWord (storeWord mem old chunk.addr) (old + 8) chunk.size
  memset (copy mem chunk.addr old headerSize) old headerSize

/-- `ichunk` starts where the freed range ends: it is extended to the left, merged
with the previous chunk if the two have become contiguous, and moved to its new
front. -/
def extendToLeft (mem : Mem) (ichunk : Zipper FreeChunk) (size : Nat) : Arena :=
  let old := ichunk.value.addr
  let grown : FreeChunk := ⟨old - size, ichunk.value.size + size⟩
  match ichunk.prevValue? with
  | some left =>
    if left.limit = grown.addr then
      let merged : FreeChunk := ⟨grown.addr - left.size, grown.size + left.size⟩
      relink (ichunk.set merged).erasePrev
        (moveToFront (memset mem left.addr headerSize) old merged)
    else
      relink (ichunk.set grown).tree (moveToFront mem old grown)
  | none => relink (ichunk.set grown).tree (moveToFront mem old grown)

/-- `__page_alloc_rbtree_free_range`. An error leaves tree and memory untouched. -/
def pageAllocRbtreeFreeRange (arena : Arena) (addr size : Nat) : Except Errno Arena :=
  match descend (freeRangeTurn addr size) arena.root [] with
  | .found ichunk =>
    if ichunk.value.addr ≤ addr ∧ addr < ichunk.value.limit then .error .EINVAL
    else if ichunk.value.limit = addr then .ok (extendToRight arena.mem ichunk size)
    else .ok (extendToLeft arena.mem ichunk size)
  | .hole iter =>
    let newChunk : FreeChunk := ⟨addr, size⟩
    .ok (relink (link newChunk iter) (writeHeader arena.mem newChunk))

/-! ## Allocating from the tree -/

/-- `__page_alloc_rbtree_mark_range_allocated`: take `[alignedAddr, alignedAddr + size)`
out of `chunk`. The chunk keeps what is left on the left, a new chunk is made of what
is left on the right. -/
def pageAllocRbtreeMarkRangeAllocated (mem : Mem) (chunk : Zipper FreeChunk)
    (alignedAddr size : Nat) : Arena × Option Errno :=
  let right : FreeChunk := ⟨alignedAddr + size, chunk.value.limit - (alignedAddr + size)⟩
  let shrunk : FreeChunk := { chunk.value with size := alignedAddr - chunk.value.addr }
  let hasRight := decide (alignedAddr + size < chunk.value.limit)
  let mem := if hasRight then writeHeader mem right else mem
  let mem := writeSize mem shrunk
  if alignedAddr ≠ chunk.value.addr then
    let arena := relink (chunk.set shrunk).tree mem
    if hasRight then
      match pageAllocRbtreeFreeRange arena right.addr right.size with
      | .ok arena => (arena, none)
      | .error errno => (arena, some errno)
    else (arena, none)
  else if hasRight then (relink (chunk.set right).tree mem, none)
  else (relink chunk.erase mem, none)

/-- The bytes asked for: `PAGE_SIZE * npages` as `unsigned long`. -/
def allocSize (npages : Int) : Nat := toULong (pageSize * npages)

/-- `PAGE_SIZE << p2align` as `unsigned long`. -/
def alignSize (p2align : Nat) : Nat := pageSize * 2 ^ p2align % 2 ^ 64

/-- `(addr + (align_size - 1)) & align_mask` with `align_mask = ~(align_size - 1)`. -/
def alignedAddr (p2align addr : Nat) : Nat :=
  let lowBits := (alignSize p2align + (2 ^ 64 - 1)) % 2 ^ 64
  (addr + lowBits) % 2 ^ 64 &&& (2 ^ 64 - 1 - lowBits)

/-- The test of the search loop, also the body of `chunk_fits`. -/
def chunkFits (npages : Int) (p2align : Nat) (chunk : FreeChunk) : Bool :=
  decide ((alignedAddr p2align chunk.addr + allocSize npages) % 2 ^ 64 ≤ chunk.limit)

/-- The end of `__page_alloc_rbtree_alloc_pages`: mark the range in the chunk that was
found and clear the place where a header may have been. -/
def takeFromChunk (zeroAtFree : Bool) (mem : Mem) (chunk : Zipper FreeChunk)
    (aligned size : Nat) : Arena × Nat :=
  match pageAllocRbtreeMarkRangeAllocated mem chunk aligned size with
  | (arena, some _) => (arena, 0)
  | (arena, none) =>
    if zeroAtFree then
      ({ arena with mem := memset arena.mem aligned headerSize }, aligned)
    else (arena, aligned)

/-- `__page_alloc_rbtree_alloc_pages`: first fit in address order; 0 says that no chunk
is suitable. -/
def pageAllocRbtreeAllocPages (zeroAtFree : Bool) (arena : Arena) (npages : Int)
    (p2align : Nat) : Arena × Nat :=
  match search (chunkFits npages p2align) arena.root [] with
  | none => (arena, 0)
  | some chunk =>
    takeFromChunk zeroAtFree arena.mem chunk (alignedAddr p2align chunk.value.addr)
      (allocSize npages)

/-! ## The NUMA node -/

/-- The global switches `zero_at_free` and `deferred_zero_at_free`. -/
structure Config where
  zeroAtFree : Bool
  deferredZeroAtFree : Bool
  deriving DecidableEq, Repr

/-- The parts of `struct ihk_mc_numa_node` the allocator works on. A list entry carries
the `addr` and `size` its header was given. -/
structure NumaNode where
  freeChunks : Arena
  zeroedList : List FreeChunk
  toZeroList : List FreeChunk
  nrToZeroPages : Int
  nrPages : Nat
  nrFreePages : Nat
  minAddr : Nat
  maxAddr : Nat

namespace NumaNode

/-- Physical memory as the allocator sees it. -/
def mem (node : NumaNode) : Mem := node.freeChunks.mem

/-- Replace the memory and keep the tree. -/
def setMem (node : NumaNode) (mem : Mem) : NumaNode :=
  { node with freeChunks := { node.freeChunks with mem } }

/-- Replace `to_zero_list`. -/
def setToZeroList (node : NumaNode) (toZeroList : List FreeChunk) : NumaNode :=
  { node with toZeroList }

def init (mem : Mem) : NumaNode where
  freeChunks := ⟨.nil, mem⟩
  zeroedList := []
  toZeroList := []
  nrToZeroPages := 0
  nrPages := 0
  nrFreePages := 0
  minAddr := 0xFFFFFFFFFFFFFFFF
  maxAddr := 0

end NumaNode

/-- The bytes of `npages << PAGE_SHIFT`, an `int` that is then converted to
`unsigned long`. -/
def shiftedSize (npages : Int) : Nat := toULong (toInt (npages * pageSize))

/-- `llist_add`: the entry's `next` member points to the old front. -/
def llistAdd (mem : Mem) (chunk : FreeChunk) (list : List FreeChunk) :
    Mem × List FreeChunk :=
  (storeWord mem (chunk.addr + 40) (listPointer list), chunk :: list)

def ihkNumaAddFreePages (config : Config) (node : NumaNode) (addr size : Nat) :
    NumaNode × Option Errno :=
  let arena : Arena :=
    if config.zeroAtFree then
      { node.freeChunks with mem := memset node.mem addr size }
    else node.freeChunks
  match pageAllocRbtreeFreeRange arena addr size with
  | .error errno => ({ node with freeChunks := arena }, some errno)
  | .ok arena =>
    ({ node with
        freeChunks := arena
        minAddr := if addr < node.minAddr then addr else node.minAddr
        maxAddr := if addr + size > node.maxAddr then addr + size else node.maxAddr
        nrPages := node.nrPages + size / pageSize
        nrFreePages := node.nrFreePages + size / pageSize }, none)

/-- Clear an entry taken from `to_zero_list` behind its header and put it on
`zeroed_list`. -/
def zeroChunk (node : NumaNode) (chunk : FreeChunk) : NumaNode :=
  let cleared := memset node.mem (chunk.addr + headerSize) (chunk.size - headerSize)
  let (mem, zeroedList) := llistAdd cleared chunk node.zeroedList
  { node.setMem mem with
      zeroedList
      nrToZeroPages := toInt (node.nrToZeroPages - toInt (chunk.size / pageSize)) }

/-- The first loop of `__ihk_numa_zero_free_pages` for a given number of pages: take
entries from `to_zero_list` until one is big enough. Entries that are too small are
stacked on `tmp`. -/
def takeBigEnough (need : Nat) :
    Mem → List FreeChunk → List FreeChunk →
      Mem × Option FreeChunk × List FreeChunk × List FreeChunk
  | mem, tmp, [] => (mem, none, tmp, [])
  | mem, tmp, chunk :: rest =>
    if chunk.size < need then
      let (mem, tmp) := llistAdd mem chunk tmp
      takeBigEnough need mem tmp rest
    else (mem, some chunk, tmp, rest)

def addBack : Mem → List FreeChunk → List FreeChunk → Mem × List FreeChunk
  | mem, [], toZeroList => (mem, toZeroList)
  | mem, chunk :: tmp, toZeroList =>
    let (mem, toZeroList) := llistAdd mem chunk toZeroList
    addBack mem tmp toZeroList

def putBack (node : NumaNode) (tmp : List FreeChunk) : NumaNode :=
  let (mem, toZeroList) := addBack node.mem tmp node.toZeroList
  (node.setMem mem).setToZeroList toZeroList

/-- The loop over all of `to_zero_list`, with the count of zeroed pages. -/
def zeroAll : NumaNode → Int → List FreeChunk → NumaNode × Int
  | node, zeroed, [] => (node.setToZeroList [], zeroed)
  | node, zeroed, chunk :: rest =>
    zeroAll (zeroChunk node chunk) (toInt (zeroed + chunk.size / pageSize)) rest

/-- `__ihk_numa_zero_free_pages` for a given node. Returns the number of zeroed pages. -/
def ihkNumaZeroFreePages (config : Config) (node : NumaNode) (nrPages : Int) :
    NumaNode × Int :=
  if !config.zeroAtFree then (node, 0)
  else if nrPages ≠ 0 then
    let (mem, found, tmp, rest) :=
      takeBigEnough (shiftedSize nrPages) node.mem [] node.toZeroList
    let taken := (node.setMem mem).setToZeroList rest
    match found with
    | some chunk => (putBack (zeroChunk taken chunk) tmp, toInt (chunk.size / pageSize))
    | none => (putBack taken tmp, 0)
  else zeroAll node 0 node.toZeroList

/-- The loop of `ihk_numa_alloc_pages` that moves zeroed chunks into the tree. -/
def freeZeroed : NumaNode → List FreeChunk → NumaNode
  | node, [] => { node with zeroedList := [] }
  | node, chunk :: rest =>
    match pageAllocRbtreeFreeRange node.freeChunks chunk.addr chunk.size with
    | .error _ => freeZeroed node rest
    | .ok arena =>
      freeZeroed { node with
        freeChunks := arena
        nrFreePages := node.nrFreePages + chunk.size / pageSize } rest

/-- The `retry` loop of `ihk_numa_alloc_pages`: move zeroed chunks into the tree and,
as long as there are too few pages, zero a chunk that is big enough. `none` says that
the loop needs more than `fuel` rounds. -/
def retryLoop (config : Config) (npages : Int) : Nat → NumaNode → Option NumaNode
  | 0, _ => none
  | fuel + 1, node =>
    if !config.zeroAtFree then some node
    else
      let node := freeZeroed node node.zeroedList
      if node.nrFreePages < toULong npages then
        let (node, zeroed) := ihkNumaZeroFreePages config node npages
        if zeroed ≥ npages then retryLoop config npages fuel node else some node
      else some node

/-- `ihk_numa_alloc_pages`. Address 0 says that the request failed. Every round of the
`retry` loop takes an entry off `to_zero_list`. -/
def ihkNumaAllocPages (config : Config) (node : NumaNode) (npages : Int) (p2align : Nat) :
    Option (NumaNode × Nat) := do
  let node ← retryLoop config npages (node.toZeroList.length + 1) node
  if node.nrFreePages < toULong npages then
    return (node, 0)
  let (arena, addr) :=
    pageAllocRbtreeAllocPages config.zeroAtFree node.freeChunks npages p2align
  let node := { node with freeChunks := arena }
  if addr ≠ 0 then
    return ({ node with nrFreePages := node.nrFreePages - (toULong npages) }, addr)
  return (node, addr)

/-- `ihk_numa_free_pages`, without the request to the host to start clearing. -/
def ihkNumaFreePages (config : Config) (node : NumaNode) (addr : Nat) (npages : Int) :
    NumaNode :=
  let size := shiftedSize npages
  if addr < node.minAddr ∨ (addr + size) % 2 ^ 64 > node.maxAddr then node
  else if npages ≤ 0 then node
  else if !config.zeroAtFree || !config.deferredZeroAtFree then
    let arena : Arena :=
      if config.zeroAtFree then { node.freeChunks with mem := memset node.mem addr size }
      else node.freeChunks
    match pageAllocRbtreeFreeRange arena addr size with
    | .error _ => { node with freeChunks := arena }
    | .ok arena =>
      { node with
          freeChunks := arena
          nrFreePages := node.nrFreePages + npages.toNat }
  else
    let chunk : FreeChunk := ⟨addr, size⟩
    let (mem, toZeroList) := llistAdd (writeHeader node.mem chunk) chunk node.toZeroList
    { node.setMem mem with
        toZeroList
        nrToZeroPages := toInt (node.nrToZeroPages + npages) }

end McKernel.PageAlloc
