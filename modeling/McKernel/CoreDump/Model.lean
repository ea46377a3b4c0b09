import McKernel.Lib.CInt
import McKernel.Lib.Errno

/-!
# Core dumps

The model of `gencore` in `kernel/gencore.c`: three passes over the ranges of an address
space, which count chunks, fill in program headers and list chunks.  A chunk is an extent of
physical memory, or zeroes if its address is zero; the core file is all chunks one after the
other.
-/

namespace McKernel.CoreDump

def alignpage (size : Nat) : Nat := (size + pageSize - 1) / pageSize * pageSize

/-- `struct vm_range` with the flags that are looked at. -/
structure Range where
  start : Nat
  stop : Nat
  reserved : Bool
  memtypeUc : Bool
  dontdump : Bool
  demandPaging : Bool
  protRead : Bool
  protWrite : Bool
  protExec : Bool
  deriving DecidableEq, Repr

def Range.inaccessible (range : Range) : Bool :=
  range.reserved || range.memtypeUc || range.dontdump

def Range.size (range : Range) : Nat := range.stop - range.start

/-- An address space.  No page is at physical address zero, which is never allocated. -/
structure Vm where
  ranges : List Range
  /-- `ihk_mc_pt_virt_to_phys`, of the address of a page. -/
  virtToPhys : Nat → Option Nat
  /-- `virt_to_phys`. -/
  linear : Nat → Nat
  userStart : Nat
  userEnd : Nat
  memory : Nat → UInt8
  notesize : Nat
  aligned : ∀ range ∈ ranges, range.start % pageSize = 0 ∧ range.stop % pageSize = 0
  ordered : ∀ range ∈ ranges, range.start ≤ range.stop
  nonzero : ∀ page phys, virtToPhys page = some phys → phys ≠ 0

/-- `struct coretable`. -/
structure Chunk where
  addr : Nat
  len : Nat
  deriving DecidableEq, Repr

/-- `e_phoff`, `e_ehsize`, `e_phentsize` and `e_phnum`, the last of which has 16 bits. -/
structure Ehdr where
  phoff : Nat
  ehsize : Nat
  phentsize : Nat
  phnum : Nat
  deriving DecidableEq, Repr

inductive SegmentType where
  | PT_LOAD
  | PT_NOTE
  deriving DecidableEq, Repr

/-- `Elf64_Phdr`. -/
structure Phdr where
  type : SegmentType
  flags : Nat
  offset : Nat
  vaddr : Nat
  paddr : Nat
  filesz : Nat
  memsz : Nat
  align : Nat
  deriving DecidableEq, Repr

/-- What `gencore` leaves behind: the headers, the chunks and the number of chunks, which is
an `int`. -/
structure Core where
  eh : Ehdr
  ph : List Phdr
  chunks : List Chunk
  count : Int
  deriving DecidableEq, Repr

def fillElfHeader (segs : Nat) : Ehdr := ⟨64, 64, 56, segs % 2 ^ 16⟩

namespace Vm

variable (vm : Vm)

def dumped : List Range := vm.ranges.filter fun range => !range.inaccessible

def countPages : Nat → Nat → Bool → Nat
  | 0, _, prevzero => if prevzero then 1 else 0
  | pages + 1, page, prevzero =>
    match vm.virtToPhys page with
    | none => countPages pages (page + pageSize) true
    | some _ => (if prevzero then 2 else 1) + countPages pages (page + pageSize) false

def countRange (range : Range) : Nat :=
  if range.demandPaging then vm.countPages (range.size / pageSize) range.start false else 1

/-- The first pass: how many entries the table needs. -/
def countChunks : Nat := 3 + (vm.dumped.map vm.countRange).sum

/-- The number of segments, with that of the notes. -/
def segs : Nat := 1 + vm.dumped.length

def emitPages : Nat → Nat → Bool → Nat → List Chunk
  | 0, _, prevzero, size => if prevzero then [⟨0, size⟩] else []
  | pages + 1, page, prevzero, size =>
    match vm.virtToPhys page with
    | none =>
      emitPages pages (page + pageSize) true (if prevzero then size + pageSize else pageSize)
    | some phys =>
      (if prevzero then [⟨0, size⟩] else []) ++
        ⟨phys, pageSize⟩ :: emitPages pages (page + pageSize) false size

def startPhys (range : Range) : Nat :=
  if vm.userStart ≤ range.start ∧ range.stop ≤ vm.userEnd then
    (vm.virtToPhys range.start).getD 0
  else vm.linear range.start

/-- The entries of one range. -/
def emitRange (range : Range) : List Chunk :=
  if range.demandPaging then vm.emitPages (range.size / pageSize) range.start false 0
  else [⟨vm.startPhys range, range.size⟩]

/-- The program header of a range; the offset is an `unsigned int`. -/
def loadHeader (range : Range) (offset : Nat) : Phdr where
  type := .PT_LOAD
  flags := (if range.protRead then 4 else 0) + (if range.protWrite then 2 else 0) +
    (if range.protExec then 1 else 0)
  offset := offset
  vaddr := range.start
  paddr := 0
  filesz := range.size
  memsz := range.size
  align := pageSize

def loadHeaders : List Range → Nat → List Phdr
  | [], _ => []
  | range :: rest, offset =>
    loadHeader range offset :: loadHeaders rest ((offset + range.size) % 2 ^ 32)

/-- `offset` before the notes. -/
def noteOffset : Nat := (64 + 56 * vm.segs) % 2 ^ 32

def alignednotesize : Nat := alignpage (vm.notesize + vm.noteOffset) - vm.noteOffset

/-- `offset` before the first range. -/
def loadOffset : Nat := (vm.noteOffset + vm.alignednotesize) % 2 ^ 32

def noteHeader : Phdr where
  type := .PT_NOTE
  flags := 0
  offset := vm.noteOffset
  vaddr := 0
  paddr := 0
  filesz := vm.notesize
  memsz := vm.notesize
  align := 0

/-- The chunks of the headers, which are at the addresses that `kmalloc` has given. -/
def headerChunks (eh ph note : Nat) : List Chunk :=
  [⟨eh, 64⟩, ⟨ph, 56 * vm.segs⟩, ⟨note, vm.alignednotesize⟩]

/-- `gencore`; the arguments are the answers of `kmalloc`, the last for the table of chunks. -/
def gencore (eh ph note : Option Nat) (table : Bool) : Except Errno Core :=
  match eh, ph, note, table with
  | some eh, some ph, some note, true =>
    .ok
      { eh := fillElfHeader vm.segs
        ph := vm.noteHeader :: loadHeaders vm.dumped vm.loadOffset
        chunks := vm.headerChunks eh ph note ++ vm.dumped.flatMap vm.emitRange
        count := CInt.toInt vm.countChunks }
  | _, _, _, _ => .error .ENOMEM

/-- The byte that the process sees; a page that is not populated reads as zeroes. -/
def seen (address : Nat) : UInt8 :=
  match vm.virtToPhys (address / pageSize * pageSize) with
  | none => 0
  | some phys => vm.memory (phys + address % pageSize)

def chunkByte (chunk : Chunk) (index : Nat) : UInt8 :=
  if chunk.addr = 0 then 0 else vm.memory (chunk.addr + index)

/-- The byte at a place of the file. -/
def fileByte : List Chunk → Nat → Option UInt8
  | [], _ => none
  | chunk :: rest, index =>
    if index < chunk.len then some (vm.chunkByte chunk index)
    else fileByte rest (index - chunk.len)

end Vm

end McKernel.CoreDump
