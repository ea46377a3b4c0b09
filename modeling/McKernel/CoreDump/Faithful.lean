import McKernel.CoreDump.Model

/-!
# Faithful core dumps

When is a core file what the process had in its memory?  The number of chunks and the sizes
of the segments always agree between the passes, and a range that is paged on demand is
dumped page by page.  What is left are the narrow integers and the ranges that are dumped in
one chunk as if their pages were contiguous.
-/

namespace McKernel.CoreDump

open List

variable {i page : Nat}

def total (chunks : List Chunk) : Nat := (chunks.map (·.len)).sum

@[simp] theorem total_nil : total [] = 0 := rfl

@[simp] theorem total_cons (c : Chunk) (rest : List Chunk) :
    total (c :: rest) = c.len + total rest := by
  simp [total]

@[simp] theorem total_append (front back : List Chunk) :
    total (front ++ back) = total front + total back := by
  simp [total]

namespace Vm

variable {vm : Vm}

/-! ## Positions in the file -/

theorem fileByte_append_right (front back : List Chunk) (i : Nat) :
    vm.fileByte (front ++ back) (total front + i) = vm.fileByte back i := by
  induction front with
  | nil => simp
  | cons c rest ih =>
    have beyond : ¬c.len + total rest + i < c.len := by omega
    have rest_index : c.len + total rest + i - c.len = total rest + i := by omega
    simp only [cons_append, fileByte, total_cons, beyond, if_false, rest_index, ih]

theorem fileByte_append_left (back : List Chunk) (inside : i < total front) :
    vm.fileByte (front ++ back) i = vm.fileByte front i := by
  induction front generalizing i with
  | nil => simp at inside
  | cons c rest ih =>
    simp only [cons_append, fileByte]
    split
    · rfl
    next beyond =>
      rw [total_cons] at inside
      exact ih (by omega)

/-! ## Ranges that are paged on demand -/

theorem length_emitPages (pages page : Nat) (prevzero : Bool) (size : Nat) :
    (vm.emitPages pages page prevzero size).length = vm.countPages pages page prevzero := by
  induction pages generalizing page prevzero size with
  | zero => cases prevzero <;> rfl
  | succ pages ih =>
    simp only [emitPages, countPages]
    cases vm.virtToPhys page with
    | none => exact ih _ _ _
    | some phys =>
      cases prevzero
      · simp [ih]
        omega
      · simp [ih]
        omega

def waiting (prevzero : Bool) (size : Nat) : Nat := if prevzero then size else 0

theorem total_emitPages (pages page : Nat) (prevzero : Bool) (size : Nat) :
    total (vm.emitPages pages page prevzero size) = waiting prevzero size + pageSize * pages := by
  induction pages generalizing page prevzero size with
  | zero => cases prevzero <;> simp [emitPages, waiting]
  | succ pages ih =>
    simp only [emitPages, Nat.mul_succ]
    cases vm.virtToPhys page with
    | none =>
      simp only [ih]
      cases prevzero
      · simp only [waiting, if_true, Bool.false_eq_true, if_false]
        omega
      · simp only [waiting, if_true]
        omega
    | some phys =>
      cases prevzero
      · simp [ih, waiting]
        omega
      · simp [ih, waiting]
        omega

theorem base_add_index (aligned : page % pageSize = 0) (inside : i < pageSize) :
    (page + i) / pageSize * pageSize = page := by
  simp only [pageSize] at *
  omega

theorem seen_of_unpopulated (aligned : page % pageSize = 0) (inside : i < pageSize)
    (absent : vm.virtToPhys page = none) :
    vm.seen (page + i) = 0 := by
  simp [seen, base_add_index aligned inside, absent]

theorem seen_of_populated (aligned : page % pageSize = 0)
    (inside : i < pageSize) (present : vm.virtToPhys page = some phys) :
    vm.seen (page + i) = vm.chunkByte ⟨phys, pageSize⟩ i := by
  have off : (page + i) % pageSize = i := by
    simp only [pageSize] at *
    omega
  simp [seen, base_add_index aligned inside, off, present, chunkByte,
    vm.nonzero page phys present]

theorem fileByte_emitPages
    (aligned : page % pageSize = 0) (inside : i < waiting prevzero size + pageSize * pages) :
    vm.fileByte (vm.emitPages pages page prevzero size) i =
      some (if i < waiting prevzero size then 0
        else vm.seen (page + (i - waiting prevzero size))) := by
  induction pages generalizing page prevzero size i with
  | zero =>
    cases prevzero
    · simp [waiting] at inside
    · simp only [waiting, if_true, Nat.mul_zero, Nat.add_zero] at inside
      simp [emitPages, fileByte, waiting, inside, chunkByte]
  | succ pages ih =>
    have nextAligned : (page + pageSize) % pageSize = 0 := by simpa using aligned
    simp only [emitPages]
    cases populated : vm.virtToPhys page with
    | none =>
      have longer : waiting true (if prevzero then size + pageSize else pageSize) =
          waiting prevzero size + pageSize := by
        cases prevzero <;> simp [waiting]
      rw [ih nextAligned (by rw [longer]; rw [Nat.mul_succ] at inside; omega), longer]
      by_cases before : i < waiting prevzero size
      · rw [if_pos (by omega), if_pos before]
      · by_cases here : i < waiting prevzero size + pageSize
        · rw [if_pos here, if_neg before, seen_of_unpopulated aligned (by omega) populated]
        · have place : page + pageSize + (i - (waiting prevzero size + pageSize)) =
              page + (i - waiting prevzero size) := by omega
          rw [if_neg here, if_neg before, place]
    | some phys =>
      have flushed : total (if prevzero then [(⟨0, size⟩ : Chunk)] else []) =
          waiting prevzero size := by
        cases prevzero <;> simp [waiting]
      by_cases before : i < waiting prevzero size
      · rw [fileByte_append_left _ (by rw [flushed]; exact before), if_pos before]
        cases prevzero
        · simp [waiting] at before
        · simp only [waiting, if_true] at before
          simp [fileByte, before, chunkByte]
      · obtain ⟨later, rfl⟩ := Nat.exists_eq_add_of_le (Nat.le_of_not_lt before)
        have position := vm.fileByte_append_right
          (if prevzero then [(⟨0, size⟩ : Chunk)] else [])
          (⟨phys, pageSize⟩ :: vm.emitPages pages (page + pageSize) false size) later
        rw [flushed] at position
        rw [position, if_neg before, Nat.add_sub_cancel_left, fileByte]
        by_cases here : later < pageSize
        · rw [if_pos here, seen_of_populated aligned here populated]
        · simp only [here, if_false]
          have remaining : later - pageSize < waiting false size + pageSize * pages := by
            rw [Nat.mul_succ] at inside
            omega
          have place : page + pageSize + (later - pageSize) = page + later := by omega
          rw [ih nextAligned remaining]
          simp only [waiting, Bool.false_eq_true, if_false, Nat.not_lt_zero, Nat.sub_zero,
            place]

/-! ## The chunks of a range -/

section Ranges

variable {r : Range}

theorem mem_ranges_of_dumped (isDumped : r ∈ vm.dumped) : r ∈ vm.ranges :=
  (mem_filter.mp isDumped).1

theorem pages_mul_pageSize (isDumped : r ∈ vm.dumped) :
    pageSize * (r.size / pageSize) = r.size := by
  obtain ⟨alignedStart, alignedStop⟩ := vm.aligned r (mem_ranges_of_dumped isDumped)
  simp only [Range.size, pageSize] at *
  omega

theorem total_emitRange (isDumped : r ∈ vm.dumped) :
    total (vm.emitRange r) = r.size := by
  unfold emitRange
  split
  · simpa [total_emitPages, waiting] using pages_mul_pageSize isDumped
  · simp

theorem length_emitRange (r : Range) : (vm.emitRange r).length = vm.countRange r := by
  unfold emitRange countRange
  split
  · exact length_emitPages _ _ _ _
  · rfl

theorem fileByte_demandPaging (isDumped : r ∈ vm.dumped) (demand : r.demandPaging = true)
    (inside : i < r.size) :
    vm.fileByte (vm.emitRange r) i = some (vm.seen (r.start + i)) := by
  have aligned := (vm.aligned r (mem_ranges_of_dumped isDumped)).1
  have bound : i < waiting false 0 + pageSize * (r.size / pageSize) := by
    rw [pages_mul_pageSize isDumped]
    simpa [waiting] using inside
  have byte : vm.fileByte (vm.emitPages (r.size / pageSize) r.start false 0) i = _ :=
    fileByte_emitPages aligned bound
  simpa [emitRange, demand, waiting] using byte

theorem fileByte_contiguous (direct : r.demandPaging = false) (inside : i < r.size) :
    vm.fileByte (vm.emitRange r) i =
      some (vm.chunkByte ⟨vm.startPhys r, r.size⟩ i) := by
  simp [emitRange, direct, fileByte, inside]

end Ranges

/-! ## Headers -/

def sizes (ranges : List Range) : Nat := (ranges.map Range.size).sum

theorem total_flatMap_emitRange {ranges : List Range}
    (dumped : ∀ r ∈ ranges, r ∈ vm.dumped) :
    total (ranges.flatMap vm.emitRange) = sizes ranges := by
  induction ranges with
  | nil => rfl
  | cons r rest ih =>
    rw [flatMap_cons, total_append, total_emitRange (dumped r mem_cons_self),
      ih fun o isOther => dumped o (mem_cons_of_mem _ isOther)]
    simp [sizes]

theorem getElem?_loadHeaders {ranges : List Range} {off : Nat} {r : Range}
    (small : off < 2 ^ 32) (found : ranges[i]? = some r) :
    (loadHeaders ranges off)[i]? =
      some (loadHeader r ((off + sizes (ranges.take i)) % 2 ^ 32)) := by
  induction ranges generalizing off i with
  | nil => simp at found
  | cons head rest ih =>
    cases i with
    | zero =>
      cases found
      simp only [loadHeaders, getElem?_cons_zero, take_zero, sizes, map_nil,
        sum_nil, Nat.add_zero, Nat.mod_eq_of_lt small]
    | succ i =>
      have below : (off + head.size) % 2 ^ 32 < 2 ^ 32 := Nat.mod_lt _ (by decide)
      rw [loadHeaders, getElem?_cons_succ, ih below found, Nat.mod_add_mod]
      simp [sizes, Nat.add_assoc]

theorem length_loadHeaders (ranges : List Range) (off : Nat) :
    (loadHeaders ranges off).length = ranges.length := by
  induction ranges generalizing off with
  | nil => rfl
  | cons r rest ih => simp [loadHeaders, ih]

theorem length_chunks (eh ph note : Nat) :
    (vm.headerChunks eh ph note ++ vm.dumped.flatMap vm.emitRange).length = vm.countChunks := by
  simp only [length_append, headerChunks, length_cons, length_nil,
    length_flatMap, countChunks, length_emitRange]

/-! ## When a core file is faithful -/

def before (vm : Vm) (core : Core) (index : Nat) : List Chunk :=
  core.chunks.take 3 ++ (vm.dumped.take index).flatMap vm.emitRange

/-- The segment of a range: it begins behind all chunks that come before, has the size of the
range, and its bytes are those that the process sees. -/
structure Loaded (vm : Vm) (core : Core) (index : Nat) (range : Range) (header : Phdr) : Prop where
  type : header.type = .PT_LOAD
  vaddr : header.vaddr = range.start
  chunks : vm.before core index ++ vm.emitRange range <+: core.chunks
  offset : header.offset = total (vm.before core index)
  filesz : header.filesz = total (vm.emitRange range)
  bytes : ∀ address, range.start ≤ address → address < range.stop →
    vm.fileByte core.chunks (header.offset + (address - header.vaddr)) = some (vm.seen address)

/-- A core file that is faithful to the address space. -/
structure Faithful (vm : Vm) (core : Core) : Prop where
  count : core.count = core.chunks.length
  phnum : core.eh.phnum = core.ph.length
  loads : ∀ index range, vm.dumped[index]? = some range →
    ∃ header, core.ph[index + 1]? = some header ∧ vm.Loaded core index range header

/-- Where a segment begins. -/
def fileOffset (vm : Vm) (index : Nat) : Nat :=
  alignpage (vm.notesize + (64 + 56 * vm.segs)) + sizes (vm.dumped.take index)

/-- The range reads like the memory from its first page on. -/
def Contiguous (vm : Vm) (range : Range) : Prop :=
  ∀ address, range.start ≤ address → address < range.stop →
    vm.seen address = vm.chunkByte ⟨vm.startPhys range, range.size⟩ (address - range.start)

/-- All numbers fit into their types, and every range that is not paged on demand reads like
the memory from where its first page is. -/
structure Dumpable (vm : Vm) : Prop where
  segs : vm.segs < 2 ^ 16
  chunks : vm.countChunks < 2 ^ 31
  offsets : ∀ index, index < vm.dumped.length → vm.fileOffset index < 2 ^ 32
  contiguous : ∀ range ∈ vm.dumped, range.demandPaging = false → vm.Contiguous range

theorem noteOffset_spec (narrow : vm.segs < 2 ^ 16) : vm.noteOffset = 64 + 56 * vm.segs ∧
    vm.noteOffset ≤ alignpage (vm.notesize + vm.noteOffset) := by
  refine ⟨Nat.mod_eq_of_lt (by omega), ?_⟩
  simp only [alignpage, pageSize]
  omega

section Generated

variable {eh ph note : Option Nat} {table : Bool} {core : Core}

theorem gencore_ok (eh ph note : Nat) :
    ∃ core, vm.gencore (some eh) (some ph) (some note) true = .ok core := by
  exact ⟨_, rfl⟩

section

variable (generated : vm.gencore eh ph note table = .ok core)
include generated

theorem gencore_spec :
    core.eh = fillElfHeader vm.segs ∧
      core.ph = vm.noteHeader :: loadHeaders vm.dumped vm.loadOffset ∧
      core.count = CInt.toInt vm.countChunks ∧
      ∃ ehAddr phAddr noteAddr, core.chunks =
        vm.headerChunks ehAddr phAddr noteAddr ++ vm.dumped.flatMap vm.emitRange := by
  unfold gencore at generated
  split at generated
  next _ _ _ _ ehAddr phAddr noteAddr =>
    have same := Except.ok.inj generated
    rw [← same]
    exact ⟨rfl, rfl, by simp only, ehAddr, phAddr, noteAddr, rfl⟩
  · cases generated

variable {r : Range}

theorem chunks_spec : ∃ ehAddr phAddr noteAddr,
    core.chunks = vm.headerChunks ehAddr phAddr noteAddr ++ vm.dumped.flatMap vm.emitRange ∧
      core.chunks.take 3 = vm.headerChunks ehAddr phAddr noteAddr := by
  obtain ⟨_, _, _, ehAddr, phAddr, noteAddr, chunks⟩ := gencore_spec generated
  exact ⟨ehAddr, phAddr, noteAddr, chunks, by simp [chunks, headerChunks]⟩

theorem before_append (found : vm.dumped[i]? = some r) :
    core.chunks = vm.before core i ++ vm.emitRange r ++
      (vm.dumped.drop (i + 1)).flatMap vm.emitRange := by
  obtain ⟨ehAddr, phAddr, noteAddr, chunks, headers⟩ := chunks_spec generated
  have parts : vm.dumped = vm.dumped.take i ++ r :: vm.dumped.drop (i + 1) := by
    obtain ⟨inside, rfl⟩ := List.getElem?_eq_some_iff.mp found
    rw [← List.drop_eq_getElem_cons inside, List.take_append_drop]
  rw [before, headers, chunks]
  conv_lhs => rw [parts]
  simp only [flatMap_append, flatMap_cons, append_assoc]

theorem total_before (narrow : vm.segs < 2 ^ 16) (i : Nat) :
    total (vm.before core i) = vm.fileOffset i := by
  obtain ⟨ehAddr, phAddr, noteAddr, chunks, headers⟩ := chunks_spec generated
  obtain ⟨noteOffset, aligned⟩ := noteOffset_spec narrow
  rw [before, total_append, headers, total_flatMap_emitRange fun _ => mem_of_mem_take,
    fileOffset, ← noteOffset]
  simp only [headerChunks, total_cons, total_nil, alignednotesize]
  omega

theorem header_spec (narrow : vm.segs < 2 ^ 16) (found : vm.dumped[i]? = some r) :
    core.ph[i + 1]? = some (loadHeader r (vm.fileOffset i % 2 ^ 32)) := by
  obtain ⟨_, headers, _⟩ := gencore_spec generated
  obtain ⟨noteOffset, aligned⟩ := noteOffset_spec narrow
  have small : vm.loadOffset < 2 ^ 32 := Nat.mod_lt _ (by decide)
  rw [headers, getElem?_cons_succ, getElem?_loadHeaders small found, loadOffset,
    Nat.mod_add_mod, alignednotesize, Nat.add_sub_cancel' aligned, noteOffset, fileOffset]

theorem fileByte_segment (narrow : vm.segs < 2 ^ 16) (found : vm.dumped[i]? = some r)
    (inside : place < r.size) :
    vm.fileByte core.chunks (vm.fileOffset i + place) =
      vm.fileByte (vm.emitRange r) place := by
  have isDumped := mem_of_getElem? found
  rw [before_append generated found, append_assoc, ← total_before generated narrow i,
    fileByte_append_right, fileByte_append_left]
  rw [total_emitRange isDumped]
  exact inside

/-- The segment of a range is right if its offset fits and the range is contiguous or is
paged on demand. -/
theorem loaded (dumpable : vm.Dumpable) (found : vm.dumped[i]? = some r) :
    vm.Loaded core i r (loadHeader r (vm.fileOffset i % 2 ^ 32)) := by
  have isDumped := mem_of_getElem? found
  obtain ⟨inList, _⟩ := List.getElem?_eq_some_iff.mp found
  have off : vm.fileOffset i % 2 ^ 32 = vm.fileOffset i :=
    Nat.mod_eq_of_lt (dumpable.offsets i inList)
  rw [off]
  refine ⟨rfl, rfl, ⟨_, (before_append generated found).symm⟩,
    (total_before generated dumpable.segs i).symm, (total_emitRange isDumped).symm, ?_⟩
  intro address above below
  have inside : address - r.start < r.size := by
    simp only [Range.size]
    omega
  have place : r.start + (address - r.start) = address := by omega
  show vm.fileByte core.chunks (vm.fileOffset i + (address - r.start)) = _
  rw [fileByte_segment generated dumpable.segs found inside]
  cases demand : r.demandPaging with
  | true => rw [fileByte_demandPaging isDumped demand inside, place]
  | false =>
    rw [fileByte_contiguous demand inside,
      dumpable.contiguous r isDumped demand address above below]

end

theorem Faithful.contiguous (faithful : vm.Faithful core)
    (generated : vm.gencore eh ph note table = .ok core) (narrow : vm.segs < 2 ^ 16)
    (isDumped : r ∈ vm.dumped) (direct : r.demandPaging = false) :
    vm.Contiguous r := by
  intro address above below
  obtain ⟨i, found⟩ := mem_iff_getElem?.mp isDumped
  obtain ⟨header, isHeader, loaded⟩ := faithful.loads i r found
  have inside : address - r.start < r.size := by
    simp only [Range.size]
    omega
  have byte := loaded.bytes address above below
  rw [loaded.offset, loaded.vaddr, total_before generated narrow,
    fileByte_segment generated narrow found inside, fileByte_contiguous direct inside] at byte
  exact (Option.some.inj byte).symm

theorem Faithful.narrow (faithful : vm.Faithful core)
    (generated : vm.gencore eh ph note table = .ok core) : vm.segs < 2 ^ 16 := by
  obtain ⟨header, headers, _⟩ := gencore_spec generated
  have same := faithful.phnum
  have pos : 0 < 2 ^ 16 := by decide
  rw [header, headers, length_cons, length_loadHeaders, fillElfHeader] at same
  have number : vm.segs = vm.dumped.length + 1 := Nat.add_comm _ _
  simp only [← number] at same
  rw [← same]
  exact Nat.mod_lt _ pos

end Generated

end Vm

/-- A core file is faithful exactly if the numbers fit and every range that is not paged on
demand is contiguous in physical memory, as far as can be seen. -/
theorem core_faithful_iff {vm : Vm} {eh ph note : Option Nat} {table : Bool} {core : Core}
    (generated : vm.gencore eh ph note table = .ok core) : vm.Faithful core ↔ vm.Dumpable := by
  obtain ⟨header, headers, count, ehAddr, phAddr, noteAddr, chunks⟩ := Vm.gencore_spec generated
  have length : core.chunks.length = vm.countChunks := by rw [chunks, Vm.length_chunks]
  constructor
  · intro faithful
    have narrow := faithful.narrow generated
    refine ⟨narrow, ?_, ?_, fun range isDumped direct =>
      faithful.contiguous generated narrow isDumped direct⟩
    · have same := faithful.count
      have upper : CInt.toInt vm.countChunks < 2 ^ 31 := by
        have := Int.bmod_lt (x := (vm.countChunks : Int)) (m := 2 ^ 32) (by decide)
        simpa [CInt.toInt] using this
      omega
    · intro index inside
      have found := getElem?_eq_getElem inside
      obtain ⟨loadHeader, isHeader, loaded⟩ := faithful.loads index _ found
      rw [Vm.header_spec generated narrow found] at isHeader
      have offset := loaded.offset
      rw [← Option.some.inj isHeader, Vm.total_before generated narrow] at offset
      rw [← offset]
      exact Nat.mod_lt _ (by decide)
  · intro dumpable
    have fits := dumpable.chunks
    refine ⟨?_, ?_, fun index range found => ⟨_, Vm.header_spec generated dumpable.segs found,
      Vm.loaded generated dumpable found⟩⟩
    · rw [count, length, CInt.toInt_of_range (by omega) (by omega)]
    · rw [header, headers, length_cons, Vm.length_loadHeaders, fillElfHeader,
        Nat.mod_eq_of_lt dumpable.segs, Vm.segs, Nat.add_comm]

theorem nonzero_of_two {first second firstPhys secondPhys : Nat} (firstNonzero : firstPhys ≠ 0)
    (secondNonzero : secondPhys ≠ 0) (page phys : Nat)
    (populated : (if page = first then some firstPhys
      else if page = second then some secondPhys else none) = some phys) : phys ≠ 0 := by
  split_ifs at populated
  · exact Option.some.inj populated ▸ firstNonzero
  · exact Option.some.inj populated ▸ secondNonzero

/-- A page of zeros, a page that is not there, and a written one. -/
def demandVm : Vm where
  ranges := [⟨0x1000, 0x4000, false, false, false, true, true, true, false⟩]
  virtToPhys page := if page = 0x1000 then some 0xa000 else if page = 0x3000 then some 0x8000
    else none
  linear address := address
  userStart := 0
  userEnd := 0x10000
  memory address := if address = 0x8000 then 7 else 0
  notesize := 400
  aligned := by decide
  ordered := by decide
  nonzero := nonzero_of_two (by decide) (by decide)

theorem core_faithful_demand : ∃ core,
    demandVm.gencore (some 0x100) (some 0x200) (some 0x300) true = .ok core ∧
      demandVm.Faithful core := by
  obtain ⟨core, generated⟩ := demandVm.gencore_ok 0x100 0x200 0x300
  refine ⟨core, generated, (core_faithful_iff generated).mpr ⟨by decide, by decide, ?_, ?_⟩⟩
  · intro index inside
    obtain rfl : index = 0 := Nat.lt_one_iff.mp inside
    decide
  · intro range isDumped direct
    obtain rfl := mem_singleton.mp (Vm.mem_ranges_of_dumped isDumped)
    cases direct

/-- A range of two pages that is not paged on demand, after `fork` has copied it page by page
to physical pages that are not next to each other. -/
def forkedVm : Vm where
  ranges := [⟨0x1000, 0x3000, false, false, false, false, true, true, false⟩]
  virtToPhys page := if page = 0x1000 then some 0x8000 else if page = 0x2000 then some 0xa000
    else none
  linear address := address
  userStart := 0
  userEnd := 0x10000
  memory address := if address = 0xa000 then 7 else 0
  notesize := 400
  aligned := by decide
  ordered := by decide
  nonzero := nonzero_of_two (by decide) (by decide)

/-- The second page is dumped from behind the first one in physical memory. -/
theorem core_unfaithful_forked : ∃ core,
    forkedVm.gencore (some 0x100) (some 0x200) (some 0x300) true = .ok core ∧
      ¬forkedVm.Faithful core := by
  obtain ⟨core, generated⟩ := forkedVm.gencore_ok 0x100 0x200 0x300
  refine ⟨core, generated, fun faithful => ?_⟩
  have isDumped : ⟨0x1000, 0x3000, false, false, false, false, true, true, false⟩ ∈
      forkedVm.dumped := mem_filter.mpr ⟨mem_singleton_self _, rfl⟩
  have contiguous := faithful.contiguous generated (by decide) isDumped rfl
  have same := contiguous 0x2000 (by decide) (by decide)
  revert same
  decide

end McKernel.CoreDump
