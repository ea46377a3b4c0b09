import McKernel.Lib.TableWalk
import McKernel.Paging.Model

/-!
# Clearing a part of a page table

The model of `clear_range` in `arch/x86_64/kernel/memory.c` with its walk over the four
levels of a page table.  Entries of level `0` are those of the lowest tables, which map
pages of 4 KiB; entries of levels `1` and `2` map pages of 2 MiB and 1 GiB or refer to a
table of the level below; the entries of the root are of level `3`.
-/

namespace McKernel.PageTable

open TableWalk
open Vm (hasFlag userEndMax MF_HUGETLBFS)
open Paging (Page MF_ZEROFILL)

/-! ## Page tables -/

/-- The number of bytes that an entry maps: `PTL1_SIZE` to `PTL4_SIZE`. -/
def entrySize (level : Nat) : Nat := 2 ^ (12 + 9 * level)

/-- An entry that maps a page, with its remaining bits. -/
structure Pte where
  phys : Nat
  fileoff : Bool
  dirty : Bool
  attr : Nat
  deriving DecidableEq, Repr

inductive Entry : Nat → Type where
  | null {level : Nat} : Entry level
  | leaf {level : Nat} (pte : Pte) (fits : level < 3) : Entry level
  | table {level : Nat} (page : Nat) (entries : Fin 512 → Entry level) : Entry (level + 1)

structure Mapping where
  base : Nat
  level : Nat
  pte : Pte
  deriving DecidableEq, Repr

/-- The index of an address in a table whose entries are of the given level. -/
def slot (level base addr : Nat) : Fin 512 :=
  ⟨(addr - base) / entrySize level % 512, Nat.mod_lt _ (by decide)⟩

def Entry.lookup : {level : Nat} → Entry level → Nat → Nat → Option Mapping
  | _, .null, _, _ => none
  | level, .leaf pte _, base, _ => some ⟨base, level, pte⟩
  | level + 1, .table _ entries, base, addr =>
    (entries (slot level base addr)).lookup
      (base + (slot level base addr).val * entrySize level) addr

def Entry.tableCount (page : Nat) : {level : Nat} → Entry level → Nat
  | _, .null => 0
  | _, .leaf _ _ => 0
  | _, .table own entries =>
    (if own = page then 1 else 0) + Finset.univ.sum fun index => (entries index).tableCount page

/-- `struct page_table` of the root. -/
abbrev Root := Fin 512 → Entry 3

def translate (root : Root) (addr : Nat) : Option Mapping :=
  (root (slot 3 0 addr)).lookup (0 + (slot 3 0 addr).val * entrySize 3) addr

def tableCount (page : Nat) (root : Root) : Nat :=
  Finset.univ.sum fun index => (root index).tableCount page

/-! ## Pages -/

def MF_DEV_FILE : Nat := 0x2000
def MF_PREMAP : Nat := 0x8000
def MF_XPMEM : Nat := 0x10000
def MF_PRIVATE : Nat := 0x200000

/-- What becomes of the physical page of an entry. -/
inductive Disposal where
  /-- It is left alone. -/
  | kept
  /-- `page_unmap` has found other mappings. -/
  | unmapped
  /-- `ihk_mc_free_pages_user`. -/
  | freed
  deriving DecidableEq, Repr

/-- A page that has been taken out of the table, and whether `memobj_flush_page` has written
it back. -/
structure Processed where
  mapping : Mapping
  written : Bool
  disposal : Disposal
  deriving DecidableEq, Repr

/-- The page structures, the pages processed and tables freed so far, and the addresses
given to `remote_flush_tlb_add_addr`. -/
structure Effects where
  pages : Nat → Option Page
  processed : List Processed
  freedTables : List Nat
  flushes : List Nat

/-- `struct clear_range_args`, with the interval that is passed along; a memory object is
given by its flags. -/
structure Args where
  start : Nat
  end_ : Nat
  freePhysical : Bool
  memobj : Option Nat
  use1gbPage : Bool

def writesBack (args : Args) (page : Option Page) (dirty : Bool) : Bool :=
  page.any Page.isInMemobj && dirty &&
    args.memobj.any fun flags => !hasFlag flags (MF_ZEROFILL ||| MF_PRIVATE)

/-- `page_unmap`. -/
def pageUnmap (pages : Nat → Option Page) (phys : Nat) (page : Page) :
    Bool × (Nat → Option Page) :=
  if 0 < page.count - 1 then
    (false, Function.update pages phys (some { page with count := page.count - 1 }))
  else (true, Function.update pages phys none)

def disposePhysical (args : Args) (pages : Nat → Option Page) (pte : Pte) :
    Disposal × (Nat → Option Page) :=
  if pte.fileoff || !args.freePhysical then (.kept, pages)
  else
    match pages pte.phys with
    | none =>
      -- The pages of an XPMEM attachment belong to another process.
      if args.memobj.any fun flags => hasFlag flags MF_XPMEM then (.kept, pages)
      else (.freed, pages)
    | some page =>
      let (last, pages) := pageUnmap pages pte.phys page
      (if last then .freed else .unmapped, pages)

/-- The part of `clear_range_l1`, `clear_range_l2` and `clear_range_l3` that follows the
`xchg` of an entry that maps a page. -/
def dispose (args : Args) (level base : Nat) (pte : Pte) (effects : Effects) : Effects :=
  let page := if pte.fileoff then none else effects.pages pte.phys
  let (disposal, pages) := disposePhysical args effects.pages pte
  { pages := pages
    processed := effects.processed ++
      [⟨⟨base, level, pte⟩, writesBack args page pte.dirty, disposal⟩]
    freedTables := effects.freedTables
    flushes := effects.flushes ++ [base] }

def freeTable (base page : Nat) (effects : Effects) : Effects :=
  { effects with
    freedTables := effects.freedTables ++ [page], flushes := effects.flushes ++ [base] }

/-! ## The walk -/

/-- The entries that `walk_pte_l1` to `walk_pte_l4` visit. -/
@[irreducible] def indices (args : Args) (level base : Nat) : List (Fin 512) :=
  let six := if args.start ≤ base then 0 else (args.start - base) / entrySize level
  let eix :=
    if base + entrySize (level + 1) ≤ args.end_ then 512
    else (args.end_ - base + (entrySize level - 1)) / entrySize level
  (List.finRange 512).filter fun index => decide (six ≤ index.val ∧ index.val < eix)

/-- Whether a table is freed when the interval covers it: those of the lowest level always,
those above if pages of 1 GiB are used, and those below the root never. -/
def freesTables (args : Args) (level : Nat) : Bool :=
  level == 0 || level == 1 && args.use1gbPage

/-- `clear_range_l1` to `clear_range_l4`. -/
def clearEntry (args : Args) :
    {level : Nat} → Entry level → Nat → Effects → Verdict Errno × Entry level × Effects
  | _, .null, _, effects => (.nothing, .null, effects)
  | level, .leaf pte fits, base, effects =>
    if level ≠ 0 ∧ (base < args.start ∨ args.end_ < base + entrySize level) then
      (.failed .EINVAL, .leaf pte fits, effects)
    else (.done, .null, dispose args level base pte effects)
  | level + 1, .table page entries, base, effects =>
    match walk (fun index effects =>
        clearEntry args (entries index) (base + index.val * entrySize level) effects)
        (indices args level base) .nothing entries effects with
    | (.failed error, entries, effects) => (.failed error, .table page entries, effects)
    | (verdict, entries, effects) =>
      if level = 2 then (verdict, .table page entries, effects)
      else if freesTables args level ∧ args.start ≤ base ∧
          base + entrySize (level + 1) ≤ args.end_ then
        (.done, .null, freeTable base page effects)
      else (.done, .table page entries, effects)

/-- The bounds of `struct vm_regions` and the straight mapping of the process. -/
structure Region where
  userStart : Nat
  userEnd : Nat
  straightVa : Nat
  straightLen : Nat
  userEnd_le : userEnd ≤ userEndMax

/-- The arguments that `clear_range` passes along: the physical pages of devices, of objects
that are mapped in advance and of the straight mapping are kept. -/
def clearRangeArgs (region : Region) (use1gbPage : Bool) (start end_ : Nat)
    (freePhysical : Bool) (memobj : Option Nat) : Args :=
  let keeps := memobj.any fun flags => hasFlag flags MF_DEV_FILE || hasFlag flags MF_PREMAP
  let straight := region.straightVa ≠ 0 ∧ start = region.straightVa ∧
    end_ = region.straightVa + region.straightLen
  ⟨start, end_, freePhysical && !keeps && !decide straight, memobj, use1gbPage⟩

/-- `clear_range`; `allocated` tells whether the array of addresses could be allocated. -/
def clearRange (region : Region) (use1gbPage allocated : Bool) (root : Root) (start end_ : Nat)
    (freePhysical : Bool) (memobj : Option Nat) (effects : Effects) :
    Verdict Errno × Root × Effects :=
  if start < region.userStart ∨ region.userEnd < end_ ∨ end_ ≤ start then
    (.failed .EINVAL, root, effects)
  else if allocated = false then (.failed .ENOMEM, root, effects)
  else
    let args := clearRangeArgs region use1gbPage start end_ freePhysical memobj
    walk (fun index effects =>
        clearEntry args (root index) (0 + index.val * entrySize 3) effects)
      (indices args 3 0) .nothing root effects

/-- `ihk_mc_pt_clear_range`. -/
def ihkMcPtClearRange (region : Region) (use1gbPage allocated : Bool) (root : Root)
    (start end_ : Nat) (effects : Effects) : Verdict Errno × Root × Effects :=
  clearRange region use1gbPage allocated root start end_ false none effects

/-- `ihk_mc_pt_free_range`. -/
def ihkMcPtFreeRange (region : Region) (use1gbPage allocated : Bool) (root : Root)
    (start end_ : Nat) (memobj : Option Nat) (effects : Effects) :
    Verdict Errno × Root × Effects :=
  clearRange region use1gbPage allocated root start end_ true memobj effects

end McKernel.PageTable
