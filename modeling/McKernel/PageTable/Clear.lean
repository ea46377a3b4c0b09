import McKernel.PageTable.Model

/-!
# What clearing leaves of a page table

Clearing an entry leaves no address of the interval mapped, keeps the others, processes
every page of the interval once, and frees only tables that are not used any more.  This is
shown of an entry by induction over the levels, with the rule for walks, and then of the
whole table.
-/

namespace McKernel.PageTable

open TableWalk Nat Function
open Vm (hasFlag userEndMax)
open Paging (Page MF_ZEROFILL)

/-! ## Levels -/

section Levels

variable {level base addr : Nat}

theorem entrySize_pos (level : Nat) : 0 < entrySize level := Nat.two_pow_pos _

theorem entrySize_succ (level : Nat) : entrySize (level + 1) = 512 * entrySize level := by
  rw [entrySize, entrySize, show 12 + 9 * (level + 1) = 12 + 9 * level + 9 by omega, Nat.pow_add,
    mul_comm]

theorem dvd_entrySize (level : Nat) : 4096 ∣ entrySize level := by
  rw [entrySize, pow_add]
  exact Dvd.intro _ rfl

def entryBase (level base : Nat) (index : Fin 512) : Nat := base + index.val * entrySize level

theorem dvd_entryBase (aligned : 4096 ∣ base) (i : Fin 512) :
    4096 ∣ entryBase level base i :=
  dvd_add aligned (Dvd.dvd.mul_left (dvd_entrySize level) _)

theorem entryBase_upper (level base : Nat) (i : Fin 512) :
    entryBase level base i + entrySize level ≤ base + entrySize (level + 1) := by
  have bound : (i.val + 1) * entrySize level ≤ 512 * entrySize level :=
    mul_le_mul_right _ i.isLt
  rw [succ_mul] at bound
  rw [entryBase, entrySize_succ]
  omega

theorem slot_bounds (lower : base ≤ addr) (upper : addr < base + entrySize (level + 1)) :
    entryBase level base (slot level base addr) ≤ addr ∧
      addr < entryBase level base (slot level base addr) + entrySize level := by
  have pos := entrySize_pos level
  rw [entrySize_succ] at upper
  have small : (addr - base) / entrySize level < 512 := by
    rw [div_lt_iff_lt_mul pos]
    omega
  have below := div_mul_le_self (addr - base) (entrySize level)
  have above := lt_div_mul_add pos (a := addr - base)
  simp only [entryBase, slot, mod_eq_of_lt small]
  omega

theorem slot_unique {i : Fin 512} (lower : entryBase level base i ≤ addr)
    (upper : addr < entryBase level base i + entrySize level) :
    slot level base addr = i := by
  rw [entryBase] at lower upper
  have quotient : (addr - base) / entrySize level = i.val := by
    apply Nat.div_eq_of_lt_le
    · omega
    · rw [Nat.succ_mul]
      omega
  simp only [slot, quotient, mod_eq_of_lt i.isLt]

end Levels

/-! ## Looking up -/

section Lookup

variable {level base addr : Nat} {entry : Entry level} {m : Mapping}

theorem lookup_within (lower : base ≤ addr) (upper : addr < base + entrySize level)
    (found : entry.lookup base addr = some m) :
    base ≤ m.base ∧ m.base < base + entrySize level := by
  induction entry generalizing base with
  | null => cases found
  | @leaf level pte fits =>
    have isMapping := Option.some.inj found
    rw [← isMapping]
    exact ⟨le_refl _, by simp only; omega⟩
  | @table level page entries ih =>
    obtain ⟨inLower, inUpper⟩ := slot_bounds lower upper
    obtain ⟨from_, upTo⟩ := ih _ inLower inUpper found
    have top := entryBase_upper level base (slot level base addr)
    have bottom : base ≤ entryBase level base (slot level base addr) := le_add_right _ _
    exact ⟨by omega, by omega⟩

end Lookup

/-! ## The entries that are visited -/

section Indices

variable {args : Args} {level base : Nat}

/-- The interval and the addresses of an entry have a page in common. -/
def Args.Meets (args : Args) (base size : Nat) : Prop :=
  base < args.end_ ∧ args.start < base + size

theorem mem_indices (i : Fin 512) :
    i ∈ indices args level base ↔
      args.Meets (entryBase level base i) (entrySize level) := by
  have pos := entrySize_pos level
  have first : (if args.start ≤ base then 0 else (args.start - base) / entrySize level) ≤
      i.val ↔ args.start < entryBase level base i + entrySize level := by
    rw [entryBase]
    split
    next early => exact ⟨fun _ => by omega, fun _ => zero_le _⟩
    next late =>
      rw [← Nat.lt_succ_iff, Nat.div_lt_iff_lt_mul pos, Nat.succ_mul]
      omega
  have last : i.val < (if base + entrySize (level + 1) ≤ args.end_ then 512
      else (args.end_ - base + (entrySize level - 1)) / entrySize level) ↔
      entryBase level base i < args.end_ := by
    rw [entryBase]
    split
    next whole =>
      have upper := entryBase_upper level base i
      rw [entryBase] at upper
      exact ⟨fun _ => by omega, fun _ => i.isLt⟩
    · rw [← succ_le_iff, le_div_iff_mul_le pos, succ_mul]
      omega
  unfold indices
  simp only [List.mem_filter, List.mem_finRange, true_and, decide_eq_true_eq, first, last,
    Args.Meets]
  exact And.comm

theorem nodup_indices : (indices args level base).Nodup := by
  unfold indices
  exact List.Nodup.filter _ (List.nodup_finRange 512)

end Indices

/-! ## Clearing an entry -/

/-- An address of the interval. -/
def Args.Contains (args : Args) (addr : Nat) : Prop := args.start ≤ addr ∧ addr < args.end_

/-- A mapping of the interval that the entry holds. -/
def Hit (args : Args) {level : Nat} (entry : Entry level) (base : Nat) (mapping : Mapping) : Prop :=
  ∃ addr, base ≤ addr ∧ addr < base + entrySize level ∧ args.Contains addr ∧
    entry.lookup base addr = some mapping

/-- Pages disposed of one after the other. -/
def disposeAll (args : Args) (mappings : List Mapping) (effects : Effects) : Effects :=
  mappings.foldl (fun effects mapping => dispose args mapping.level mapping.base mapping.pte
    effects) effects

def Effects.SamePages (left right : Effects) : Prop :=
  left.pages = right.pages ∧ left.processed = right.processed

theorem Effects.SamePages.dispose (same : left.SamePages right) :
    (dispose args level base pte left).SamePages (dispose args level base pte right) := by
  obtain ⟨pages, processed⟩ := same
  simp only [SamePages, PageTable.dispose, pages, processed, and_self]

theorem Effects.SamePages.disposeAll (args : Args) (mappings : List Mapping)
    (same : left.SamePages right) :
    (disposeAll args mappings left).SamePages (disposeAll args mappings right) := by
  induction mappings generalizing left right with
  | nil => exact same
  | cons m rest ih => exact ih same.dispose

theorem disposeAll_append :
    disposeAll args (first ++ second) effects =
      disposeAll args second (disposeAll args first effects) :=
  List.foldl_append

/-! ## What becomes of the pages -/

/-- The record is of a page at this physical address, which was not known by its place in a file. -/
def Processed.isOf (record : Processed) (phys : Nat) : Bool :=
  !record.mapping.pte.fileoff && record.mapping.pte.phys == phys

/-- The page structures after some pages have been processed: the count of a page is lowered by one
for each mapping that has found others, and the structure is gone once the page has been freed. -/
def remaining (pages : Nat → Option Page) (records : List Processed) (phys : Nat) : Option Page :=
  (pages phys).bind fun page =>
    if records.any fun record => record.isOf phys && record.disposal == .freed then none
    else some { page with count := page.count -
      (records.countP fun record => record.isOf phys && record.disposal == .unmapped) }

/-- What has to become of a page that was mapped, by its page structure, if it has one: it is
written back if it belongs to a file and is dirty, it is kept if it is no page of the process, its
count is lowered if it has other mappings, and it is freed if it has none. -/
structure Fate (args : Args) (page : Option Page) (record : Processed) : Prop where
  written : record.written = true ↔
    record.mapping.pte.fileoff = false ∧ record.mapping.pte.dirty = true ∧
      (∃ found, page = some found ∧ found.isInMemobj = true) ∧
      ∃ flags, args.memobj = some flags ∧ hasFlag flags (MF_ZEROFILL ||| MF_PRIVATE) = false
  kept : record.disposal = .kept ↔ record.mapping.pte.fileoff = true ∨ args.freePhysical = false ∨
    page = none ∧ ∃ flags, args.memobj = some flags ∧ hasFlag flags MF_XPMEM = true
  unmapped : record.disposal = .unmapped ↔ record.mapping.pte.fileoff = false ∧
    args.freePhysical = true ∧ ∃ found, page = some found ∧ 1 < found.count
  freed : record.disposal = .freed ↔ record.mapping.pte.fileoff = false ∧
    args.freePhysical = true ∧
      ((∃ found, page = some found ∧ found.count ≤ 1) ∨
        page = none ∧ ∀ flags, args.memobj = some flags → hasFlag flags MF_XPMEM = false)

/-- Each page meets its fate after those before it. -/
def Fates (args : Args) (pages : Nat → Option Page) (records : List Processed) : Prop :=
  ∀ i record, records[i]? = some record →
    Fate args (remaining pages (records.take i) record.mapping.pte.phys) record

theorem remaining_nil (pages : Nat → Option Page) : remaining pages [] = pages := by
  funext phys
  cases found : pages phys <;> simp [remaining, found]

theorem remaining_snoc (pages : Nat → Option Page) (records : List Processed) (record : Processed)
    (phys : Nat) :
    remaining pages (records ++ [record]) phys = (remaining pages records phys).bind fun page =>
      if record.isOf phys && record.disposal == .freed then none
      else if record.isOf phys && record.disposal == .unmapped then
        some { page with count := page.count - 1 }
      else some page := by
  unfold remaining
  cases pages phys with
  | none => rfl
  | some page =>
    simp only [Option.bind_some, List.any_append, List.any_cons, List.any_nil, Bool.or_false,
      List.countP_append, List.countP_singleton]
    cases records.any fun record => record.isOf phys && record.disposal == .freed <;>
      cases record.isOf phys <;> cases record.disposal <;> simp
    omega

/-- The four ways of a physical page. -/
theorem disposePhysical_cases (args : Args) (pages : Nat → Option Page) (pte : Pte) :
    (disposePhysical args pages pte = (.kept, pages) ∧
      (pte.fileoff = true ∨ args.freePhysical = false ∨ pages pte.phys = none ∧
        ∃ flags, args.memobj = some flags ∧ hasFlag flags MF_XPMEM = true)) ∨
    (pte.fileoff = false ∧ args.freePhysical = true) ∧
      (disposePhysical args pages pte = (.freed, pages) ∧ pages pte.phys = none ∧
        (∀ flags, args.memobj = some flags → hasFlag flags MF_XPMEM = false) ∨
      ∃ page, pages pte.phys = some page ∧
        (disposePhysical args pages pte = (.unmapped, update pages pte.phys
            (some { page with count := page.count - 1 })) ∧ 1 < page.count ∨
          disposePhysical args pages pte = (.freed, update pages pte.phys none) ∧
            page.count ≤ 1)) := by
  unfold disposePhysical
  split
  next left => exact .inl ⟨rfl, by cases inFile : pte.fileoff <;> simp_all⟩
  next physical =>
    have isPhysical : pte.fileoff = false ∧ args.freePhysical = true := by simpa using physical
    cases found : pages pte.phys with
    | none =>
      cases object : args.memobj with
      | none => exact .inr ⟨isPhysical, .inl ⟨rfl, rfl, nofun⟩⟩
      | some flags =>
        cases foreign : hasFlag flags MF_XPMEM with
        | true => exact .inl ⟨by simp [foreign], .inr (.inr ⟨rfl, flags, rfl, foreign⟩)⟩
        | false => exact .inr ⟨isPhysical, .inl ⟨by simp [foreign], rfl, by
            rintro _ ⟨⟩
            exact foreign⟩⟩
    | some page =>
      refine .inr ⟨isPhysical, .inr ⟨page, rfl, ?_⟩⟩
      by_cases others : 0 < page.count - 1
      · exact .inl ⟨by simp only [pageUnmap, if_pos others]; rfl, by omega⟩
      · exact .inr ⟨by simp only [pageUnmap, if_neg others]; rfl, by omega⟩

theorem disposePhysical_pages (args : Args) (pages : Nat → Option Page) (pte : Pte) (phys : Nat) :
    (disposePhysical args pages pte).2 phys = (pages phys).bind fun page =>
      if (!pte.fileoff && pte.phys == phys) && (disposePhysical args pages pte).1 == .freed then
        none
      else if (!pte.fileoff && pte.phys == phys) &&
          (disposePhysical args pages pte).1 == .unmapped then
        some { page with count := page.count - 1 }
      else some page := by
  rcases disposePhysical_cases args pages pte with ⟨ends, -⟩ | ⟨⟨inFile, -⟩, ⟨ends, found, -⟩ |
    ⟨page, found, ⟨ends, -⟩ | ⟨ends, -⟩⟩⟩ <;> rw [ends]
  · simp
  all_goals
    by_cases here : phys = pte.phys
    · subst here
      simp [found, inFile]
    · simp [here, Ne.symm here]

theorem disposePhysical_disposal (args : Args) (pages : Nat → Option Page) (pte : Pte)
    (written : Bool) (m : Mapping) (isPte : m.pte = pte)
    (isWritten : written = true ↔ pte.fileoff = false ∧ pte.dirty = true ∧
      (∃ found, pages pte.phys = some found ∧ found.isInMemobj = true) ∧
      ∃ flags, args.memobj = some flags ∧ hasFlag flags (MF_ZEROFILL ||| MF_PRIVATE) = false) :
    Fate args (pages pte.phys) ⟨m, written, (disposePhysical args pages pte).1⟩ := by
  subst isPte
  rcases disposePhysical_cases args pages m.pte with ⟨ends, reason⟩ | ⟨⟨inFile, isFreed⟩, ⟨ends,
    found, own⟩ | ⟨page, found, ⟨ends, others⟩ | ⟨ends, last⟩⟩⟩ <;>
    refine ⟨isWritten, ?_, ?_, ?_⟩ <;> rw [ends]
  · exact iff_of_true rfl reason
  · refine iff_of_false nofun ?_
    rintro ⟨inFile, isFreed, page, found, -⟩
    simp_all
  · refine iff_of_false nofun ?_
    rintro ⟨inFile, isFreed, ⟨page, found, -⟩ | ⟨-, own⟩⟩
    · simp_all
    · rcases reason with file | free | ⟨-, flags, object, foreign⟩
      · simp_all
      · simp_all
      · simp [own flags object] at foreign
  · refine iff_of_false nofun ?_
    rintro (file | free | ⟨-, flags, object, foreign⟩)
    · simp_all
    · simp_all
    · simp [own flags object] at foreign
  · exact iff_of_false nofun (by simp [found])
  · exact iff_of_true rfl ⟨inFile, isFreed, .inr ⟨found, own⟩⟩
  · exact iff_of_false nofun (by simp [inFile, isFreed, found])
  · exact iff_of_true rfl ⟨inFile, isFreed, page, found, others⟩
  · exact iff_of_false nofun (by simp [found]; omega)
  · exact iff_of_false nofun (by simp [inFile, isFreed, found])
  · exact iff_of_false nofun (by simp [found]; omega)
  · exact iff_of_true rfl ⟨inFile, isFreed, .inl ⟨page, found, last⟩⟩

/-- One page of a list meets its fate. -/
theorem fate_dispose (args : Args) (level base : Nat) (pte : Pte) (effects : Effects)
    (pages : Nat → Option Page) (records : List Processed)
    (same : effects.pages = remaining pages records) :
    ∃ record, (dispose args level base pte effects).processed = effects.processed ++ [record] ∧
      record.mapping = ⟨base, level, pte⟩ ∧
      (dispose args level base pte effects).pages = remaining pages (records ++ [record]) ∧
      Fate args (remaining pages records pte.phys) record := by
  refine ⟨⟨⟨base, level, pte⟩, writesBack args (if pte.fileoff then none
    else effects.pages pte.phys) pte.dirty, (disposePhysical args effects.pages pte).1⟩, rfl, rfl,
    funext fun phys => ?_, same ▸ disposePhysical_disposal args effects.pages pte _ _ rfl ?_⟩
  · rw [remaining_snoc, ← same]
    exact disposePhysical_pages args effects.pages pte phys
  · unfold writesBack
    cases pte.fileoff <;> cases effects.pages pte.phys <;> cases args.memobj <;> simp
    tauto

theorem disposeAll_fates (args : Args) (mappings : List Mapping) (effects : Effects) :
    ∃ records, (disposeAll args mappings effects).processed = effects.processed ++ records ∧
      records.map Processed.mapping = mappings ∧
      (disposeAll args mappings effects).pages = remaining effects.pages records ∧
      Fates args effects.pages records := by
  induction mappings using List.reverseRecOn with
  | nil => exact ⟨[], (List.append_nil _).symm, rfl, (remaining_nil _).symm, nofun⟩
  | append_singleton front m ih =>
    obtain ⟨records, processed, mappings, pages, fates⟩ := ih
    obtain ⟨record, new, isRecord, after, fate⟩ := fate_dispose args m.level m.base m.pte
      (disposeAll args front effects) effects.pages records pages
    rw [disposeAll_append]
    refine ⟨records ++ [record], ?_, ?_, after, fun i found isFound => ?_⟩
    · change (dispose args m.level m.base m.pte (disposeAll args front effects)).processed = _
      rw [new, processed, List.append_assoc]
    · rw [List.map_append, mappings]
      simp [isRecord]
    · by_cases earlier : i < records.length
      · rw [List.getElem?_append_left earlier] at isFound
        rw [List.take_append_of_le_length (le_of_lt earlier)]
        exact fates i found isFound
      · obtain rfl : i = records.length := by
          have := (List.getElem?_eq_some_iff.mp isFound).1
          simp at this
          omega
        obtain rfl : record = found := by simpa using isFound
        rw [List.take_left, isRecord]
        exact fate

/-- What clearing an entry does: to the translation of its addresses, to the pages of the
interval, and to the tables below it. -/
structure Clears (args : Args) {level : Nat} (entry : Entry level) (base : Nat)
    (effects : Effects) (after : Entry level) (final : Effects) : Prop where
  cleared : ∀ addr, base ≤ addr → addr < base + entrySize level → args.Contains addr →
    after.lookup base addr = none
  kept : ∀ addr, base ≤ addr → addr < base + entrySize level → ¬args.Contains addr →
    after.lookup base addr = entry.lookup base addr
  processed : ∃ mappings, final.SamePages (disposeAll args mappings effects) ∧ mappings.Nodup ∧
    ∀ mapping, mapping ∈ mappings ↔ Hit args entry base mapping
  freed : ∃ gone, final.freedTables = effects.freedTables ++ gone ∧
    ∀ page, gone.count page + after.tableCount page ≤ entry.tableCount page

section Clears

variable {args : Args} {level base : Nat} {effects : Effects}

theorem clears_null : Clears args (.null : Entry level) base effects .null effects where
  cleared _ _ _ _ := rfl
  kept _ _ _ _ := rfl
  processed := ⟨[], ⟨rfl, rfl⟩, by simp, fun m => by
    simp only [List.not_mem_nil, false_iff]
    rintro ⟨_, _, _, _, found⟩
    cases found⟩
  freed := ⟨[], by simp, fun page => by simp [Entry.tableCount]⟩

theorem clears_leaf {fits : level < 3}
    (lower : args.start ≤ base) (upper : base + entrySize level ≤ args.end_) :
    Clears args (.leaf pte fits) base effects .null (dispose args level base pte effects) where
  cleared _ _ _ _ := rfl
  kept addr from_ upTo outside := by
    refine absurd ⟨?_, ?_⟩ outside <;> omega
  processed := by
    refine ⟨[⟨base, level, pte⟩], ⟨rfl, rfl⟩, List.nodup_singleton _, fun m => ?_⟩
    rw [List.mem_singleton]
    constructor
    · rintro rfl
      have pos := entrySize_pos level
      exact ⟨base, le_refl _, by omega, ⟨lower, by omega⟩, rfl⟩
    · rintro ⟨_, _, _, _, found⟩
      exact (Option.some.inj found).symm
  freed := ⟨[], by simp [dispose], fun page => by simp [Entry.tableCount]⟩

theorem lt_of_contains (contains : args.Contains addr) (lower : base ≤ addr)
    (upper : addr < base + entrySize level) : args.Meets base (entrySize level) :=
  ⟨by have := contains.2; omega, by have := contains.1; omega⟩

/-- What has been done when some entries of a table have been visited. -/
structure Walked (args : Args) {level : Nat} (entries : Fin 512 → Entry level) (base : Nat)
    (effects : Effects) (seen : List (Fin 512)) (table : Fin 512 → Entry level)
    (current : Effects) : Prop where
  cleared : ∀ index ∈ seen, ∀ addr, entryBase level base index ≤ addr →
    addr < entryBase level base index + entrySize level → args.Contains addr →
    (table index).lookup (entryBase level base index) addr = none
  kept : ∀ index ∈ seen, ∀ addr, entryBase level base index ≤ addr →
    addr < entryBase level base index + entrySize level → ¬args.Contains addr →
    (table index).lookup (entryBase level base index) addr =
      (entries index).lookup (entryBase level base index) addr
  unseen : ∀ index, index ∉ seen → table index = entries index
  processed : ∃ mappings, current.SamePages (disposeAll args mappings effects) ∧ mappings.Nodup ∧
    ∀ mapping, mapping ∈ mappings ↔
      ∃ index ∈ seen, Hit args (entries index) (entryBase level base index) mapping
  freed : ∃ gone, current.freedTables = effects.freedTables ++ gone ∧
    ∀ page, gone.count page + Finset.univ.sum (fun index => (table index).tableCount page) ≤
      Finset.univ.sum fun index => (entries index).tableCount page

variable {entries table : Fin 512 → Entry level} {seen : List (Fin 512)} {current : Effects}

theorem walked_start : Walked args entries base effects [] entries effects where
  cleared _ isSeen := by cases isSeen
  kept _ isSeen := by cases isSeen
  unseen _ _ := rfl
  processed := ⟨[], ⟨rfl, rfl⟩, by simp, fun m => by simp⟩
  freed := ⟨[], by simp, fun page => by simp⟩

theorem Hit.index_eq {left right : Fin 512}
    (first : Hit args (entries left) (entryBase level base left) m)
    (second : Hit args (entries right) (entryBase level base right) m) : left = right := by
  obtain ⟨_, lower, upper, _, found⟩ := first
  obtain ⟨_, lower', upper', _, found'⟩ := second
  obtain ⟨from_, upTo⟩ := lookup_within lower upper found
  obtain ⟨from', upTo'⟩ := lookup_within lower' upper' found'
  rw [← slot_unique from_ upTo, slot_unique from' upTo']

theorem sum_update (table : Fin 512 → Entry level) (i : Fin 512) (entry : Entry level)
    (page : Nat) :
    Finset.univ.sum (fun o => (update table i entry o).tableCount page) +
      (table i).tableCount page =
    Finset.univ.sum (fun o => (table o).tableCount page) + entry.tableCount page := by
  rw [← Finset.add_sum_erase _ _ (Finset.mem_univ i),
    ← Finset.add_sum_erase Finset.univ (fun o => (table o).tableCount page)
      (Finset.mem_univ i)]
  have rest : (Finset.univ.erase i).sum
      (fun o => (update table i entry o).tableCount page) =
      (Finset.univ.erase i).sum fun o => (table o).tableCount page :=
    Finset.sum_congr rfl fun o isOther => by
      rw [update_of_ne (Finset.ne_of_mem_erase isOther)]
  rw [rest, update_self]
  omega

section

variable (walked : Walked args entries base effects seen table current)
include walked

theorem Walked.visit {i : Fin 512} (fresh : i ∉ seen) {entry : Entry level}
    (clears : Clears args (entries i) (entryBase level base i) current entry next) :
    Walked args entries base effects (seen ++ [i]) (update table i entry) next where
  cleared o isSeen addr lower upper contains := by
    by_cases same : o = i
    · subst same
      rw [update_self]
      exact clears.cleared addr lower upper contains
    · have isSeen : o ∈ seen := by simpa [same] using isSeen
      rw [update_of_ne same]
      exact walked.cleared o isSeen addr lower upper contains
  kept o isSeen addr lower upper outside := by
    by_cases same : o = i
    · subst same
      rw [update_self]
      exact clears.kept addr lower upper outside
    · have isSeen : o ∈ seen := by simpa [same] using isSeen
      rw [update_of_ne same]
      exact walked.kept o isSeen addr lower upper outside
  unseen o notSeen := by
    rw [List.mem_append, List.mem_singleton, not_or] at notSeen
    rw [update_of_ne notSeen.2]
    exact walked.unseen o notSeen.1
  processed := by
    obtain ⟨before, isBefore, beforeNodup, beforeHits⟩ := walked.processed
    obtain ⟨new, isNew, newNodup, newHits⟩ := clears.processed
    refine ⟨before ++ new, ?_, ?_, fun m => ?_⟩
    · rw [disposeAll_append]
      have replayed := isBefore.disposeAll args new
      exact ⟨isNew.1.trans replayed.1, isNew.2.trans replayed.2⟩
    · rw [List.nodup_append]
      refine ⟨beforeNodup, newNodup, fun left isLeft right isRight same => ?_⟩
      obtain ⟨o, isOther, hitOther⟩ := (beforeHits left).mp isLeft
      have hit := (newHits right).mp isRight
      rw [same] at hitOther
      exact fresh (hitOther.index_eq hit ▸ isOther)
    · rw [List.mem_append, beforeHits, newHits]
      constructor
      · rintro (⟨o, isOther, hit⟩ | hit)
        · exact ⟨o, List.mem_append_left _ isOther, hit⟩
        · exact ⟨i, by simp, hit⟩
      · rintro ⟨o, isOther, hit⟩
        rcases List.mem_append.mp isOther with isOther | isOther
        · exact .inl ⟨o, isOther, hit⟩
        · rw [List.mem_singleton] at isOther
          exact .inr (isOther ▸ hit)
  freed := by
    obtain ⟨before, isBefore, beforeCount⟩ := walked.freed
    obtain ⟨gone, isGone, goneCount⟩ := clears.freed
    refine ⟨before ++ gone, by rw [isGone, isBefore, List.append_assoc], fun page => ?_⟩
    have updated := sum_update table i entry page
    have beforePage := beforeCount page
    have gonePage := goneCount page
    rw [walked.unseen i fresh] at updated
    rw [List.count_append]
    omega

end

section

variable (walked : Walked args entries base effects (indices args level base) table current)
include walked

theorem Walked.lookup (lower : base ≤ addr) (upper : addr < base + entrySize (level + 1)) :
    (args.Contains addr → (table (slot level base addr)).lookup
      (entryBase level base (slot level base addr)) addr = none) ∧
    (¬args.Contains addr → (table (slot level base addr)).lookup
      (entryBase level base (slot level base addr)) addr =
      (entries (slot level base addr)).lookup
        (entryBase level base (slot level base addr)) addr) := by
  obtain ⟨from_, upTo⟩ := slot_bounds lower upper
  constructor
  · intro contains
    exact walked.cleared _ ((mem_indices _).mpr (lt_of_contains contains from_ upTo)) addr from_
      upTo contains
  · intro outside
    by_cases isSeen : slot level base addr ∈ indices args level base
    · exact walked.kept _ isSeen addr from_ upTo outside
    · rw [walked.unseen _ isSeen]

theorem Walked.hits :
    ∃ mappings, current.SamePages (disposeAll args mappings effects) ∧ mappings.Nodup ∧
      ∀ m, m ∈ mappings ↔
        ∃ addr, base ≤ addr ∧ addr < base + entrySize (level + 1) ∧ args.Contains addr ∧
          (entries (slot level base addr)).lookup
            (entryBase level base (slot level base addr)) addr = some m := by
  obtain ⟨mappings, replayed, nodup, hits⟩ := walked.processed
  refine ⟨mappings, replayed, nodup, fun m => ?_⟩
  rw [hits]
  constructor
  · rintro ⟨i, _, addr, lower, upper, contains, found⟩
    have top := entryBase_upper level base i
    have bottom : base ≤ entryBase level base i := le_add_right _ _
    refine ⟨addr, by omega, by omega, contains, ?_⟩
    rw [slot_unique lower upper]
    exact found
  · rintro ⟨addr, lower, upper, contains, found⟩
    obtain ⟨from_, upTo⟩ := slot_bounds lower upper
    exact ⟨_, (mem_indices _).mpr (lt_of_contains contains from_ upTo), addr, from_, upTo, contains,
      found⟩

theorem Walked.clears_table (page : Nat) :
    Clears args (.table page entries) base effects (.table page table) current where
  cleared _ lower upper contains := (walked.lookup lower upper).1 contains
  kept _ lower upper outside := (walked.lookup lower upper).2 outside
  processed := walked.hits
  freed := by
    obtain ⟨gone, isGone, counts⟩ := walked.freed
    refine ⟨gone, isGone, fun o => ?_⟩
    have count := counts o
    simp only [Entry.tableCount]
    omega

theorem Walked.clears_freed
    (page : Nat) (lower : args.start ≤ base) (upper : base + entrySize (level + 1) ≤ args.end_) :
    Clears args (.table page entries) base effects .null (freeTable base page current) where
  cleared _ _ _ _ := rfl
  kept addr from_ upTo outside := by
    refine absurd ⟨?_, ?_⟩ outside <;> omega
  processed := walked.hits
  freed := by
    obtain ⟨gone, isGone, counts⟩ := walked.freed
    refine ⟨gone ++ [page], by simp [freeTable, isGone], fun o => ?_⟩
    have count := counts o
    simp only [Entry.tableCount, List.count_append, List.count_singleton, beq_iff_eq]
    omega

end

theorem clears_clearEntry (startAligned : 4096 ∣ args.start) (endAligned : 4096 ∣ args.end_)
    {entry after : Entry level}
    (aligned : 4096 ∣ base) (meets : args.Meets base (entrySize level))
    (res : clearEntry args entry base effects = (verdict, after, final))
    (passed : verdict.Passed) : Clears args entry base effects after final := by
  induction entry generalizing base effects verdict final with
  | null =>
    obtain ⟨_, rfl, rfl⟩ := res
    exact clears_null
  | @leaf level pte fits =>
    simp only [clearEntry] at res
    split at res
    · simp only [Prod.mk.injEq] at res
      rw [← res.1] at passed
      exact passed.elim
    next whole =>
      obtain ⟨_, rfl, rfl⟩ := res
      obtain ⟨below, above⟩ := meets
      have bounds : args.start ≤ base ∧ base + entrySize level ≤ args.end_ := by
        by_cases lowest : level = 0
        · subst lowest
          simp only [entrySize] at above ⊢
          omega
        · omega
      exact clears_leaf bounds.1 bounds.2
  | @table level page entries ih =>
    simp only [clearEntry] at res
    have walkedOf : ∀ {verdict : Verdict Errno} {table : Fin 512 → Entry level}
        {current : Effects},
        walk (fun i effects =>
          clearEntry args (entries i) (base + i.val * entrySize level) effects)
          (indices args level base) .nothing entries effects = (verdict, table, current) →
        verdict.Passed →
        Walked args entries base effects (indices args level base) table current := by
      intro verdict table current walked passed
      refine walk_rule (fun i isIndex seen table state verdict entry next before fresh
        visited passed => ?_) nodup_indices walked_start walked passed
      exact before.visit fresh (ih i (dvd_entryBase aligned i)
        ((mem_indices i).mp isIndex) visited passed)
    split at res
    next error table current walked =>
      simp only [Prod.mk.injEq] at res
      rw [← res.1] at passed
      exact passed.elim
    next verdict' table current notFailed walked =>
      have passed' : verdict'.Passed := by
        cases verdict' with
        | done => trivial
        | nothing => trivial
        | failed error => exact (notFailed error rfl).elim
      have state := walkedOf walked passed'
      split at res
      · simp only [Prod.mk.injEq] at res
        obtain ⟨_, rfl, rfl⟩ := res
        exact state.clears_table page
      · split at res
        next covered =>
          obtain ⟨_, rfl, rfl⟩ := res
          exact state.clears_freed page covered.2.1 covered.2.2
        · simp only [Prod.mk.injEq] at res
          obtain ⟨_, rfl, rfl⟩ := res
          exact state.clears_table page

end Clears

/-! ## The whole table -/

/-- A page table, no page of which is used for two tables. -/
structure Table where
  root : Root
  once : ∀ page, tableCount page root ≤ 1

/-- What clearing an interval leaves: of the translation, of the pages that were mapped in it,
each of which has met its fate once, and of the tables.  An address is given by the 48 bits that
the four levels translate. -/
structure Cleared (args : Args) (root : Root) (effects : Effects) (final : Root)
    (after : Effects) : Prop where
  unmapped : ∀ addr, args.Contains addr → translate final addr = none
  unchanged : ∀ addr < 2 ^ 48, ¬args.Contains addr → translate final addr = translate root addr
  processed : ∃ records, after.processed = effects.processed ++ records ∧
    after.pages = remaining effects.pages records ∧ Fates args effects.pages records ∧
    (records.map Processed.mapping).Nodup ∧
    ∀ mapping, mapping ∈ records.map Processed.mapping ↔
      ∃ addr, args.Contains addr ∧ translate root addr = some mapping
  freed : ∃ gone, after.freedTables = effects.freedTables ++ gone ∧ gone.Nodup ∧
    ∀ page ∈ gone, tableCount page final = 0

theorem cleared_of_walked {args : Args} {table : Table} {effects after : Effects} {final : Root}
    (bounded : args.end_ ≤ 2 ^ 48)
    (walked : Walked args table.root 0 effects (indices args 3 0) final after) :
    Cleared args table.root effects final after := by
  have size : entrySize (3 + 1) = 2 ^ 48 := rfl
  constructor
  · intro addr contains
    have upper : addr < 0 + entrySize (3 + 1) := by
      have := contains.2
      omega
    exact (walked.lookup (zero_le _) upper).1 contains
  · intro addr small outside
    exact (walked.lookup (zero_le _) (by omega)).2 outside
  · obtain ⟨mappings, replayed, nodup, hits⟩ := walked.hits
    obtain ⟨records, processed, rfl, pages, fates⟩ := disposeAll_fates args mappings effects
    refine ⟨records, replayed.2.trans processed, replayed.1.trans pages, fates, nodup, fun m => ?_⟩
    · rw [hits]
      constructor
      · rintro ⟨addr, _, _, contains, found⟩
        exact ⟨addr, contains, found⟩
      · rintro ⟨addr, contains, found⟩
        have below := contains.2
        exact ⟨addr, zero_le _, by omega, contains, found⟩
  · obtain ⟨gone, isGone, counts⟩ := walked.freed
    have bound : ∀ page, gone.count page + tableCount page final ≤ 1 := fun page =>
      (counts page).trans (table.once page)
    refine ⟨gone, isGone, List.nodup_iff_count_le_one.mpr fun page => ?_, fun page isGone => ?_⟩
    · have := bound page
      omega
    · have pos := List.count_pos_iff.mpr isGone
      have := bound page
      omega

theorem cleared_clearRange {region : Region} {use1gbPage allocated : Bool} {table : Table}
    {start end_ : Nat} (startAligned : 4096 ∣ start) (endAligned : 4096 ∣ end_)
    {freePhysical : Bool} {memobj : Option Nat} {effects after : Effects} {final : Root}
    (res : clearRange region use1gbPage allocated table.root start end_ freePhysical memobj
      effects = (.done, final, after)) :
    Cleared (clearRangeArgs region use1gbPage start end_ freePhysical memobj) table.root effects
      final after := by
  rw [clearRange] at res
  split at res
  · cases congrArg Prod.fst res
  next inside =>
    split at res
    · cases congrArg Prod.fst res
    · have bound := region.userEnd_le
      rw [userEndMax] at bound
      refine cleared_of_walked (by simp only [clearRangeArgs]; omega) ?_
      refine walk_rule (fun i isIndex seen table state verdict entry next before fresh
        visited passed => ?_) nodup_indices walked_start res trivial
      exact before.visit fresh (clears_clearEntry startAligned endAligned
        (dvd_entryBase (dvd_zero _) i) ((mem_indices i).mp isIndex) visited passed)

/-- If `ihk_mc_pt_clear_range` or `ihk_mc_pt_free_range` returns `0` for an interval of whole
pages, no address of the interval is mapped, the other addresses are mapped as before, every
page that was mapped in the interval has been disposed of once, and no table that has been
freed is still used. -/
theorem clear_range_clears (region : Region) (use1gbPage allocated : Bool) (table : Table)
    (start end_ : Nat) (startAligned : 4096 ∣ start) (endAligned : 4096 ∣ end_)
    (memobj : Option Nat) (effects after : Effects) (final : Root) :
    (ihkMcPtClearRange region use1gbPage allocated table.root start end_ effects =
        (.done, final, after) →
      Cleared (clearRangeArgs region use1gbPage start end_ false none) table.root effects
        final after) ∧
    (ihkMcPtFreeRange region use1gbPage allocated table.root start end_ memobj effects =
        (.done, final, after) →
      Cleared (clearRangeArgs region use1gbPage start end_ true memobj) table.root effects
        final after) :=
  ⟨cleared_clearRange startAligned endAligned, cleared_clearRange startAligned endAligned⟩

/-- A table with two entries. -/
def pair {level : Nat} (first second : Entry level) : Fin 512 → Entry level :=
  update (update (fun _ => .null) 0 first) 1 second

theorem sum_pair (first second : Entry level) (page : Nat) :
    Finset.univ.sum (fun i => (pair first second i).tableCount page) =
      first.tableCount page + second.tableCount page := by
  have outer := sum_update (update (fun _ => .null) 0 first) 1 second page
  have inner := sum_update (fun _ => .null) 0 first page
  have o : (update (fun _ => (.null : Entry level)) (0 : Fin 512) first 1).tableCount
      page = 0 := rfl
  simp only [Entry.tableCount, Finset.sum_const_zero] at inner
  simp only [pair]
  omega

/-- A page of 4 KiB and one that is known by its place in a file, a page of 2 MiB, and a page
of 1 GiB. -/
def mixedRoot : Root :=
  pair (.table 1 (pair (.table 2 (pair (.table 3 (pair
      (.leaf ⟨0x10000, false, true, 7⟩ (by decide)) (.leaf ⟨0x3000, true, false, 0⟩ (by decide))))
    (.leaf ⟨0x200000, false, false, 7⟩ (by decide))))
    (.leaf ⟨0x40000000, false, false, 7⟩ (by decide)))) .null

theorem mixedRoot_once (page : Nat) : tableCount page mixedRoot ≤ 1 := by
  simp only [tableCount, mixedRoot, sum_pair, Entry.tableCount]
  split_ifs <;> omega

theorem clear_range_clears_mixed :
    ∃ final after, ihkMcPtFreeRange ⟨0, 0x700000000000, 0, 0, by decide⟩ false true mixedRoot
        0 0x400000 none ⟨fun _ => none, [], [], []⟩ = (.done, final, after) ∧
      after.freedTables = [3] ∧
      Cleared (clearRangeArgs ⟨0, 0x700000000000, 0, 0, by decide⟩ false 0 0x400000 true none)
        mixedRoot ⟨fun _ => none, [], [], []⟩ final after := by
  generalize isResult : ihkMcPtFreeRange ⟨0, 0x700000000000, 0, 0, by decide⟩ false true mixedRoot
    0 0x400000 none ⟨fun _ => none, [], [], []⟩ = result
  have verdict : result.1 = .done ∧ result.2.2.freedTables = [3] := by
    rw [← isResult]
    decide +kernel
  obtain ⟨first, final, after⟩ := result
  obtain ⟨rfl, tables⟩ := verdict
  exact ⟨final, after, rfl, tables, (clear_range_clears _ false true ⟨mixedRoot, mixedRoot_once⟩ 0
    0x400000 (by decide) (by decide) none _ after final).2 isResult⟩

end McKernel.PageTable
