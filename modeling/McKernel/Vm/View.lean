import McKernel.Vm.Remove

/-!
# The address space as a map

The linked ranges describe a partial map from addresses to what is mapped there: the
flags, the object and the offset in it, the page size, the address in the straight mapping
and the private data.  Splitting a range, joining two ranges, extending a range, changing
its permissions and removing an interval are described by what they do to this map.
-/

namespace McKernel.Vm

open RbTree Extent ProcessVm Function List Option

variable {env : Env} {newrange : Nat} {error : Option Errno}

/-! ## The map -/

/-- What is mapped at an address. Anonymous memory has no object, and no offset. -/
structure View where
  flag : Nat
  object : Option (Nat × Nat)
  pgshift : Nat
  straight : Option Nat
  privateData : Nat
  deriving DecidableEq, Repr

def View.setPgshift (view : View) (pgshift : Nat) : View := { view with pgshift := pgshift }

def VmRange.viewAt (range : VmRange) (addr : Nat) : View where
  flag := range.flag
  object := if range.memobj = 0 then none
    else some (range.memobj, ULong.add range.objoff (addr - range.start))
  pgshift := range.pgshift
  straight := if range.straightStart = 0 then none
    else some (ULong.add range.straightStart (addr - range.start))
  privateData := range.privateData

/-- What an address is mapped to. -/
def ProcessVm.view (vm : ProcessVm) (addr : Nat) : Option View :=
  (vm.live.find? fun range => decide (Covers (vm.ranges range) addr)).map fun range =>
    (vm.ranges range).viewAt addr

/-- An address space between calls. The straight addresses of a range are an interval. -/
structure Mapped (vm : ProcessVm) : Prop extends Invariant vm where
  straightFits : ∀ range ∈ vm.live,
    (vm.ranges range).straightStart + ((vm.ranges range).end_ - (vm.ranges range).start) ≤ 2 ^ 64

section View

variable {vm vm' : ProcessVm} {r addr : Nat}

theorem WellFormed.eq_of_covers (wellFormed : WellFormed vm)
    (linked : r ∈ vm.live) (otherLinked : o ∈ vm.live)
    (covers : Covers (vm.ranges r) addr) (otherCovers : Covers (vm.ranges o) addr) :
    o = r := by
  obtain ⟨front, back, position⟩ := append_of_mem linked
  have around := wellFormed.around position
  rw [position] at otherLinked
  simp only [Covers, lo_vmRange, hi_vmRange] at covers otherCovers
  rcases mem_append.mp otherLinked with inFront | inRest
  · have := around.1 o inFront
    omega
  · rcases mem_cons.mp inRest with same | inBack
    · exact same
    · have := around.2 o inBack
      omega

theorem WellFormed.view_of_covers (wellFormed : WellFormed vm) (linked : r ∈ vm.live)
    (covers : Covers (vm.ranges r) addr) :
    vm.view addr = some ((vm.ranges r).viewAt addr) := by
  unfold ProcessVm.view
  cases found : vm.live.find? fun r => decide (Covers (vm.ranges r) addr) with
  | none =>
    have missing := find?_eq_none.mp found r linked
    simp [covers] at missing
  | some o =>
    have otherCovers : Covers (vm.ranges o) addr := by
      simpa using find?_some found
    have same := wellFormed.eq_of_covers linked (mem_of_find?_eq_some found) covers
      otherCovers
    simp [same]

theorem view_eq_none (free : ∀ r ∈ vm.live, ¬ Covers (vm.ranges r) addr) :
    vm.view addr = none := by
  unfold ProcessVm.view
  rw [find?_eq_none.mpr fun r linked => by simpa using free r linked]
  rfl

theorem view_cases (wellFormed : WellFormed vm) (addr : Nat) :
    (∃ r ∈ vm.live, Covers (vm.ranges r) addr ∧
      vm.view addr = some ((vm.ranges r).viewAt addr)) ∨
    (∀ r ∈ vm.live, ¬ Covers (vm.ranges r) addr) ∧ vm.view addr = none := by
  by_cases covered : ∃ r ∈ vm.live, Covers (vm.ranges r) addr
  · obtain ⟨r, linked, covers⟩ := covered
    exact .inl ⟨r, linked, covers, wellFormed.view_of_covers linked covers⟩
  · push Not at covered
    exact .inr ⟨covered, view_eq_none covered⟩

theorem view_congr (ranges : vm'.ranges = vm.ranges) (tree : vm'.vmRangeTree = vm.vmRangeTree) :
    vm'.view = vm.view := by
  funext addr
  simp only [ProcessVm.view, ProcessVm.live, ranges, tree]

/-- Ranges put in place of others, between the same neighbours, change what is seen of the
addresses that the others cover. -/
theorem view_exchange {front back : List Nat} (old new : List Nat) (change : View → View)
    (wellFormed : WellFormed vm) (wellFormed' : WellFormed vm')
    (position : vm.live = front ++ old ++ back) (live : vm'.live = front ++ new ++ back)
    (others : ∀ o ∈ front ++ back, vm'.ranges o = vm.ranges o)
    (middle : ∀ view, (∃ r ∈ new, Covers (vm'.ranges r) addr ∧
        (vm'.ranges r).viewAt addr = view) ↔
      ∃ r ∈ old, Covers (vm.ranges r) addr ∧
        change ((vm.ranges r).viewAt addr) = view) :
    vm'.view addr = (vm.view addr).map fun view =>
      if ∃ r ∈ old, Covers (vm.ranges r) addr then change view else view := by
  split_ifs with inside
  · obtain ⟨r, isOld, covers⟩ := inside
    obtain ⟨range', isNew, covers', same⟩ := (middle _).mpr ⟨r, isOld, covers, rfl⟩
    rw [wellFormed.view_of_covers (by simp [position, isOld]) covers,
      wellFormed'.view_of_covers (by simp [live, isNew]) covers', same]
    rfl
  rw [Option.map_id']
  rcases view_cases wellFormed addr with ⟨o, linked, covers, viewed⟩ | ⟨free, none⟩
  · have among : o ∈ front ++ back := by
      have notOld : o ∉ old := fun isOld => inside ⟨o, isOld, covers⟩
      simpa [position, notOld] using linked
    have linked' : o ∈ vm'.live := by
      rw [live]
      simp only [mem_append] at among ⊢
      tauto
    have kept := others o among
    rw [viewed, wellFormed'.view_of_covers linked' (kept ▸ covers), kept]
  · rw [none]
    refine view_eq_none fun o linked' covers' => ?_
    by_cases isNew : o ∈ new
    · obtain ⟨r, isOld, covers, -⟩ := (middle _).mp ⟨o, isNew, covers', rfl⟩
      exact inside ⟨r, isOld, covers⟩
    · have among : o ∈ front ++ back := by simpa [live, isNew] using linked'
      rw [others o among] at covers'
      refine free o ?_ covers'
      rw [position]
      simp only [mem_append] at among ⊢
      tauto

theorem Mapped.end_lt (mapped : Mapped vm) (linked : r ∈ vm.live) :
    (vm.ranges r).end_ < 2 ^ 64 := by
  have upper := (mapped.wellFormed.valid_of_mem linked).upper
  have bound := mapped.region.userEnd
  have small : userEndMax < 2 ^ 64 := by decide
  omega

end View

/-! ## Splitting -/

def splitPgshift (range : VmRange) (addr : Nat) : Nat :=
  if range.pgshift ≠ 0 ∧ addr &&& (2 ^ range.pgshift - 1) ≠ 0 then 0 else range.pgshift

def VmRange.lowerPart (range : VmRange) (addr : Nat) : VmRange :=
  { range with end_ := addr, pgshift := splitPgshift range addr }

def VmRange.upperPart (range : VmRange) (addr : Nat) : VmRange where
  start := addr
  end_ := range.end_
  flag := range.flag
  straightStart :=
    if range.straightStart ≠ 0 then ULong.add range.straightStart (ULong.sub addr range.start)
    else 0
  memobj := range.memobj
  objoff := if range.memobj ≠ 0 then ULong.add range.objoff (ULong.sub addr range.start) else 0
  pgshift := splitPgshift range addr
  privateData := range.privateData

section Parts

variable {r : VmRange} {addr p : Nat}

theorem viewAt_upperPart (inside : r.start < addr) (above : addr ≤ p)
    (below : addr < r.end_) (fits : r.end_ < 2 ^ 64)
    (straight : r.straightStart + (r.end_ - r.start) ≤ 2 ^ 64) :
    (r.upperPart addr).viewAt p =
      (r.viewAt p).setPgshift (splitPgshift r addr) := by
  have offsets (base : Nat) : ULong.add (ULong.add base (ULong.sub addr r.start))
      (p - addr) = ULong.add base (p - r.start) :=
    ULong.add_add_sub (Nat.le_of_lt inside) above (by omega)
  have kept : r.straightStart ≠ 0 →
      ULong.add r.straightStart (ULong.sub addr r.start) ≠ 0 := by
    rw [ULong.add_sub_of_le (Nat.le_of_lt inside) (by omega) (by omega)]
    omega
  simp only [VmRange.viewAt, VmRange.upperPart, View.setPgshift, View.mk.injEq, true_and, and_true]
  refine ⟨?_, ?_⟩
  · by_cases anonymous : r.memobj = 0
    · simp [anonymous]
    · simp [anonymous, offsets]
  · by_cases absent : r.straightStart = 0
    · simp [absent]
    · simp [absent, kept absent, offsets]

theorem straightFits_upperPart (inside : r.start < addr) (below : addr < r.end_)
    (fits : r.end_ < 2 ^ 64)
    (straight : r.straightStart + (r.end_ - r.start) ≤ 2 ^ 64) :
    (r.upperPart addr).straightStart + ((r.upperPart addr).end_ -
      (r.upperPart addr).start) ≤ 2 ^ 64 := by
  simp only [VmRange.upperPart]
  split
  · rw [ULong.add_sub_of_le (Nat.le_of_lt inside) (by omega) (by omega)]
    omega
  · omega

end Parts

variable {addr : Nat} {vm vm' : ProcessVm}

theorem ranges_dropPgshift (vm : ProcessVm) (r addr : Nat) :
    (dropPgshift vm r addr).ranges = update vm.ranges r
      { vm.ranges r with pgshift := splitPgshift (vm.ranges r) addr } := by
  unfold dropPgshift splitPgshift
  split
  · rfl
  · exact (update_eq_self r vm.ranges).symm

structure SplitEntries (vm vm' : ProcessVm) (range newrange addr : Nat) : Prop where
  lower : vm'.ranges range = (vm.ranges range).lowerPart addr
  upper : vm'.ranges newrange = (vm.ranges range).upperPart addr
  others : ∀ other, other ≠ range → other ≠ newrange → vm'.ranges other = vm.ranges other

theorem split_entries (linked : r ∈ vm.live)
    (called : splitProcessMemoryRange env vm r addr = (.ok newrange, vm')) :
    SplitEntries vm vm' r newrange addr := by
  unfold splitProcessMemoryRange at called
  split at called
  · cases called
  next vm₁ mapped =>
    cases pageTable_eq mapped
    split at called
    · cases called
    next address vm₂ allocated =>
      have fresh := (kmalloc_spec allocated).2 address rfl
      cases (kmalloc_spec allocated).1
      have ne : r ≠ address := by
        rintro rfl
        exact fresh ((sameLayout_dropPgshift vm r addr).live ▸ linked)
      simp only at called
      split at called
      · cases called
      next vm₃ inserted =>
        obtain ⟨sameRange, rfl⟩ := Prod.mk.inj called
        cases Except.ok.inj sameRange
        have ranges := ranges_vmRangeInsert inserted
        simp only [setEnd, write, tick, ranges_dropPgshift] at ranges
        refine ⟨?_, ?_, ?_⟩
        · rw [ranges]
          simp [ne, VmRange.lowerPart]
        · rw [ranges]
          simp [ne.symm, VmRange.upperPart]
        · intro o notRange notNew
          rw [ranges]
          simp [notRange, notNew]

theorem covers_lowerPart {r : VmRange} {p : Nat} (below : addr < r.end_) :
    Covers (r.lowerPart addr) p ↔ Covers r p ∧ p < addr := by
  simp only [Covers, lo_vmRange, hi_vmRange, VmRange.lowerPart]
  omega

theorem covers_upperPart {r : VmRange} {p : Nat} (inside : r.start < addr) :
    Covers (r.upperPart addr) p ↔ Covers r p ∧ addr ≤ p := by
  simp only [Covers, lo_vmRange, hi_vmRange, VmRange.upperPart]
  omega

variable {back front : List Nat} {merging surviving : Nat}

theorem Splits.live_eq (splits : Splits vm vm' r newrange addr) (nodup : vm.live.Nodup)
    (position : vm.live = front ++ r :: back) :
    vm'.live = front ++ r :: newrange :: back := by
  obtain ⟨front', back', position', live⟩ := splits.live
  rw [position] at nodup position'
  have notFront : r ∉ front := by
    intro mem
    exact (nodup_append.mp nodup).2.2 r mem r mem_cons_self rfl
  have notBack : r ∉ back := (nodup_cons.mp (nodup_append.mp nodup).2.1).1
  obtain ⟨rfl, -, rfl⟩ := (append_cons_inj_of_notMem notFront notBack).mp position'
  exact live

structure Cuts (vm vm' : ProcessVm) (front back : List Nat) (range newrange addr : Nat) :
    Prop extends SplitEntries vm vm' range newrange addr where
  mapped : Mapped vm'
  fresh : newrange ∉ vm.live
  live : vm'.live = front ++ range :: newrange :: back

theorem split_cuts (mapped : Mapped vm) (position : vm.live = front ++ r :: back)
    (lower : (vm.ranges r).start < addr) (upper : addr < (vm.ranges r).end_)
    (aligned : pageSize ∣ addr)
    (called : splitProcessMemoryRange env vm r addr = (.ok newrange, vm')) :
    Cuts vm vm' front back r newrange addr := by
  have linked : r ∈ vm.live := by simp [position]
  have entries := split_entries linked called
  rcases split_spec mapped.toInvariant linked lower upper aligned called with
    ⟨_, impossible, -⟩ | ⟨_, same, splits⟩
  · cases impossible
  · cases Except.ok.inj same
    have live := splits.live_eq mapped.wellFormed.nodup position
    refine ⟨entries, ⟨splits.invariant, ?_⟩, splits.fresh, live⟩
    intro o otherLinked
    have fits := mapped.straightFits r linked
    by_cases isRange : o = r
    · subst isRange
      rw [entries.lower]
      simp only [VmRange.lowerPart]
      omega
    · by_cases isNew : o = newrange
      · subst isNew
        rw [entries.upper]
        exact straightFits_upperPart lower upper (mapped.end_lt linked) fits
      · rw [entries.others o isRange isNew]
        refine mapped.straightFits o ?_
        rw [live] at otherLinked
        rw [position]
        simp only [mem_append, mem_cons] at otherLinked ⊢
        tauto

theorem Cuts.others_of_mem (cuts : Cuts vm vm' front back r newrange addr) (mapped : Mapped vm)
    (position : vm.live = front ++ r :: back) (among : o ∈ front ++ back) :
    vm'.ranges o = vm.ranges o := by
  refine cuts.others o (mapped.wellFormed.ne_of_mem position among) ?_
  rintro rfl
  refine cuts.fresh ?_
  rw [position]
  simp only [mem_append, mem_cons] at among ⊢
  tauto

/-- Rewriting a range within its bounds changes what is seen of its addresses. -/
theorem view_update {change : View → View}
    (wellFormed : WellFormed vm) (linked : r ∈ vm.live) (live : vm'.live = vm.live)
    (ranges : vm'.ranges = update vm.ranges r entry)
    (start : entry.start = (vm.ranges r).start)
    (end_ : entry.end_ = (vm.ranges r).end_)
    (changed : entry.viewAt p = change ((vm.ranges r).viewAt p)) :
    vm'.view p = (vm.view p).map fun view =>
      if Covers (vm.ranges r) p then change view else view := by
  have sameCovers (o : Nat) :
      Covers (vm'.ranges o) p ↔ Covers (vm.ranges o) p := by
    rw [ranges]
    by_cases same : o = r
    · subst same
      simp [Covers, start, end_]
    · simp [same]
  unfold ProcessVm.view
  simp only [live, sameCovers, Option.map_map]
  cases found : vm.live.find? fun r => decide (Covers (vm.ranges r) p) with
  | none => rfl
  | some o =>
    have covers : Covers (vm.ranges o) p := by simpa using find?_some found
    simp only [map_some, comp_apply, ranges]
    by_cases same : o = r
    · subst same
      simp only [update_self, if_pos covers, changed]
    · have outside : ¬ Covers (vm.ranges r) p := fun both =>
        same (wellFormed.eq_of_covers linked (mem_of_find?_eq_some found) both covers)
      simp [same, outside]

/-- A split changes nothing but the page size of the range, and this only when the place
of the cut is not aligned to it. -/
theorem split_view
    (mapped : Mapped vm) (linked : r ∈ vm.live) (lower : (vm.ranges r).start < addr)
    (upper : addr < (vm.ranges r).end_) (aligned : pageSize ∣ addr)
    (called : splitProcessMemoryRange env vm r addr = (res, vm')) (p : Nat) :
    vm'.view p = (vm.view p).map fun view =>
      if Covers (vm.ranges r) p then
        view.setPgshift (splitPgshift (vm.ranges r) addr)
      else view := by
  obtain ⟨front, back, position⟩ := append_of_mem linked
  cases res with
  | error error =>
    obtain ⟨_, -, -, live, ranges⟩ | ⟨_, impossible, -⟩ :=
      split_spec mapped.toInvariant linked lower upper aligned called
    case inr => cases impossible
    rw [ranges_dropPgshift] at ranges
    exact view_update mapped.wellFormed linked live ranges rfl rfl rfl
  | ok newrange =>
    have cuts := split_cuts mapped position lower upper aligned called
    have uppers (above : addr ≤ p) := viewAt_upperPart lower above upper (mapped.end_lt linked)
      (mapped.straightFits r linked)
    refine (view_exchange [r] [r, newrange]
      (·.setPgshift (splitPgshift (vm.ranges r) addr)) mapped.wellFormed
      cuts.mapped.wellFormed (by simpa using position) (by simpa using cuts.live)
      (fun o among => cuts.others_of_mem mapped position among) fun view => ?_).trans (by simp)
    simp only [mem_cons, not_mem_nil, or_false, exists_eq_or_imp, exists_eq_left,
      cuts.lower, cuts.upper, covers_lowerPart upper, covers_upperPart lower]
    constructor
    · rintro (⟨⟨covers, -⟩, rfl⟩ | ⟨⟨covers, above⟩, rfl⟩)
      · exact ⟨covers, rfl⟩
      · exact ⟨covers, (uppers above).symm⟩
    · rintro ⟨covers, rfl⟩
      by_cases below : p < addr
      · exact .inl ⟨⟨covers, below⟩, rfl⟩
      · exact .inr ⟨⟨covers, by omega⟩, uppers (by omega)⟩

/-! ## Joining, extending and changing permissions -/

/-- What a join makes of the part that is merged: page size, straight address and private
data are those of the surviving range. -/
def joinedView (surviving : VmRange) (point : Nat) (view : View) : View :=
  { view with
    pgshift := surviving.pgshift
    straight := (surviving.viewAt point).straight
    privateData := surviving.privateData }

/-- A join that succeeds needs neighbours with the same flags and a continued object. -/
structure Joins (vm vm' : ProcessVm) (surviving merging : Nat) : Prop where
  touch : (vm.ranges surviving).end_ = (vm.ranges merging).start
  flag : (vm.ranges surviving).flag = (vm.ranges merging).flag
  memobj : (vm.ranges surviving).memobj = (vm.ranges merging).memobj
  offset : (vm.ranges surviving).memobj ≠ 0 →
    ULong.add (vm.ranges surviving).objoff
      (ULong.sub (vm.ranges surviving).end_ (vm.ranges surviving).start) =
        (vm.ranges merging).objoff
  live : ∃ front back, vm.live = front ++ surviving :: merging :: back ∧
    vm'.live = front ++ surviving :: back
  ranges : vm'.ranges = update vm.ranges surviving
    { vm.ranges surviving with end_ := (vm.ranges merging).end_ }

theorem join_joins (inv : Invariant vm)
    (survivingLinked : surviving ∈ vm.live) (mergingLinked : merging ∈ vm.live)
    (called : joinProcessMemoryRange vm surviving merging = (error, vm')) :
    error ≠ none ∧ vm' = vm ∨ error = none ∧ Joins vm vm' surviving merging := by
  unfold joinProcessMemoryRange at called
  simp only at called
  split_ifs at called with mismatch off
  · cases called
    exact .inl ⟨by simp, rfl⟩
  · cases called
    exact .inl ⟨by simp, rfl⟩
  · cases called
    push Not at mismatch off
    obtain ⟨touch, flag, memobj⟩ := mismatch
    obtain ⟨front, back, position⟩ :=
      inv.wellFormed.neighbours survivingLinked mergingLinked touch
    refine .inr ⟨rfl, touch, flag, memobj, off, ⟨front, back, position, ?_⟩, ?_⟩
    · have mergingPosition : (vm.setEnd surviving (vm.ranges merging).end_).live =
          (front ++ [surviving]) ++ merging :: back := by simpa using position
      have erased : (eraseRange (vm.setEnd surviving (vm.ranges merging).end_) merging).live =
          front ++ surviving :: back := by
        simpa using live_eraseRange (by simpa using inv.wellFormed.nodup) mergingPosition
      exact erased
    · simp [replaceCached, setEnd, write]

/-- A join leaves flags and objects alone; the merged part takes on the page size, the
straight address and the private data of the surviving range. -/
theorem join_view (mapped : Mapped vm)
    (survivingLinked : surviving ∈ vm.live) (mergingLinked : merging ∈ vm.live)
    (called : joinProcessMemoryRange vm surviving merging = (error, vm')) (p : Nat) :
    vm'.view p = (vm.view p).map fun view =>
      if error = none ∧ Covers (vm.ranges merging) p then
        joinedView (vm.ranges surviving) p view
      else view := by
  have wellFormed := mapped.wellFormed
  have wellFormed' := (join_spec mapped.toInvariant survivingLinked mergingLinked called).wellFormed
  rcases join_joins mapped.toInvariant survivingLinked mergingLinked called with
    ⟨failed, rfl⟩ | ⟨rfl, joins⟩
  · simp [failed]
  · obtain ⟨front, back, position, live⟩ := joins.live
    have touch := joins.touch
    have nonempty := (wellFormed.valid_of_mem survivingLinked).nonempty
    have mergingNonempty := (wellFormed.valid_of_mem mergingLinked).nonempty
    have survivingEnd : (vm'.ranges surviving) =
        { vm.ranges surviving with end_ := (vm.ranges merging).end_ } := by
      rw [joins.ranges, update_self]
    have kept : ∀ o ∈ front ++ back, vm'.ranges o = vm.ranges o := by
      intro o among
      rw [joins.ranges, update_of_ne (wellFormed'.ne_of_mem live among)]
    have joined (covers : Covers (vm.ranges merging) p) :
        (vm'.ranges surviving).viewAt p =
          joinedView (vm.ranges surviving) p ((vm.ranges merging).viewAt p) := by
      have inside : (vm.ranges merging).start ≤ p := covers.1
      have offsets : ULong.add (ULong.add (vm.ranges surviving).objoff
          (ULong.sub (vm.ranges surviving).end_ (vm.ranges surviving).start))
            (p - (vm.ranges surviving).end_) =
          ULong.add (vm.ranges surviving).objoff (p - (vm.ranges surviving).start) :=
        ULong.add_add_sub (Nat.le_of_lt nonempty) (touch.symm ▸ inside)
          (mapped.end_lt survivingLinked)
      simp only [survivingEnd, VmRange.viewAt, joinedView, View.mk.injEq, joins.flag,
        joins.memobj, true_and, and_true]
      split
      · rfl
      next object =>
        rw [joins.offset (joins.memobj ▸ object)] at offsets
        rw [← offsets, touch]
    have covers' : Covers (vm'.ranges surviving) p ↔
        Covers (vm.ranges surviving) p ∨ Covers (vm.ranges merging) p := by
      rw [survivingEnd]
      simp only [Covers, lo_vmRange, hi_vmRange]
      omega
    refine (view_exchange [surviving, merging] [surviving]
      (fun view => if Covers (vm.ranges merging) p then
        joinedView (vm.ranges surviving) p view else view) wellFormed wellFormed'
      (by simpa using position) (by simpa using live) kept fun view => ?_).trans ?_
    · simp only [mem_cons, not_mem_nil, or_false, exists_eq_or_imp, exists_eq_left,
        covers']
      by_cases covers : Covers (vm.ranges merging) p
      · have apart : ¬Covers (vm.ranges surviving) p := by
          simp only [Covers, lo_vmRange, hi_vmRange] at covers ⊢
          omega
        simp [covers, apart, joined covers]
      · simp [covers, survivingEnd, VmRange.viewAt]
    · by_cases covers : Covers (vm.ranges merging) p <;> simp [covers]

theorem extendUp_view (mapped : Mapped vm) (linked : r ∈ vm.live) (aligned : pageSize ∣ newend)
    (called : extendUpProcessMemoryRange vm r newend = (error, vm')) (p : Nat) :
    vm'.view p =
      if error = none ∧ (vm.ranges r).end_ ≤ p ∧ p < newend then
        some ((vm.ranges r).viewAt p)
      else vm.view p := by
  have wellFormed := mapped.wellFormed
  obtain ⟨invariant', failed⟩ := extendUp_spec mapped.toInvariant linked aligned called
  by_cases succeeded : error = none
  swap
  · rw [failed succeeded, if_neg fun both => succeeded both.1]
  subst succeeded
  have longer : (vm.ranges r).end_ < newend ∧ vm' = vm.setEnd r newend := by
    unfold extendUpProcessMemoryRange at called
    simp only at called
    split_ifs at called with shorter outside occupied
    · cases called
    · cases called
    · cases called
    · exact ⟨by omega, (Prod.mk.inj called).2.symm⟩
  obtain ⟨longer, rfl⟩ := longer
  have wellFormed' := invariant'.wellFormed
  have nonempty := (wellFormed.valid_of_mem linked).nonempty
  have extended : (vm.setEnd r newend).ranges r =
      { vm.ranges r with end_ := newend } := by simp [setEnd, write]
  split
  next added =>
    have covers' : Covers ((vm.setEnd r newend).ranges r) p := by
      rw [extended]
      simp only [Covers, lo_vmRange, hi_vmRange]
      omega
    rw [wellFormed'.view_of_covers (by simpa using linked) covers', extended]
    rfl
  next outside =>
    simp only [true_and] at outside
    have covers' : Covers ((vm.setEnd r newend).ranges r) p ↔
        Covers (vm.ranges r) p := by
      rw [extended]
      simp only [Covers, lo_vmRange, hi_vmRange]
      omega
    obtain ⟨front, back, position⟩ := append_of_mem linked
    refine (view_exchange [r] [r] id wellFormed wellFormed' (by simpa using position)
      (by simpa using position) (fun o among =>
        update_of_ne (wellFormed.ne_of_mem position among) _ _) fun view => ?_).trans (by simp)
    have same : ((vm.setEnd r newend).ranges r).viewAt p =
        (vm.ranges r).viewAt p := by
      rw [extended]
      rfl
    simp [covers', same]

theorem setFlag_view (wellFormed : WellFormed vm) (linked : r ∈ vm.live) (flag p : Nat) :
    (vm.setFlag r flag).view p = (vm.view p).map fun view =>
      if Covers (vm.ranges r) p then { view with flag := flag } else view :=
  view_update wellFormed linked (show (vm.setFlag r flag).live = vm.live from rfl) rfl rfl
    rfl rfl

def protectedFlag (flag protflag : Nat) : Nat :=
  clearFlag flag VR_PROT_MASK ||| (protflag &&& VR_PROT_MASK)

theorem changeProt_view (mapped : Mapped vm) (linked : r ∈ vm.live)
    (called : changeProtProcessMemoryRange env vm r protflag = (error, vm')) (p : Nat) :
    vm'.view p = (vm.view p).map fun view =>
      if error = none ∧ Covers (vm.ranges r) p then
        { view with flag := protectedFlag view.flag protflag }
      else view := by
  have wellFormed := mapped.wellFormed
  -- The flag of the range may be read off the view, or from the range.
  have flags (vm₁ : ProcessVm) (same : vm₁.view p = ((vm.view p).map fun view =>
      if Covers (vm.ranges r) p then
        { view with flag := protectedFlag (vm.ranges r).flag protflag } else view)) :
      vm₁.view p = (vm.view p).map fun view =>
        if (none : Option Errno) = none ∧ Covers (vm.ranges r) p then
          { view with flag := protectedFlag view.flag protflag }
        else view := by
    rw [same]
    by_cases covers : Covers (vm.ranges r) p
    · rw [wellFormed.view_of_covers linked covers]
      simp [covers, VmRange.viewAt]
    · simp [covers]
  have changes := flags _ (setFlag_view wellFormed linked
    (protectedFlag (vm.ranges r).flag protflag) p)
  unfold changeProtProcessMemoryRange at called
  simp only at called
  split at called
  next unchanged =>
    cases called
    refine flags vm ?_
    by_cases covers : Covers (vm.ranges r) p
    · rw [wellFormed.view_of_covers linked covers]
      simp only [map_some, if_pos covers, protectedFlag, ← unchanged]
      rfl
    · simp [covers]
  · split at called
    · cases called
      exact changes
    · split at called
      next error vm₁ table =>
        cases pageTable_eq table
        split at called
        · cases called
          exact changes
        · cases called
          simp only [reduceCtorEq, false_and, ↓reduceIte, Option.map_id']
          exact congrFun (view_congr rfl rfl) p
      next vm₁ table =>
        cases pageTable_eq table
        cases called
        exact changes

end McKernel.Vm
