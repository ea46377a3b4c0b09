import McKernel.Lib.Extent
import McKernel.Vm.Model

/-!
# What the range functions do to the ranges

The linked ranges of an address space are non-empty, page aligned, inside the user
region, in address order and disjoint.  Each function of the model is described by its
effect on the list of linked ranges and on their bounds.
-/

namespace McKernel.Vm

open RbTree Extent ProcessVm List

variable {start end_ : Nat} {found : Option Nat}

instance : Extent VmRange where
  lo := VmRange.start
  hi := VmRange.end_

@[simp] theorem lo_vmRange (r : VmRange) : lo r = r.start := rfl

@[simp] theorem hi_vmRange (r : VmRange) : hi r = r.end_ := rfl

/-- A range as an address space may hold it. -/
structure VmRange.Valid (region : VmRegions) (range : VmRange) : Prop where
  nonempty : range.start < range.end_
  lower : region.userStart ≤ range.start
  upper : range.end_ ≤ region.userEnd
  startAligned : pageSize ∣ range.start
  endAligned : pageSize ∣ range.end_

def ProcessVm.rangeList (vm : ProcessVm) : List VmRange := vm.live.map vm.ranges

/-- The invariant of the range tree. -/
structure WellFormed (vm : ProcessVm) : Prop where
  valid : ∀ range ∈ vm.rangeList, range.Valid vm.region
  ordered : Ordered vm.rangeList

instance (region : VmRegions) (range : VmRange) : Decidable (range.Valid region) :=
  decidable_of_iff (range.start < range.end_ ∧ region.userStart ≤ range.start ∧
      range.end_ ≤ region.userEnd ∧ pageSize ∣ range.start ∧ pageSize ∣ range.end_)
    ⟨fun ⟨a, b, c, d, e⟩ => ⟨a, b, c, d, e⟩, fun ⟨a, b, c, d, e⟩ => ⟨a, b, c, d, e⟩⟩

instance (vm : ProcessVm) : Decidable (WellFormed vm) :=
  decidable_of_iff ((∀ range ∈ vm.rangeList, range.Valid vm.region) ∧
      vm.rangeList.Pairwise fun left right : VmRange => left.end_ ≤ right.start)
    ⟨fun ⟨valid, ordered⟩ => ⟨valid, ordered⟩, fun ⟨valid, ordered⟩ => ⟨valid, ordered⟩⟩

/-- The region bounds that the loader sets up, and the ends that `brk` and
`search_free_space` move. -/
structure VmRegions.Valid (region : VmRegions) : Prop where
  userEnd : region.userEnd ≤ userEndMax
  mapAligned : pageSize ∣ region.mapEnd
  brkAligned : pageSize ∣ region.brkEndAllocated

/-- A well-formed range tree in a well-formed region; the straight addresses of ranges are
page aligned too. -/
structure Layout (vm : ProcessVm) : Prop where
  wellFormed : WellFormed vm
  straight : ∀ range ∈ vm.live, pageSize ∣ (vm.ranges range).straightStart
  region : vm.region.Valid

/-- What holds of an address space between calls: cached ranges are linked. -/
structure Invariant (vm : ProcessVm) : Prop extends Layout vm where
  cached : ∀ range, some range ∈ vm.rangeCache → range ∈ vm.live

/-! ## Lists of linked ranges -/

namespace WellFormed

variable {vm : ProcessVm}

theorem valid_of_mem (wellFormed : WellFormed vm) (linked : r ∈ vm.live) :
    (vm.ranges r).Valid vm.region :=
  wellFormed.valid _ (mem_map_of_mem linked)

theorem pairwise (wellFormed : WellFormed vm) :
    vm.live.Pairwise fun left right => (vm.ranges left).end_ ≤ (vm.ranges right).start := by
  simpa [Ordered, rangeList, pairwise_map] using wellFormed.ordered

theorem nodup (wellFormed : WellFormed vm) : vm.live.Nodup := by
  refine wellFormed.pairwise.imp_of_mem ?_
  rintro left right leftLinked - apart rfl
  have := (wellFormed.valid_of_mem leftLinked).nonempty
  omega

theorem of_live (valid : ∀ r ∈ vm.live, (vm.ranges r).Valid vm.region)
    (ordered : vm.live.Pairwise fun left right =>
      (vm.ranges left).end_ ≤ (vm.ranges right).start) : WellFormed vm where
  valid := by simpa [rangeList] using valid
  ordered := by simpa [Ordered, rangeList, pairwise_map] using ordered

theorem around (wellFormed : WellFormed vm) (position : vm.live = front ++ r :: back) :
    (∀ o ∈ front, (vm.ranges o).end_ ≤ (vm.ranges r).start) ∧
      ∀ o ∈ back, (vm.ranges r).end_ ≤ (vm.ranges o).start := by
  have ordered := wellFormed.pairwise
  rw [position, pairwise_append, pairwise_cons] at ordered
  exact ⟨fun o mem => ordered.2.2 o mem r mem_cons_self,
    ordered.2.1.1⟩

theorem ne_of_mem (wellFormed : WellFormed vm) (position : vm.live = front ++ r :: back)
    (among : o ∈ front ++ back) : o ≠ r := by
  rintro rfl
  have nodup := wellFormed.nodup
  rw [position, nodup_middle] at nodup
  exact (nodup_cons.mp nodup).1 among

end WellFormed

/-- Two address spaces that link the same ranges with the same bounds. -/
structure SameLayout (vm vm' : ProcessVm) : Prop where
  live : vm'.live = vm.live
  region : vm'.region = vm.region
  start : ∀ range ∈ vm.live, (vm'.ranges range).start = (vm.ranges range).start
  end_ : ∀ range ∈ vm.live, (vm'.ranges range).end_ = (vm.ranges range).end_
  straight : ∀ range ∈ vm.live, (vm'.ranges range).straightStart = (vm.ranges range).straightStart

namespace SameLayout

variable {vm vm' vm'' : ProcessVm}

theorem of_eq (ranges : vm'.ranges = vm.ranges) (tree : vm'.vmRangeTree = vm.vmRangeTree)
    (region : vm'.region = vm.region) : SameLayout vm vm' := by
  refine ⟨by rw [ProcessVm.live, tree]; rfl, region, ?_, ?_, ?_⟩ <;> intro r _ <;> rw [ranges]

theorem refl (vm : ProcessVm) : SameLayout vm vm := of_eq rfl rfl rfl

theorem trans (first : SameLayout vm vm') (second : SameLayout vm' vm'') :
    SameLayout vm vm'' where
  live := second.live.trans first.live
  region := second.region.trans first.region
  start r linked :=
    (second.start r (first.live ▸ linked)).trans (first.start r linked)
  end_ r linked := (second.end_ r (first.live ▸ linked)).trans (first.end_ r linked)
  straight r linked :=
    (second.straight r (first.live ▸ linked)).trans (first.straight r linked)

theorem wellFormed (same : SameLayout vm vm') (wellFormed : WellFormed vm) :
    WellFormed vm' := by
  refine .of_live ?_ ?_
  · intro r linked
    rw [same.live] at linked
    obtain ⟨nonempty, lower, upper, startAligned, endAligned⟩ := wellFormed.valid_of_mem linked
    constructor <;> simp only [same.start r linked, same.end_ r linked, same.region] <;>
      assumption
  · rw [same.live]
    refine wellFormed.pairwise.imp_of_mem ?_
    intro left right leftLinked rightLinked apart
    rwa [same.end_ left leftLinked, same.start right rightLinked]

end SameLayout

theorem Layout.of_sameLayout (layout : Layout vm) (same : SameLayout vm vm') : Layout vm' where
  wellFormed := same.wellFormed layout.wellFormed
  straight r linked := by
    rw [same.live] at linked
    rw [same.straight r linked]
    exact layout.straight r linked
  region := same.region ▸ layout.region

theorem Invariant.of_sameLayout (inv : Invariant vm) (same : SameLayout vm vm')
    (cached : ∀ r, some r ∈ vm'.rangeCache → r ∈ vm.live) : Invariant vm' where
  toLayout := inv.toLayout.of_sameLayout same
  cached r inCache := same.live ▸ cached r inCache

/-! ## Navigation -/

section Navigation

variable {vm : ProcessVm} {r : Nat} {front back : List Nat}

theorem locate_position (nodup : vm.live.Nodup) (position : vm.live = front ++ r :: back) :
    ∃ zipper, vm.locate r = some zipper ∧ zipper.before = front ∧ zipper.after = back := by
  cases found : vm.locate r with
  | none =>
    have missing := search_none found r (by
      change r ∈ vm.live
      simp [position])
    simp at missing
  | some zipper =>
    obtain ⟨same, list⟩ := search_some found
    have same : zipper.value = r := by simpa using same
    have list : vm.live = zipper.before ++ r :: zipper.after := by
      rw [← same, ← Zipper.toList_tree, list]
      rfl
    rw [position] at nodup list
    have notFront : r ∉ front := by
      intro mem
      exact (nodup_append.mp nodup).2.2 r mem r mem_cons_self rfl
    have notBack : r ∉ back := (nodup_cons.mp (nodup_append.mp nodup).2.1).1
    have aligned := (append_cons_inj_of_notMem notFront notBack).mp list
    exact ⟨zipper, rfl, aligned.1.symm, aligned.2.2.symm⟩

theorem nextProcessMemoryRange_eq (nodup : vm.live.Nodup)
    (position : vm.live = front ++ r :: back) :
    nextProcessMemoryRange vm r = back.head? := by
  obtain ⟨zipper, located, -, after⟩ := locate_position nodup position
  simp [nextProcessMemoryRange, located, Zipper.nextValue?_eq, after]

theorem live_eraseRange (nodup : vm.live.Nodup) (position : vm.live = front ++ r :: back) :
    (eraseRange vm r).live = front ++ back := by
  obtain ⟨zipper, located, before, after⟩ := locate_position nodup position
  simp [eraseRange, located, live, before, after]

@[simp] theorem ranges_eraseRange : (eraseRange vm r).ranges = vm.ranges := by
  unfold eraseRange
  split <;> rfl

@[simp] theorem region_eraseRange : (eraseRange vm r).region = vm.region := by
  unfold eraseRange
  split <;> rfl

@[simp] theorem rangeCache_eraseRange : (eraseRange vm r).rangeCache = vm.rangeCache := by
  unfold eraseRange
  split <;> rfl

end Navigation

/-! ## Calls out of the module -/

theorem sameLayout_tick (vm : ProcessVm) : SameLayout vm vm.tick := .of_eq rfl rfl rfl

theorem sameLayout_write (quiet : address ∈ vm.live → r.start = (vm.ranges address).start ∧
      r.end_ = (vm.ranges address).end_ ∧
        r.straightStart = (vm.ranges address).straightStart) :
    SameLayout vm (vm.write address r) := by
  refine ⟨rfl, rfl, ?_, ?_, ?_⟩ <;> intro o linked <;> simp only [write] <;>
    by_cases same : o = address
  all_goals first
    | (subst same; simp [quiet linked])
    | simp [same]

theorem kmalloc_spec (called : kmalloc env vm = (found, vm')) :
    vm' = vm.tick ∧ ∀ address ∈ found, address ∉ vm.live := by
  obtain ⟨rfl, rfl⟩ := Prod.mk.inj called
  refine ⟨rfl, ?_⟩
  intro address allocated
  simp only [Option.mem_def, Option.ite_none_left_eq_some, not_or, Option.some.injEq] at allocated
  obtain ⟨⟨-, fresh⟩, rfl⟩ := allocated
  exact fresh

section SetEnd

variable {vm : ProcessVm} {r o newend : Nat}

@[simp] theorem live_setEnd : (vm.setEnd r newend).live = vm.live := rfl

@[simp] theorem region_setEnd : (vm.setEnd r newend).region = vm.region := rfl

@[simp] theorem rangeCache_setEnd : (vm.setEnd r newend).rangeCache = vm.rangeCache := rfl

@[simp] theorem start_setEnd :
    ((vm.setEnd r newend).ranges o).start = (vm.ranges o).start := by
  by_cases same : o = r
  · subst same
    simp [setEnd, write]
  · simp [setEnd, write, same]

@[simp] theorem straightStart_setEnd :
    ((vm.setEnd r newend).ranges o).straightStart = (vm.ranges o).straightStart := by
  by_cases same : o = r
  · subst same
    simp [setEnd, write]
  · simp [setEnd, write, same]

@[simp] theorem end_setEnd_self : ((vm.setEnd r newend).ranges r).end_ = newend := by
  simp [setEnd, write]

theorem end_setEnd_of_ne (ne : o ≠ r) :
    ((vm.setEnd r newend).ranges o).end_ = (vm.ranges o).end_ := by
  simp [setEnd, write, ne]

end SetEnd

/-! ## Lookup -/

def Meets (range : VmRange) (start end_ : Nat) : Prop :=
  range.start < end_ ∧ start < range.end_

theorem firstMatch_some {ranges : Nat → VmRange}
    (res : firstMatch ranges start end_ tree found = some r) :
    found = some r ∨ r ∈ tree.toList ∧ Meets (ranges r) start end_ := by
  induction tree generalizing found with
  | nil => exact .inl res
  | node color left v right ihLeft ihRight =>
    simp only [firstMatch] at res
    split_ifs at res with below above behind
    · rcases ihLeft res with kept | ⟨mem, meets⟩
      · exact .inl kept
      · exact .inr ⟨by simp [mem], meets⟩
    · rcases ihRight res with kept | ⟨mem, meets⟩
      · exact .inl kept
      · exact .inr ⟨by simp [mem], meets⟩
    · rcases ihLeft res with kept | ⟨mem, meets⟩
      · cases kept
        exact .inr ⟨by simp, by omega, by omega⟩
      · exact .inr ⟨by simp [mem], meets⟩
    · cases res
      exact .inr ⟨by simp, by omega, by omega⟩

theorem cachedRange_some (found : cachedRange vm start end_ = some r) :
    some r ∈ vm.rangeCache ∧ (vm.ranges r).start ≤ start ∧
      end_ ≤ (vm.ranges r).end_ := by
  obtain ⟨i, -, hit⟩ := exists_of_findSome?_eq_some found
  split at hit
  · cases hit
  next o slot =>
    split_ifs at hit with contains
    cases hit
    refine ⟨?_, contains⟩
    rw [getD_eq_getElem?_getD] at slot
    cases entry : vm.rangeCache[(i + vm.rangeCacheInd) % rangeCacheSize]? with
    | none => simp [entry] at slot
    | some cached =>
      rw [entry] at slot
      cases slot
      exact mem_of_getElem? entry

/-- A lookup returns a linked range that meets the interval; it changes nothing but the
cache. -/
theorem lookup_spec (inv : Invariant vm)
    (res : lookupProcessMemoryRange vm start end_ = (found, vm')) :
    SameLayout vm vm' ∧ Invariant vm' ∧
      ∀ r ∈ found, r ∈ vm.live ∧ start < end_ ∧ Meets (vm.ranges r) start end_ := by
  simp only [lookupProcessMemoryRange] at res
  split at res
  · cases res; exact ⟨.refl _, inv, by simp⟩
  next interval =>
    split at res
    next r hit =>
      cases res
      obtain ⟨inCache, lower, upper⟩ := cachedRange_some hit
      refine ⟨.refl _, inv, ?_⟩
      rintro _ ⟨⟩
      exact ⟨inv.cached _ inCache, by omega, by omega, by omega⟩
    · split at res
      · cases res; exact ⟨.refl _, inv, by simp⟩
      next r hit =>
        cases res
        rcases firstMatch_some hit with impossible | ⟨linked, meets⟩
        · cases impossible
        · refine ⟨.of_eq rfl rfl rfl, inv.of_sameLayout (.of_eq rfl rfl rfl) ?_, ?_⟩
          · intro o inCache
            rcases mem_or_eq_of_mem_set inCache with old | new
            · exact inv.cached _ old
            · cases new
              exact linked
          · rintro _ ⟨⟩
            exact ⟨linked, by omega, meets⟩

/-! ## Changing the list of ranges -/

namespace Layout

variable {vm vm' : ProcessVm} {r : Nat} {front back : List Nat}

theorem setEnd (layout : Layout vm) (position : vm.live = front ++ r :: back)
    (nonempty : (vm.ranges r).start < newend) (upper : newend ≤ vm.region.userEnd)
    (aligned : pageSize ∣ newend) (free : ∀ o ∈ back, newend ≤ (vm.ranges o).start) :
    Layout (vm.setEnd r newend) := by
  have ordered := layout.wellFormed.pairwise
  refine ⟨.of_live ?_ ?_, ?_, layout.region⟩
  · intro o linked
    obtain ⟨oldNonempty, lower, oldUpper, startAligned, endAligned⟩ :=
      layout.wellFormed.valid_of_mem linked
    by_cases same : o = r
    · subst same
      constructor <;> simpa
    · constructor <;> simpa [end_setEnd_of_ne same]
  · simp only [live_setEnd, start_setEnd]
    rw [position, pairwise_append, pairwise_cons] at ordered ⊢
    have kept : ∀ left ∈ front ++ back, ∀ right, (vm.ranges left).end_ ≤ (vm.ranges right).start →
        ((vm.setEnd r newend).ranges left).end_ ≤ (vm.ranges right).start := by
      intro left mem right apart
      rwa [end_setEnd_of_ne (layout.wellFormed.ne_of_mem position mem)]
    refine ⟨?_, ⟨?_, ?_⟩, ?_⟩
    · exact ordered.1.imp_of_mem fun leftIn _ apart => kept _ (by simp [leftIn]) _ apart
    · simpa using free
    · exact ordered.2.1.2.imp_of_mem fun leftIn _ apart => kept _ (by simp [leftIn]) _ apart
    · intro left leftIn right rightIn
      exact kept _ (by simp [leftIn]) _ (ordered.2.2 left leftIn right rightIn)
  · intro o linked
    simpa using layout.straight o linked

theorem insert (layout : Layout vm) (position : vm.live = front ++ back)
    (live : vm'.live = front ++ newrange :: back) (ranges : vm'.ranges = vm.ranges)
    (region : vm'.region = vm.region) (valid : (vm.ranges newrange).Valid vm.region)
    (straight : pageSize ∣ (vm.ranges newrange).straightStart)
    (below : ∀ o ∈ front, (vm.ranges o).end_ ≤ (vm.ranges newrange).start)
    (above : ∀ o ∈ back, (vm.ranges newrange).end_ ≤ (vm.ranges o).start) :
    Layout vm' := by
  have ordered := layout.wellFormed.pairwise
  rw [position, pairwise_append] at ordered
  have mem : ∀ o ∈ vm'.live, o = newrange ∨ o ∈ vm.live := by
    intro o linked
    rw [live] at linked
    rw [position]
    simp only [mem_append, mem_cons] at linked ⊢
    tauto
  refine ⟨.of_live ?_ ?_, ?_, region ▸ layout.region⟩
  · intro o linked
    rw [ranges, region]
    rcases mem o linked with rfl | old
    · exact valid
    · exact layout.wellFormed.valid_of_mem old
  · rw [live, ranges, pairwise_append, pairwise_cons]
    refine ⟨ordered.1, ⟨above, ordered.2.1⟩, ?_⟩
    intro left leftIn right rightIn
    rcases mem_cons.mp rightIn with rfl | old
    · exact below left leftIn
    · exact ordered.2.2 left leftIn right old
  · intro o linked
    rw [ranges]
    rcases mem o linked with rfl | old
    · exact straight
    · exact layout.straight o old

theorem erase (layout : Layout vm) (position : vm.live = front ++ r :: back)
    (live : vm'.live = front ++ back) (ranges : vm'.ranges = vm.ranges)
    (region : vm'.region = vm.region) : Layout vm' := by
  have sublist : vm'.live.Sublist vm.live := by
    rw [live, position]
    exact (sublist_cons_self r back).append_left front
  refine ⟨.of_live ?_ ?_, ?_, region ▸ layout.region⟩
  · intro o linked
    rw [ranges, region]
    exact layout.wellFormed.valid_of_mem (sublist.subset linked)
  · rw [ranges]
    exact layout.wellFormed.pairwise.sublist sublist
  · intro o linked
    rw [ranges]
    exact layout.straight o (sublist.subset linked)

end Layout

end McKernel.Vm
