import McKernel.Vm.AddressSpace
import McKernel.Vm.RemoveView

/-!
# Searching free space

`search_free_space` takes the hint it is given if no range is there, and otherwise the first
aligned space from `map_end` on.  It compares its own candidates with the end of the user
region, but not the hint: `mmap` has checked where the hint begins, not where it ends.
-/

namespace McKernel.Vm

open ProcessVm List

variable {vm : ProcessVm} {len pgshift hint addr o fuel : Nat}

/-- No range meets the space. -/
def Free (vm : ProcessVm) (len addr : Nat) : Prop :=
  ∀ range ∈ vm.live, ¬ Meets (vm.ranges range) addr (addr + len)

/-- What `mmap` lets through: the page sizes are those of the tables. -/
structure Accepted (vm : ProcessVm) (len pgshift hint : Nat) : Prop where
  positive : 0 < len
  len : len ≤ vm.region.userEnd - vm.region.userStart
  hint : hint = 0 ∨ vm.region.userStart ≤ hint ∧ hint < vm.region.userEnd
  pgshift : pgshift = 12 ∨ pgshift = 21 ∨ pgshift = 30

/-- Space that has been found for a search that began at `from_`. -/
structure FoundSpace (vm : ProcessVm) (len from_ found : Nat) : Prop where
  lower : from_ ≤ found
  upper : found + len ≤ vm.region.userEnd
  free : Free vm len found

/-- How the loop ends that begins at `from_`. -/
structure Searched (vm : ProcessVm) (len pgshift from_ : Nat) (result : Except Errno Nat)
    (vm' : ProcessVm) : Prop where
  ranges : vm'.ranges = vm.ranges
  tree : vm'.vmRangeTree = vm.vmRangeTree
  found : ∀ found, result = .ok found → FoundSpace vm len from_ found ∧ 2 ^ pgshift ∣ found ∧
    vm'.region = { vm.region with mapEnd := found + len }
  full : ∀ error, result = .error error → error = .ENOMEM ∧ vm'.region = vm.region ∧
    ∀ addr, from_ ≤ addr → 2 ^ pgshift ∣ addr → addr + len ≤ vm.region.userEnd → ¬ Free vm len addr

/-- A multiple that is not below a value is not below what the value is rounded up to. -/
theorem roundUp_le_of_dvd (small : pgshift ≤ 64) (fits : addr + (2 ^ pgshift - 1) < 2 ^ 64)
    (lower : addr ≤ o) (aligned : 2 ^ pgshift ∣ o) :
    ULong.roundUp pgshift addr ≤ o := by
  have bounds := ULong.le_roundUp small fits
  by_contra above
  have multiple : 2 ^ pgshift ∣ ULong.roundUp pgshift addr := ULong.dvd_roundUp small le_rfl
  have apart := Nat.le_of_dvd (by omega) (Nat.dvd_sub multiple aligned)
  omega

theorem searchLoop_searched (inv : Invariant vm) (shift : pgshift ≤ 30) (pos : 0 < len)
    (small : len ≤ vm.region.userEnd) (upper : addr ≤ vm.region.userEnd)
    (enough : vm.region.userEnd - addr < fuel) :
    ∃ res vm', searchLoop len pgshift fuel addr vm = some (res, vm') ∧
      Searched vm len pgshift addr res vm' := by
  induction fuel generalizing addr vm with
  | zero => omega
  | succ fuel ih =>
    have userEnd := inv.region.userEnd
    have power : 2 ^ pgshift ≤ 2 ^ 30 := Nat.pow_le_pow_right (by decide) shift
    simp only [userEndMax] at userEnd
    have fits : addr + (2 ^ pgshift - 1) < 2 ^ 64 := by omega
    have rounded := ULong.le_roundUp (by omega) fits
    have aligned : 2 ^ pgshift ∣ ULong.roundUp pgshift addr := ULong.dvd_roundUp (by omega) le_rfl
    have least (o : Nat) (lower : addr ≤ o) (multiple : 2 ^ pgshift ∣ o) :
        ULong.roundUp pgshift addr ≤ o := roundUp_le_of_dvd (by omega) fits lower multiple
    simp only [searchLoop]
    rw [ULong.sub_of_le small (by omega)]
    generalize ULong.roundUp pgshift addr = first at rounded aligned least
    split
    next outside =>
      refine ⟨_, _, rfl, rfl, rfl, by simp, ?_⟩
      rintro _ ⟨⟩
      refine ⟨rfl, rfl, fun o lower multiple inside => ?_⟩
      have := least o lower multiple
      omega
    next inside =>
      rw [ULong.add_of_lt (by omega)]
      have search := lookup_first inv (show first < first + len by omega)
      cases looked : lookupProcessMemoryRange vm first (first + len) with
      | mk hit vm₁ =>
      obtain ⟨same, invariant₁, -⟩ := lookup_spec inv looked
      obtain ⟨ranges, tree, -, -⟩ := lookup_fields looked
      have live : vm₁.live = vm.live := congrArg RbTree.ColorTree.toList tree
      rw [looked] at search
      cases hit with
      | none =>
        refine ⟨_, _, rfl, ranges, tree, ?_, by simp⟩
        rintro _ ⟨⟩
        refine ⟨⟨rounded.1, by omega, fun r linked => ?_⟩, aligned, by rw [same.region]⟩
        simpa using find?_eq_none.mp search.symm r linked
      | some r =>
        obtain ⟨meets, linked⟩ := And.intro (find?_some search.symm)
          (mem_of_find?_eq_some search.symm)
        obtain ⟨below, above⟩ : Meets (vm.ranges r) first (first + len) := by simpa using meets
        have bound := (inv.wellFormed.valid_of_mem linked).upper
        obtain ⟨res, vm', returned, searched⟩ := ih invariant₁ (same.region ▸ small)
          (show (vm.ranges r).end_ ≤ _ from same.region ▸ bound) (by rw [same.region]; omega)
        refine ⟨res, vm', by simpa only [ranges] using returned, searched.ranges.trans ranges,
          searched.tree.trans tree, fun found isFound => ?_, fun error isError => ?_⟩
        · obtain ⟨⟨lower, upper, free⟩, multiple, region⟩ := searched.found found isFound
          simp only [Free, ranges, live, same.region] at upper free region
          exact ⟨⟨by omega, upper, free⟩, multiple, region⟩
        · obtain ⟨isMem, region, full⟩ := searched.full error isError
          simp only [Free, ranges, live, same.region] at region full
          refine ⟨isMem, region, fun o lower multiple inside free => ?_⟩
          -- Below the end of the range every candidate meets the range.
          by_cases behind : (vm.ranges r).end_ ≤ o
          · exact full o behind multiple inside free
          · have := least o lower multiple
            exact free r linked ⟨by omega, by omega⟩

/-- What a search may do: it finds free space in the user region, the hint or aligned, moves
`map_end` only upwards, and fails only when there is no aligned space from `map_end` on. -/
structure SearchOk (vm : ProcessVm) (len pgshift hint : Nat) (result : Except Errno Nat)
    (vm' : ProcessVm) : Prop where
  mapEnd : vm.region.mapEnd ≤ vm'.region.mapEnd ∧ vm'.region.mapEnd ≤ vm.region.userEnd
  found : ∀ found, result = .ok found → FoundSpace vm len vm.region.userStart found ∧
    (found = hint ∧ hint ≠ 0 ∨ 2 ^ pgshift ∣ found)
  full : ∀ error, result = .error error → error = .ENOMEM ∧ ∀ addr, vm.region.mapEnd ≤ addr →
    2 ^ pgshift ∣ addr → addr + len ≤ vm.region.userEnd → ¬ Free vm len addr

theorem Searched.ok
    (lower : vm.region.userStart ≤ vm.region.mapEnd) (upper : vm.region.mapEnd ≤ vm.region.userEnd)
    (ranges : vm₁.ranges = vm.ranges) (live : vm₁.live = vm.live) (region : vm₁.region = vm.region)
    (searched : Searched vm₁ len pgshift vm₁.region.mapEnd res vm') :
    SearchOk vm len pgshift hint res vm' := by
  obtain ⟨-, -, isFound, isFull⟩ := searched
  simp only [Free, ranges, live, region] at isFull
  refine ⟨?_, fun found succeeded => ?_, fun error failed => ?_⟩
  · cases res with
    | error error => simpa [(isFull error rfl).2.1] using upper
    | ok found =>
      obtain ⟨⟨above, inside, -⟩, -, moved⟩ := isFound found rfl
      rw [region] at above inside
      rw [moved]
      exact ⟨by simp only; omega, inside⟩
  · obtain ⟨⟨above, inside, free⟩, aligned, -⟩ := isFound found succeeded
    simp only [Free, ranges, live, region] at above inside free
    exact ⟨⟨by omega, inside, free⟩, .inr aligned⟩
  · obtain ⟨isMem, -, none⟩ := isFull error failed
    exact ⟨isMem, none⟩

/-- The search ends, and does what it may exactly if the space at the hint ends in the user
region or is not free. -/
theorem search_free_space_ok (invariant : Invariant vm)
    (lower : vm.region.userStart ≤ vm.region.mapEnd) (upper : vm.region.mapEnd ≤ vm.region.userEnd)
    (accepted : Accepted vm len pgshift hint) (enough : vm.region.userEnd < fuel) :
    ∃ result vm', searchFreeSpace fuel vm len pgshift hint = some (result, vm') ∧
      (SearchOk vm len pgshift hint result vm' ↔
        hint + len ≤ vm.region.userEnd ∨ ¬ Free vm len hint) := by
  obtain ⟨positive, small, isHint, shift⟩ := accepted
  have userEnd := invariant.region.userEnd
  simp only [userEndMax] at userEnd
  have loop {vm₁ : ProcessVm} (invariant₁ : Invariant vm₁) (ranges : vm₁.ranges = vm.ranges)
      (live : vm₁.live = vm.live) (region : vm₁.region = vm.region) :
      ∃ result vm', searchLoop len pgshift fuel vm₁.region.mapEnd vm₁ = some (result, vm') ∧
        SearchOk vm len pgshift hint result vm' := by
    obtain ⟨result, vm', returned, searched⟩ := searchLoop_searched invariant₁
      (show pgshift ≤ 30 by omega) positive (by rw [region]; omega)
      (show vm₁.region.mapEnd ≤ vm₁.region.userEnd by rw [region]; exact upper)
      (show vm₁.region.userEnd - vm₁.region.mapEnd < fuel by rw [region]; omega)
    exact ⟨result, vm', returned, searched.ok lower upper ranges live region⟩
  unfold searchFreeSpace
  split
  next given =>
    obtain ⟨hintLower, hintUpper⟩ := isHint.resolve_left given
    rw [ULong.add_of_lt (by omega)]
    have search := lookup_first invariant (show hint < hint + len by omega)
    cases looked : lookupProcessMemoryRange vm hint (hint + len) with
    | mk hit vm₁ =>
    obtain ⟨same, invariant₁, -⟩ := lookup_spec invariant looked
    obtain ⟨ranges, tree, -, -⟩ := lookup_fields looked
    have live : vm₁.live = vm.live := congrArg RbTree.ColorTree.toList tree
    rw [looked] at search
    cases hit with
    | some range =>
      obtain ⟨result, vm', returned, ok⟩ := loop invariant₁ ranges live same.region
      refine ⟨result, vm', returned, iff_of_true ok (.inr fun free => ?_)⟩
      have linked := mem_of_find?_eq_some search.symm
      exact free range linked (by simpa using find?_some search.symm)
    | none =>
      have free : Free vm len hint := fun range linked => by
        simpa using find?_eq_none.mp search.symm range linked
      refine ⟨_, _, rfl, fun ok => .inl (ok.found hint rfl).1.upper, fun fits => ?_⟩
      have ends := fits.resolve_right (not_not_intro free)
      refine ⟨by rw [same.region]; exact ⟨le_rfl, upper⟩, ?_, by simp⟩
      rintro _ ⟨⟩
      exact ⟨⟨hintLower, ends, free⟩, .inl ⟨rfl, given⟩⟩
  next missing =>
    obtain ⟨result, vm', returned, ok⟩ := loop invariant rfl rfl rfl
    exact ⟨result, vm', returned, iff_of_true ok (.inl (by omega))⟩

def oneRange (start end_ : Nat) : ProcessVm :=
  { newVm with
    ranges := fun _ => ⟨start, end_, 0x30000, 0, 0, 0, 0, 0⟩
    vmRangeTree := .node .black .nil 0x100 .nil }

/-- A hint for two pages meets the range on the last page of the user region. -/
theorem search_free_space_ok_hint :
    ∃ result vm', searchFreeSpace (userEndMax + 1) (oneRange (userEndMax - 0x1000) userEndMax)
        0x2000 12 (userEndMax - 0x1000) = some (result, vm') ∧
      SearchOk (oneRange (userEndMax - 0x1000) userEndMax) 0x2000 12 (userEndMax - 0x1000)
        result vm' := by
  have invariant : Invariant (oneRange (userEndMax - 0x1000) userEndMax) :=
    invariant_of_newVm rfl rfl (by decide +kernel) (by decide)
  obtain ⟨result, vm', returned, ok⟩ := search_free_space_ok invariant (by decide) (by decide)
    (show Accepted _ 0x2000 12 (userEndMax - 0x1000) from
      ⟨by decide, by decide, by decide, by decide⟩) (Nat.lt_succ_self userEndMax)
  refine ⟨result, vm', returned, ok.mpr (.inr fun free => ?_)⟩
  exact free 0x100 (by decide) (by decide +kernel)

/-- A hint on the last page of the user region is taken for two pages. -/
theorem search_leaves_region :
    Accepted newVm 0x2000 12 (userEndMax - 0x1000) ∧
      (searchFreeSpace 1 newVm 0x2000 12 (userEndMax - 0x1000)).map Prod.fst =
        some (.ok (userEndMax - 0x1000)) ∧
      newVm.region.userEnd < userEndMax - 0x1000 + 0x2000 :=
  ⟨⟨by decide, by decide, by decide, by decide⟩, rfl, by decide⟩

end McKernel.Vm
