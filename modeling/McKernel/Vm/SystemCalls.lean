import McKernel.Vm.Remove

/-!
# `brk` and `mremap`

Both system calls compute the bounds of a range from their arguments without checking
every sum for overflow, and `mremap` keeps using the range it has looked up after it has
unmapped the target.  The conditions under which they keep the invariant are stated on
the arguments and on the address space before the call.
-/

namespace McKernel.Vm

open ProcessVm Nat

variable {env : Env} {vm vm' : ProcessVm}

theorem Invariant.setRegion (inv : Invariant vm) {region : VmRegions}
    (userStart : region.userStart = vm.region.userStart)
    (userEnd : region.userEnd = vm.region.userEnd) (mapAligned : pageSize ∣ region.mapEnd)
    (brkAligned : pageSize ∣ region.brkEndAllocated) : Invariant { vm with region } := by
  refine ⟨⟨.of_live ?_ inv.wellFormed.pairwise, inv.straight, ?_⟩, inv.cached⟩
  · intro r linked
    obtain ⟨nonempty, lower, upper, startAligned, endAligned⟩ :=
      inv.wellFormed.valid_of_mem linked
    exact ⟨nonempty, userStart ▸ lower, userEnd ▸ upper, startAligned, endAligned⟩
  · exact ⟨userEnd ▸ inv.region.userEnd, mapAligned, brkAligned⟩

/-! ## `brk` -/

/-- A call of `brk` that asks for more heap: neither the requested end nor the heap
extension wraps around, and the heap grows at all. -/
structure BrkFits (vm : ProcessVm) (address : Nat) : Prop where
  requested : address + (2 ^ pageShift - 1) < 2 ^ 64
  extension : vm.region.brkEndAllocated + vm.heapExtension + (2 ^ largePageShift - 1) < 2 ^ 64
  grows : vm.region.brkEndAllocated < address ∨ 0 < vm.heapExtension

instance (vm : ProcessVm) (address : Nat) : Decidable (BrkFits vm address) :=
  decidable_of_iff (address + (2 ^ pageShift - 1) < 2 ^ 64 ∧
      vm.region.brkEndAllocated + vm.heapExtension + (2 ^ largePageShift - 1) < 2 ^ 64 ∧
      (vm.region.brkEndAllocated < address ∨ 0 < vm.heapExtension))
    ⟨fun ⟨a, b, c⟩ => ⟨a, b, c⟩, fun ⟨a, b, c⟩ => ⟨a, b, c⟩⟩

variable {address fuel len pgshift : Nat}

theorem newEndAllocated_spec (fits : BrkFits vm address)
    (reaches : vm.region.brkEndAllocated ≤ address) :
    pageSize ∣ newEndAllocated vm.heapExtension vm.region.brkEndAllocated address ∧
      vm.region.brkEndAllocated <
        newEndAllocated vm.heapExtension vm.region.brkEndAllocated address ∧
      address ≤ newEndAllocated vm.heapExtension vm.region.brkEndAllocated address := by
  obtain ⟨requested, extension, grows⟩ := fits
  have shift : pageShift ≤ heapAlignShift vm.heapExtension ∧
      heapAlignShift vm.heapExtension ≤ largePageShift := by
    unfold heapAlignShift
    split <;> decide
  have power : 2 ^ heapAlignShift vm.heapExtension ≤ 2 ^ largePageShift :=
    Nat.pow_le_pow_right (by decide) shift.2
  have shiftSmall : heapAlignShift vm.heapExtension ≤ 64 := Nat.le_trans shift.2 (by decide)
  have rounded : address ≤ ULong.roundUp pageShift address :=
    (ULong.le_roundUp (by decide) requested).1
  have added : ULong.add vm.region.brkEndAllocated vm.heapExtension =
      vm.region.brkEndAllocated + vm.heapExtension := ULong.add_of_lt (by omega)
  have distance := ULong.sub_of_le (le_trans reaches rounded)
    (ULong.roundUp_lt (show pageShift ≤ 64 by decide))
  simp only [newEndAllocated]
  split
  next small =>
    refine ⟨ULong.dvd_roundUp shiftSmall shift.1, ?_⟩
    have extended := (ULong.le_roundUp shiftSmall
      (show vm.region.brkEndAllocated + vm.heapExtension +
        (2 ^ heapAlignShift vm.heapExtension - 1) < 2 ^ 64 by omega)).1
    rw [added]
    omega
  next large =>
    refine ⟨ULong.dvd_roundUp (by decide) (le_refl _), ?_⟩
    omega

/-- The heap is left as it is, or a new range brings it to the requested end. -/
theorem extendProcessRegion_spec (inv : Invariant vm)
    (fits : BrkFits vm address) (reaches : vm.region.brkEndAllocated ≤ address)
    (called : extendProcessRegion env vm vm.region.brkEndAllocated address flag = (newEnd, vm')) :
    Extends vm vm' ∧ pageSize ∣ newEnd ∧
      (∀ r ∈ vm.live, vm'.ranges r = vm.ranges r) ∧
      (newEnd = vm.region.brkEndAllocated ∨ address ≤ newEnd ∧ ∃ r ∈ vm'.live,
        (vm'.ranges r).start = vm.region.brkEndAllocated ∧ (vm'.ranges r).end_ = newEnd ∧
        (vm'.ranges r).memobj = 0 ∧
        ((vm'.ranges r).flag = flag ∨ (vm'.ranges r).flag = flag ||| VR_DEMAND_PAGING)) := by
  obtain ⟨aligned, grows, enough⟩ := newEndAllocated_spec fits reaches
  have ticked := extends_tick inv
  simp only [extendProcessRegion] at called
  split at called
  next vm₁ added =>
    obtain ⟨rfl, rfl⟩ := Prod.mk.inj called
    have adds := add_spec ticked.invariant grows inv.region.brkAligned aligned added
    exact ⟨ticked.trans adds.toExtends, inv.region.brkAligned, adds.kept, .inl rfl⟩
  next new vm₁ added =>
    obtain ⟨rfl, rfl⟩ := Prod.mk.inj called
    have adds := add_spec ticked.invariant grows inv.region.brkAligned aligned added
    obtain ⟨linked, entry⟩ := adds.added new rfl
    refine ⟨ticked.trans adds.toExtends, aligned, adds.kept, .inr ⟨enough, new, linked, ?_⟩⟩
    rw [entry]
    exact ⟨rfl, rfl, rfl, (ite_eq_or_eq _ _ _).symm⟩

theorem brk_spec (inv : Invariant vm)
    (fits : vm.region.brkStart ≤ address → vm.region.brkEnd ≤ address →
      vm.region.brkEndAllocated ≤ address → BrkFits vm address)
    (called : brk env vm address = (res, vm')) : Invariant vm' := by
  unfold brk at called
  simp only at called
  split at called
  · cases called
    exact inv
  next reaches =>
    split at called
    · cases called
      exact inv.setRegion rfl rfl inv.region.mapAligned inv.region.brkAligned
    next reachesEnd =>
      simp only [not_or, not_lt] at reaches reachesEnd
      have fits := fits reaches.1 reaches.2 reachesEnd
      generalize extended : extendProcessRegion env vm vm.region.brkEndAllocated address brkFlag =
        pair at called
      obtain ⟨newEnd, vm₁⟩ := pair
      obtain ⟨extends_, aligned, -⟩ := extendProcessRegion_spec inv fits reachesEnd extended
      split at called
      · cases called
        exact extends_.invariant
      · cases called
        exact extends_.invariant.setRegion rfl rfl extends_.invariant.region.mapAligned aligned

/-! ## Searching free space -/

/-- A search that succeeds keeps all ranges and returns aligned space inside the user
region. -/
theorem searchLoop_spec
    (inv : Invariant vm) (aligned : pageSize ∣ addr) (lenAligned : pageSize ∣ len)
    (small : len ≤ vm.region.userEnd)
    (called : searchLoop len pgshift fuel addr vm = some (res, vm')) :
    Invariant vm' ∧ (∀ r ∈ vm.live, Retains vm vm' r) ∧
      ∀ found, res = .ok found → pageSize ∣ found ∧ found + len ≤ vm.region.userEnd := by
  induction fuel generalizing addr vm with
  | zero => cases called
  | succ fuel ih =>
    simp only [searchLoop] at called
    have rounded : pageSize ∣ ULong.roundUp pgshift addr :=
      ULong.dvd_roundUp_of_dvd (show pageShift ≤ 64 by decide) aligned
    have userEnd := inv.region.userEnd
    generalize ULong.roundUp pgshift addr = addr at called rounded
    split at called
    · cases called
      exact ⟨inv, fun r linked => (SameLayout.refl _).retains linked, by simp⟩
    next fits =>
      simp only [not_or, not_le, not_lt, userEndMax] at fits userEnd
      rw [ULong.sub_of_le small (by omega)] at fits
      generalize looked : lookupProcessMemoryRange vm addr (ULong.add addr len) = pair at called
      obtain ⟨hit, vm₁⟩ := pair
      obtain ⟨same, invariant₁, linked⟩ := lookup_spec inv looked
      cases hit with
      | none =>
        cases called
        refine ⟨invariant₁.setRegion rfl rfl ?_ invariant₁.region.brkAligned, ?_, ?_⟩
        · exact ULong.dvd_add dvd_pageSize rounded lenAligned
        · intro r rangeLinked
          have kept := same.retains rangeLinked
          exact ⟨kept.linked, kept.start, kept.end_⟩
        · rintro found ⟨⟩
          exact ⟨rounded, by omega⟩
      | some r =>
        have rangeLinked := (linked r rfl).1
        have endAligned := (invariant₁.wellFormed.valid_of_mem
          (show r ∈ vm₁.live from same.live ▸ rangeLinked)).endAligned
        obtain ⟨invariant', retains, found⟩ :=
          ih invariant₁ endAligned (same.region ▸ small) called
        refine ⟨invariant', ?_, same.region ▸ found⟩
        intro o otherLinked
        have kept := same.retains otherLinked
        exact kept.trans (retains o kept.linked)

theorem searchFreeSpace_spec
    (inv : Invariant vm) (lenAligned : pageSize ∣ len) (small : len ≤ vm.region.userEnd)
    (hintFits : hint = 0 ∨ pageSize ∣ hint ∧ hint + len < 2 ^ 64)
    (called : searchFreeSpace fuel vm len pgshift hint = some (res, vm')) :
    Invariant vm' ∧ (∀ r ∈ vm.live, Retains vm vm' r) ∧
      ∀ found, res = .ok found → pageSize ∣ found ∧ found + len < 2 ^ 64 := by
  have userEnd := inv.region.userEnd
  simp only [userEndMax] at userEnd
  unfold searchFreeSpace at called
  split at called
  next given =>
    generalize looked : lookupProcessMemoryRange vm hint (ULong.add hint len) = pair at called
    obtain ⟨hit, vm₁⟩ := pair
    obtain ⟨same, invariant₁, -⟩ := lookup_spec inv looked
    cases hit with
    | none =>
      cases called
      refine ⟨invariant₁, fun r linked => same.retains linked, ?_⟩
      rintro found ⟨⟩
      exact hintFits.resolve_left given
    | some r =>
      obtain ⟨invariant', retains, found⟩ := searchLoop_spec invariant₁
        invariant₁.region.mapAligned lenAligned (same.region ▸ small) called
      refine ⟨invariant', ?_, ?_⟩
      · intro o otherLinked
        have kept := same.retains otherLinked
        exact kept.trans (retains o kept.linked)
      · intro addr success
        obtain ⟨aligned, fits⟩ := found addr success
        rw [same.region] at fits
        exact ⟨aligned, by omega⟩
  · obtain ⟨invariant', retains, found⟩ :=
      searchLoop_spec inv inv.region.mapAligned lenAligned small called
    refine ⟨invariant', retains, ?_⟩
    intro addr success
    obtain ⟨aligned, fits⟩ := found addr success
    exact ⟨aligned, by omega⟩

/-! ## `mremap` -/

namespace MremapCall

theorem dvd_oldsize (call : MremapCall) : pageSize ∣ call.oldsize :=
  ULong.dvd_roundUp (by decide) (le_refl _)

theorem dvd_newsize (call : MremapCall) : pageSize ∣ call.newsize :=
  ULong.dvd_roundUp (by decide) (le_refl _)

theorem of_valid {call : MremapCall} (valid : call.invalid = false) :
    pageSize ∣ call.oldaddr ∧ 0 < call.newsize ∧ (call.fixed → pageSize ∣ call.newaddr) := by
  simp only [invalid, Bool.or_eq_false_iff, bne_eq_false_iff_eq, beq_eq_false_iff_ne] at valid
  obtain ⟨⟨⟨⟨oldAligned, nonempty⟩, -⟩, -⟩, newAligned⟩ := valid
  refine ⟨dvd_of_mod_eq_zero oldAligned, pos_of_ne_zero nonempty, ?_⟩
  intro isFixed
  simp only [isFixed, Bool.true_and, bne_eq_false_iff_eq] at newAligned
  exact dvd_of_mod_eq_zero newAligned

end MremapCall

theorem mremapMove_spec (inv : Invariant vm) (oldAligned : pageSize ∣ call.oldaddr)
    (oldNonempty : 0 < call.oldsize) (newNonempty : 0 < call.newsize)
    (oldEnd : call.oldend = call.oldaddr + call.oldsize) (linked : r ∈ vm.live)
    (lower : (vm.ranges r).start ≤ call.oldaddr) (upper : call.oldend ≤ (vm.ranges r).end_)
    (called : mremapMove env fuel vm call r newstart = some (res, vm')) :
    Invariant vm' := by
  have userEnd := inv.region.userEnd
  have inside := (inv.wellFormed.valid_of_mem linked).upper
  simp only [userEndMax] at userEnd
  have partEnd : ULong.add call.oldaddr (min call.oldsize call.newsize) =
      call.oldaddr + min call.oldsize call.newsize := ULong.add_of_lt (by omega)
  have partAligned : pageSize ∣ call.oldaddr + min call.oldsize call.newsize := by
    refine dvd_add oldAligned ?_
    rcases le_total call.oldsize call.newsize with le | le
    · rw [min_eq_left le]
      exact call.dvd_oldsize
    · rw [min_eq_right le]
      exact call.dvd_newsize
  have lowerCut : (if (vm.ranges r).start ≠ call.oldaddr then
      splitProcessMemoryRange env vm r call.oldaddr else (.ok r, vm)) =
      splitBelow env vm r call.oldaddr := by
    congr 1
    apply propext
    omega
  unfold mremapMove at called
  simp only [partEnd, lowerCut] at called
  generalize cutBelow : splitBelow env vm r call.oldaddr = pair at called
  obtain ⟨lowerResult, vm₁⟩ := pair
  rcases splitBelow_spec inv linked (by omega) oldAligned cutBelow with
    ⟨error, rfl, failed⟩ | ⟨part, rfl, cut⟩
  · cases called
    exact failed.invariant
  have partStart : (vm₁.ranges part).start = call.oldaddr := by
    rw [cut.start]
    omega
  have upperCut : (if (vm₁.ranges part).end_ ≠ call.oldaddr + min call.oldsize call.newsize then
      splitProcessMemoryRange env vm₁ part (call.oldaddr + min call.oldsize call.newsize)
      else (.ok part, vm₁)) =
      splitAbove env vm₁ part (call.oldaddr + min call.oldsize call.newsize) := by
    have := cut.end_
    congr 1
    apply propext
    omega
  simp only [upperCut] at called
  generalize cutAbove : splitAbove env vm₁ part (call.oldaddr + min call.oldsize call.newsize) =
    pair at called
  obtain ⟨upperResult, vm₂⟩ := pair
  rcases splitAbove_spec cut.invariant cut.linked (by omega) partAligned cutAbove with
    ⟨error, rfl, failed⟩ | ⟨⟨rest, rfl⟩, invariant₂, -⟩
  · cases called
    exact failed.invariant
  simp only at called
  split at called
  next error vm₃ mapped =>
    cases called
    cases pageTable_eq mapped
    exact (extends_tick invariant₂).invariant
  next vm₃ mapped =>
    cases pageTable_eq mapped
    obtain ⟨⟨removed, vm₄⟩, removal, same⟩ := Option.map_eq_some_iff.mp called
    cases same
    refine (remove_spec (extends_tick invariant₂).invariant oldAligned ?_ removal).1
    rw [oldEnd]
    exact dvd_add oldAligned call.dvd_oldsize

/-- The last part of `mremap` keeps the invariant when the new interval does not wrap
around and the old range still holds the old interval. -/
theorem mremapRelocate_spec (inv : Invariant vm) (oldAligned : pageSize ∣ call.oldaddr)
    (newAligned : pageSize ∣ newstart) (newFits : newstart + call.newsize < 2 ^ 64)
    (newNonempty : 0 < call.newsize) (oldEnd : call.oldend = call.oldaddr + call.oldsize)
    (holds : 0 < call.oldsize → r ∈ vm.live ∧ (vm.ranges r).start ≤ call.oldaddr ∧
      call.oldend ≤ (vm.ranges r).end_)
    (called : mremapRelocate env fuel vm call r newstart = some (res, vm')) :
    Invariant vm' := by
  unfold mremapRelocate at called
  simp only [ULong.add_of_lt newFits] at called
  split at called
  next error vm₁ added =>
    cases called
    exact (add_spec inv (by omega) newAligned
      (dvd_add newAligned call.dvd_newsize) added).invariant
  next newrange vm₁ added =>
    have extends_ := add_spec inv (by omega) newAligned
      (dvd_add newAligned call.dvd_newsize) added
    split at called
    · cases called
      exact extends_.invariant
    next moved =>
      obtain ⟨linked, lower, upper⟩ := holds (by omega)
      have kept := extends_.retains r linked
      exact mremapMove_spec extends_.invariant oldAligned (by omega) newNonempty oldEnd kept.linked
        (kept.start ▸ lower) (kept.end_ ▸ upper) called

/-- The calls of `mremap` that are safe: a fixed target does not wrap around, and
unmapping it leaves the part of the old range up to the end of the old interval alone; a
search starts from an aligned hint that does not wrap around. -/
structure MremapFits (vm : ProcessVm) (call : MremapCall) (range : Nat) : Prop where
  target : call.fixed → call.newaddr + call.newsize < 2 ^ 64
  source : call.fixed → 0 < call.oldsize →
    ∀ target ∈ (removeTarget vm call.newaddr (ULong.add call.newaddr call.newsize)).1,
      target.2 ≤ (vm.ranges range).start ∨ call.oldend ≤ target.1
  hint : ¬ call.fixed → call.oldsize < call.newsize → call.oldend ≠ (vm.ranges range).end_ →
    call.stack = 0 ∨ pageSize ∣ call.stack ∧ call.stack + call.newsize < 2 ^ 64

instance (vm : ProcessVm) (call : MremapCall) (range : Nat) :
    Decidable (MremapFits vm call range) :=
  decidable_of_iff ((call.fixed → call.newaddr + call.newsize < 2 ^ 64) ∧
      (call.fixed → 0 < call.oldsize →
        ∀ target ∈ (removeTarget vm call.newaddr (ULong.add call.newaddr call.newsize)).1,
          target.2 ≤ (vm.ranges range).start ∨ call.oldend ≤ target.1) ∧
      (¬ call.fixed → call.oldsize < call.newsize → call.oldend ≠ (vm.ranges range).end_ →
        call.stack = 0 ∨ pageSize ∣ call.stack ∧ call.stack + call.newsize < 2 ^ 64))
    ⟨fun ⟨a, b, c⟩ => ⟨a, b, c⟩, fun ⟨a, b, c⟩ => ⟨a, b, c⟩⟩

section MremapRange

variable {call : MremapCall} {r fuel : Nat} {res : Except Errno Nat}

theorem mremapSearch_spec (inv : Invariant vm) (valid : call.invalid = false)
    (newSmall : call.newsize ≤ vm.region.userEnd) (linked : r ∈ vm.live)
    (lower : (vm.ranges r).start ≤ call.oldaddr) (upper : call.oldend ≤ (vm.ranges r).end_)
    (oldEnd : call.oldend = call.oldaddr + call.oldsize)
    (hintFits : hint = 0 ∨ pageSize ∣ hint ∧ hint + call.newsize < 2 ^ 64)
    (called : (match searchFreeSpace fuel vm call.newsize (vm.ranges r).pgshift hint with
      | none => none
      | some (.error error, vm) => some (.error error, vm)
      | some (.ok newstart, vm) => mremapRelocate env fuel vm call r newstart) =
        some (res, vm')) : Invariant vm' := by
  obtain ⟨oldAligned, newNonempty, -⟩ := MremapCall.of_valid valid
  split at called
  · cases called
  next error vm₁ searched =>
    cases called
    exact (searchFreeSpace_spec inv call.dvd_newsize newSmall hintFits searched).1
  next newstart vm₁ searched =>
    obtain ⟨invariant₁, retains, placed⟩ :=
      searchFreeSpace_spec inv call.dvd_newsize newSmall hintFits searched
    obtain ⟨newAligned, newFits⟩ := placed newstart rfl
    have kept := retains r linked
    refine mremapRelocate_spec invariant₁ oldAligned newAligned newFits newNonempty oldEnd ?_ called
    exact fun _ => ⟨kept.linked, kept.start ▸ lower, kept.end_ ▸ upper⟩

theorem mremapRange_spec (inv : Invariant vm) (valid : call.invalid = false)
    (newSmall : call.newsize ≤ vm.region.userEnd) (linked : r ∈ vm.live)
    (lower : (vm.ranges r).start ≤ call.oldaddr)
    (upper : call.oldend ≤ (vm.ranges r).end_)
    (oldEnd : call.oldend = call.oldaddr + call.oldsize) (fits : MremapFits vm call r)
    (called : mremapRange env fuel vm call r = some (res, vm')) : Invariant vm' := by
  obtain ⟨oldAligned, newNonempty, fixedAligned⟩ := MremapCall.of_valid valid
  have userEnd := inv.region.userEnd
  have inside := (inv.wellFormed.valid_of_mem linked).upper
  simp only [userEndMax] at userEnd
  have oldEndAligned : pageSize ∣ call.oldend :=
    oldEnd ▸ dvd_add oldAligned call.dvd_oldsize
  have newEndAligned : pageSize ∣ ULong.add call.oldaddr call.newsize :=
    ULong.dvd_add dvd_pageSize oldAligned call.dvd_newsize
  unfold mremapRange at called
  split at called
  next isFixed =>
    have newAligned := fixedAligned isFixed
    simp only at called
    split_ifs at called with below overlap
    · cases called
      exact inv
    · cases called
      exact inv
    · split at called
      · cases called
      next error vm₁ removed =>
        cases called
        exact (remove_spec inv newAligned
          (ULong.dvd_add dvd_pageSize newAligned call.dvd_newsize) removed).1
      next freed vm₁ removed =>
        obtain ⟨invariant₁, keeps, -⟩ := remove_spec inv newAligned
          (ULong.dvd_add dvd_pageSize newAligned call.dvd_newsize) removed
        refine mremapRelocate_spec invariant₁ oldAligned newAligned (fits.target isFixed)
          newNonempty oldEnd ?_ called
        intro oldNonempty
        obtain ⟨linked₁, start₁, end₁⟩ := keeps r linked call.oldend (by omega) upper
          (fits.source isFixed oldNonempty)
        exact ⟨linked₁, start₁ ▸ lower, end₁⟩
  next notFixed =>
    split at called
    next grows =>
      by_cases atEnd : call.oldend = (vm.ranges r).end_
      · simp only [if_pos atEnd] at called
        generalize extended : extendUpProcessMemoryRange vm r
          (ULong.add call.oldaddr call.newsize) = pair at called
        obtain ⟨invariant₁, unchanged⟩ := extendUp_spec inv linked newEndAligned extended
        split_ifs at called with succeeded stays
        · cases called
          exact invariant₁
        · cases called
          exact invariant₁
        · cases unchanged succeeded
          exact mremapSearch_spec inv valid newSmall linked lower upper oldEnd
            (.inr ⟨oldAligned, by omega⟩) called
      · simp only [if_neg atEnd, reduceCtorEq, if_false] at called
        split at called
        · cases called
          exact inv
        · exact mremapSearch_spec inv valid newSmall linked lower upper oldEnd
            (fits.hint notFixed grows atEnd) called
    · split at called
      · obtain ⟨⟨removed, vm₁⟩, removal, same⟩ := Option.map_eq_some_iff.mp called
        cases same
        exact (remove_spec inv newEndAligned oldEndAligned removal).1
      · cases called
        exact inv

theorem mremap_spec (inv : Invariant vm)
    (fits : ∀ r ∈ vm.live, (vm.ranges r).start ≤ call.oldaddr →
      call.oldaddr < (vm.ranges r).end_ → MremapFits vm call r)
    (called : mremap env fuel vm call = some (res, vm')) : Invariant vm' := by
  unfold mremap at called
  split_ifs at called with straight invalid nothing overflow large
  · cases called
    exact inv
  · cases called
    exact inv
  · cases called
    exact inv
  · cases called
    exact inv
  · cases called
    exact inv
  · generalize looked : lookupProcessMemoryRange vm call.oldaddr
      (ULong.add call.oldaddr pageSize) = pair at called
    obtain ⟨found, vm₁⟩ := pair
    obtain ⟨same, invariant₁, linked⟩ := lookup_spec inv looked
    cases found with
    | none =>
      cases called
      exact invariant₁
    | some r =>
      obtain ⟨ranges, -, -, -⟩ := lookup_fields looked
      obtain ⟨rangeLinked, -, meets⟩ := linked r rfl
      have bounds := inv.wellFormed.valid_of_mem rangeLinked
      have userEnd := inv.region.userEnd
      have userLower := bounds.lower
      have userUpper := bounds.upper
      simp only [userEndMax] at userEnd
      simp only [ranges] at called
      split at called
      · cases called
        exact invariant₁
      next accepted =>
        simp only [not_or, not_lt] at accepted overflow large
        rw [ULong.sub_of_le (by omega) (by omega)] at large
        have fits := fits r rangeLinked accepted.1 meets.2
        refine mremapRange_spec invariant₁ (by simpa using invalid) ?_ (same.live ▸ rangeLinked)
          (ranges ▸ accepted.1) (ranges ▸ accepted.2.1) ?_ ?_ called
        · rw [same.region]
          omega
        · exact ULong.add_of_le (by omega) (ULong.roundUp_lt (by decide)) overflow
        · refine ⟨fits.target, ?_, ?_⟩
          · rw [removeTarget_of_lookup inv looked, ranges]
            exact fits.source
          · rw [ranges]
            exact fits.hint

end MremapRange

end McKernel.Vm
