import McKernel.Vm.Mutators

/-!
# Removing an interval

`remove_process_memory_range` cuts the ranges at both ends of the interval and frees
every range in between.  A range that begins outside the interval survives, at most with
its end cut back to the start of the interval.
-/

namespace McKernel.Vm

open ProcessVm

variable {start end_ upper fuel : Nat}

/-- The range is still there, at most cut short. -/
structure Survives (vm vm' : ProcessVm) (cut range : Nat) : Prop where
  linked : range ∈ vm'.live
  start : (vm'.ranges range).start = (vm.ranges range).start
  end_ : (vm'.ranges range).end_ = (vm.ranges range).end_ ∨
    (vm.ranges range).start < cut ∧ cut < (vm.ranges range).end_ ∧ (vm'.ranges range).end_ = cut

variable {env : Env} {vm vm' vm'' : ProcessVm} {r cut : Nat}

theorem Retains.survives (retains : Retains vm vm' r) : Survives vm vm' cut r :=
  ⟨retains.linked, retains.start, .inl retains.end_⟩

theorem Survives.trans (first : Survives vm vm' cut r) (second : Survives vm' vm'' cut r) :
    Survives vm vm'' cut r := by
  obtain ⟨-, firstStart, firstEnd⟩ := first
  obtain ⟨linked, secondStart, secondEnd⟩ := second
  refine ⟨linked, secondStart.trans firstStart, ?_⟩
  omega

/-- The outcome of cutting off the part of a range below `addr`. -/
structure CutBelow (vm vm' : ProcessVm) (range upper addr : Nat) : Prop where
  invariant : Invariant vm'
  region : vm'.region = vm.region
  linked : upper ∈ vm'.live
  start : (vm'.ranges upper).start = max addr (vm.ranges range).start
  end_ : (vm'.ranges upper).end_ = (vm.ranges range).end_
  same : ∀ other ∈ vm.live, other = upper → other = range ∧ addr ≤ (vm.ranges range).start
  survives : ∀ other ∈ vm.live, other ≠ upper → Survives vm vm' addr other

variable {addr : Nat} {first : Option Nat}

theorem splitBelow_spec (inv : Invariant vm)
    (linked : r ∈ vm.live) (inside : addr < (vm.ranges r).end_)
    (aligned : pageSize ∣ addr) (called : splitBelow env vm r addr = (res, vm')) :
    (∃ error, res = .error error ∧ Extends vm vm') ∨
      ∃ upper, res = .ok upper ∧ CutBelow vm vm' r upper addr := by
  unfold splitBelow at called
  split at called
  next below =>
    rcases split_spec inv linked below inside aligned called with
      ⟨error, failed, kept, -⟩ | ⟨newrange, rfl, splits⟩
    · exact .inl ⟨error, failed, kept⟩
    · have notNew : ∀ o ∈ vm.live, o ≠ newrange := by
        rintro o otherLinked rfl
        exact splits.fresh otherLinked
      obtain ⟨front, back, -, live⟩ := splits.live
      refine .inr ⟨newrange, rfl, splits.invariant, splits.region, by simp [live], ?_,
        splits.upperEnd, ?_, ?_⟩
      · rw [splits.upperStart]
        omega
      · intro o otherLinked same
        exact absurd same (notNew o otherLinked)
      · intro o otherLinked _
        by_cases same : o = r
        · subst same
          exact ⟨by simp [live], splits.lowerStart, .inr ⟨below, inside, splits.lowerEnd⟩⟩
        · exact (splits.retains o otherLinked same).survives
  next above =>
    obtain ⟨rfl, rfl⟩ := Prod.mk.inj called
    refine .inr ⟨r, rfl, inv, rfl, linked, by omega, rfl, ?_, ?_⟩
    · intro o _ same
      exact ⟨same, by omega⟩
    · intro o otherLinked _
      exact ⟨otherLinked, rfl, .inl rfl⟩

theorem splitAbove_spec (inv : Invariant vm)
    (linked : r ∈ vm.live) (inside : (vm.ranges r).start < addr)
    (aligned : pageSize ∣ addr) (called : splitAbove env vm r addr = (res, vm')) :
    (∃ error, res = .error error ∧ Extends vm vm') ∨
      (∃ upper, res = .ok upper) ∧ Invariant vm' ∧ vm'.region = vm.region ∧
        r ∈ vm'.live ∧ ∀ o ∈ vm.live, o ≠ r → Retains vm vm' o := by
  unfold splitAbove at called
  split at called
  next above =>
    rcases split_spec inv linked inside above aligned called with
      ⟨error, failed, kept, -⟩ | ⟨newrange, rfl, splits⟩
    · exact .inl ⟨error, failed, kept⟩
    · obtain ⟨front, back, -, live⟩ := splits.live
      exact .inr ⟨⟨newrange, rfl⟩, splits.invariant, splits.region, by simp [live], splits.retains⟩
  · obtain ⟨rfl, rfl⟩ := Prod.mk.inj called
    exact .inr ⟨⟨r, rfl⟩, inv, rfl, linked, fun o otherLinked _ =>
      ⟨otherLinked, rfl, rfl⟩⟩

/-- The outcome of removing an interval. -/
structure Removes (vm vm' : ProcessVm) (start end_ : Nat) : Prop where
  invariant : Invariant vm'
  region : vm'.region = vm.region
  survives : ∀ range ∈ vm.live,
    ¬ (start ≤ (vm.ranges range).start ∧ (vm.ranges range).start < end_) →
      Survives vm vm' start range

theorem Extends.removes (extends_ : Extends vm vm') :
    Removes vm vm' start end_ :=
  ⟨extends_.invariant, extends_.region, fun r linked _ => (extends_.retains r linked).survives⟩

theorem Removes.refl (inv : Invariant vm) : Removes vm vm start end_ :=
  (Extends.of_sameLayout inv (.refl vm) rfl).removes

theorem Removes.trans (first : Removes vm vm' start end_) (second : Removes vm' vm'' start end_) :
    Removes vm vm'' start end_ where
  invariant := second.invariant
  region := second.region.trans first.region
  survives r linked outside := by
    have here := first.survives r linked outside
    exact here.trans (second.survives r here.linked (by rwa [here.start]))

theorem next_spec (inv : Invariant vm) (linked : r ∈ vm.live)
    (found : nextProcessMemoryRange vm r = some next) :
    next ∈ vm.live ∧ (vm.ranges r).end_ ≤ (vm.ranges next).start := by
  obtain ⟨front, back, position⟩ := List.append_of_mem linked
  rw [nextProcessMemoryRange_eq inv.wellFormed.nodup position] at found
  have mem := List.mem_of_head? found
  exact ⟨by simp [position, mem],
    (inv.wellFormed.around position).2 next mem⟩

theorem CutBelow.removes (cut : CutBelow vm vm' r upper start)
    (begins : (vm.ranges r).start < end_) (inv : Invariant vm'')
    (region : vm''.region = vm.region)
    (survives : ∀ o ∈ vm.live, o ≠ upper → Survives vm vm'' start o) :
    Removes vm vm'' start end_ := by
  refine ⟨inv, region, ?_⟩
  intro o otherLinked outside
  refine survives o otherLinked ?_
  intro same
  obtain ⟨rfl, above⟩ := cut.same o otherLinked same
  exact outside ⟨above, begins⟩

theorem removeRound_spec (cut : CutBelow vm vm' r upper start) (inv : Invariant vm'')
    (region : vm''.region = vm'.region) (linked : upper ∈ vm''.live)
    (retains : ∀ o ∈ vm'.live, o ≠ upper → Retains vm' vm'' o) :
    Invariant (freeProcessMemoryRange vm'' upper) ∧
      (freeProcessMemoryRange vm'' upper).region = vm.region ∧
      ∀ o ∈ vm.live, o ≠ upper →
        Survives vm (freeProcessMemoryRange vm'' upper) start o := by
  obtain ⟨freed, freedRegion, kept⟩ := free_spec inv linked
  refine ⟨freed, freedRegion.trans (region.trans cut.region), ?_⟩
  intro o otherLinked ne
  have first := cut.survives o otherLinked ne
  have second := retains o first.linked ne
  exact first.trans (second.trans (kept o second.linked ne)).survives

theorem removeLoop_spec
    (interval : start < end_) (startAligned : pageSize ∣ start) (endAligned : pageSize ∣ end_)
    (inv : Invariant vm)
    (pending : ∀ r ∈ next, r ∈ vm.live ∧ start < (vm.ranges r).end_)
    (called : removeLoop env start end_ fuel next roFreed vm = some (res, vm')) :
    Removes vm vm' start end_ := by
  induction fuel generalizing next roFreed vm with
  | zero => cases called
  | succ fuel ih =>
    cases next with
    | none =>
      cases called
      exact .refl inv
    | some r =>
      obtain ⟨linked, inside⟩ := pending r rfl
      simp only [removeLoop] at called
      split at called
      next begins =>
        split at called
        next error vm₁ lower =>
          cases called
          rcases splitBelow_spec inv linked inside startAligned lower with
            ⟨-, -, extends_⟩ | ⟨upper, impossible, -⟩
          · exact extends_.removes
          · cases impossible
        next upper vm₁ lower =>
          rcases splitBelow_spec inv linked inside startAligned lower with
            ⟨_, impossible, -⟩ | ⟨_, ⟨⟩, cut⟩
          · cases impossible
          have upperBegins : (vm₁.ranges upper).start < end_ := by
            rw [cut.start]
            omega
          split at called
          next error vm₂ above =>
            cases called
            rcases splitAbove_spec cut.invariant cut.linked upperBegins endAligned above with
              ⟨-, -, extends_⟩ | ⟨⟨_, impossible⟩, -⟩
            · refine Removes.trans ?_ extends_.removes
              exact cut.removes begins cut.invariant cut.region cut.survives
            · cases impossible
          next vm₂ above =>
            split at called
            · cases called
            rcases splitAbove_spec cut.invariant cut.linked upperBegins endAligned above with
              ⟨_, impossible, -⟩ | ⟨-, invariant₂, region₂, linked₂, retains₂⟩
            · cases impossible
            obtain ⟨invariant₃, region₃, survives₃⟩ :=
              removeRound_spec cut invariant₂ region₂ linked₂ retains₂
            have round := cut.removes begins invariant₃ region₃ survives₃
            refine round.trans (ih invariant₃ ?_ called)
            intro next found
            obtain ⟨nextLinked, behind⟩ := next_spec inv linked found
            have nextNonempty := (inv.wellFormed.valid_of_mem nextLinked).nonempty
            have ne : next ≠ upper := by
              intro same
              cases (cut.same next nextLinked same).1
              omega
            obtain ⟨nextLinked₃, -, nextEnd⟩ := survives₃ next nextLinked ne
            exact ⟨nextLinked₃, by omega⟩
      · cases called
        exact .refl inv

/-! ## The interval that is removed -/

theorem straightRange_spec (inv : Invariant vm) (linked : ∀ r ∈ first, r ∈ vm.live)
    (res : straightRange vm start fuel first = some found) : found ∈ vm.live := by
  induction fuel generalizing first with
  | zero => cases res
  | succ fuel ih =>
    cases first with
    | none => cases res
    | some r =>
      simp only [straightRange] at res
      split at res
      · cases res
        exact linked _ rfl
      · refine ih ?_ res
        intro next isNext
        exact (next_spec inv (linked r rfl) isNext).1

theorem removeTarget_spec {target : Option (Nat × Nat)} (inv : Invariant vm)
    (startAligned : pageSize ∣ start) (endAligned : pageSize ∣ end_)
    (res : removeTarget vm start end_ = (target, vm')) :
    SameLayout vm vm' ∧ Invariant vm' ∧
      ∀ interval ∈ target, pageSize ∣ interval.1 ∧ pageSize ∣ interval.2 := by
  unfold removeTarget at res
  simp only at res
  split at res
  · generalize looked : lookupProcessMemoryRange vm 0 ulongMax = pair at res
    obtain ⟨same, invariant₁, linked⟩ := lookup_spec inv looked
    split at res
    · cases res
      exact ⟨same, invariant₁, by simp⟩
    next r found =>
      cases res
      have rangeLinked := straightRange_spec invariant₁
        (fun r isFirst => same.live ▸ (linked r isFirst).1) found
      refine ⟨same, invariant₁, ?_⟩
      rintro _ ⟨⟩
      have valid := invariant₁.wellFormed.valid_of_mem rangeLinked
      have newStart := ULong.dvd_add dvd_pageSize valid.startAligned
        (ULong.dvd_sub dvd_pageSize startAligned (invariant₁.straight r rangeLinked))
      exact ⟨newStart, ULong.dvd_add dvd_pageSize newStart
        (ULong.dvd_sub dvd_pageSize endAligned startAligned)⟩
  · cases res
    exact ⟨.refl _, inv, by rintro _ ⟨⟩; exact ⟨startAligned, endAligned⟩⟩

/-- Removing any aligned interval keeps the invariant. A range keeps its part below `bound`
when the interval worked on lies below the range or from `bound` on. -/
theorem remove_spec (inv : Invariant vm)
    (startAligned : pageSize ∣ start) (endAligned : pageSize ∣ end_)
    (called : removeProcessMemoryRange env fuel vm start end_ = some (res, vm')) :
    Invariant vm' ∧
      (∀ r ∈ vm.live, ∀ bound, (vm.ranges r).start < bound →
        bound ≤ (vm.ranges r).end_ →
        (∀ target ∈ (removeTarget vm start end_).1,
          target.2 ≤ (vm.ranges r).start ∨ bound ≤ target.1) →
        r ∈ vm'.live ∧ (vm'.ranges r).start = (vm.ranges r).start ∧
          bound ≤ (vm'.ranges r).end_) ∧
      vm'.region = vm.region := by
  unfold removeProcessMemoryRange at called
  generalize targeted : removeTarget vm start end_ = pair at called
  obtain ⟨target, vm₁⟩ := pair
  obtain ⟨same, invariant₁, aligned⟩ :=
    removeTarget_spec inv startAligned endAligned targeted
  cases target with
  | none =>
    cases called
    refine ⟨invariant₁, ?_, same.region⟩
    intro r linked bound _ reach _
    have kept := same.retains linked
    exact ⟨kept.linked, kept.start, kept.end_ ▸ reach⟩
  | some target =>
    obtain ⟨targetStart, targetEnd⟩ := target
    obtain ⟨targetStartAligned, targetEndAligned⟩ := aligned _ rfl
    simp only at called
    generalize looked : lookupProcessMemoryRange vm₁ targetStart targetEnd = pair at called
    obtain ⟨first, vm₂⟩ := pair
    obtain ⟨same₂, invariant₂, pending⟩ := lookup_spec invariant₁ looked
    have layout := same.trans same₂
    cases first with
    | none =>
      cases fuel with
      | zero => cases called
      | succ =>
        cases called
        refine ⟨invariant₂, ?_, layout.region⟩
        intro r linked bound _ reach _
        have kept := layout.retains linked
        exact ⟨kept.linked, kept.start, kept.end_ ▸ reach⟩
    | some first =>
      obtain ⟨firstLinked, interval, meets⟩ := pending first rfl
      have removes : Removes vm₂ vm' targetStart targetEnd := by
        refine removeLoop_spec interval targetStartAligned targetEndAligned invariant₂ ?_ called
        rintro _ ⟨⟩
        refine ⟨same₂.live ▸ firstLinked, ?_⟩
        rw [same₂.end_ first firstLinked]
        exact meets.2
      refine ⟨removes.invariant, ?_, removes.region.trans layout.region⟩
      intro r linked bound begins reach apart
      have apart := apart _ rfl
      have kept := layout.retains linked
      obtain ⟨linked', start', end'⟩ := removes.survives r kept.linked (by
        rw [kept.start]
        omega)
      rw [kept.start, kept.end_] at end'
      refine ⟨linked', start'.trans kept.start, ?_⟩
      omega

/-! ## The interval does not depend on the cache -/

theorem lookup_fields (res : lookupProcessMemoryRange vm start end_ = (found, vm')) :
    vm'.ranges = vm.ranges ∧ vm'.vmRangeTree = vm.vmRangeTree ∧
      vm'.straightVa = vm.straightVa ∧ vm'.straightLen = vm.straightLen := by
  simp only [lookupProcessMemoryRange] at res
  split at res
  · cases res; exact ⟨rfl, rfl, rfl, rfl⟩
  · split at res
    · cases res; exact ⟨rfl, rfl, rfl, rfl⟩
    · split at res
      · cases res; exact ⟨rfl, rfl, rfl, rfl⟩
      · cases res; exact ⟨rfl, rfl, rfl, rfl⟩

theorem lookup_all (inv : Invariant vm) :
    (lookupProcessMemoryRange vm 0 ulongMax).1 =
      firstMatch vm.ranges 0 ulongMax vm.vmRangeTree none := by
  have uncached : cachedRange vm 0 ulongMax = none := by
    cases hit : cachedRange vm 0 ulongMax with
    | none => rfl
    | some r =>
      obtain ⟨inCache, -, upper⟩ := cachedRange_some hit
      have valid := inv.wellFormed.valid_of_mem (inv.cached r inCache)
      have bound := Nat.le_trans upper (Nat.le_trans valid.upper inv.region.userEnd)
      exact absurd bound (by decide)
  unfold lookupProcessMemoryRange
  rw [if_neg (by decide), uncached]
  cases firstMatch vm.ranges 0 ulongMax vm.vmRangeTree none <;> rfl

theorem straightRange_congr (ranges : vm'.ranges = vm.ranges)
    (tree : vm'.vmRangeTree = vm.vmRangeTree) :
    straightRange vm' start fuel first = straightRange vm start fuel first := by
  induction fuel generalizing first with
  | zero => rfl
  | succ fuel ih =>
    cases first with
    | none => rfl
    | some r =>
      simp only [straightRange, nextProcessMemoryRange, locate, ranges, tree]
      split
      · rfl
      · exact ih

theorem removeTarget_of_lookup (inv : Invariant vm)
    (looked : lookupProcessMemoryRange vm lower upper = (found, vm')) :
    (removeTarget vm' start end_).1 = (removeTarget vm start end_).1 := by
  obtain ⟨ranges, tree, straightVa, straightLen⟩ := lookup_fields looked
  have first := lookup_all inv
  have first' := lookup_all (lookup_spec inv looked).2.1
  rw [ranges, tree] at first'
  generalize again : lookupProcessMemoryRange vm 0 ulongMax = pair at first
  generalize again' : lookupProcessMemoryRange vm' 0 ulongMax = pair' at first'
  obtain ⟨found₁, vm₁⟩ := pair
  obtain ⟨found₂, vm₂⟩ := pair'
  obtain ⟨ranges₁, tree₁, -, -⟩ := lookup_fields again
  obtain ⟨ranges₂, tree₂, -, -⟩ := lookup_fields again'
  have ranges' : vm₂.ranges = vm₁.ranges := by rw [ranges₂, ranges, ranges₁]
  have tree' : vm₂.vmRangeTree = vm₁.vmRangeTree := by rw [tree₂, tree, tree₁]
  have sameFound : found₂ = found₁ := first'.trans first.symm
  simp only [removeTarget, straightVa, straightLen, again, again', sameFound, live, tree',
    straightRange_congr ranges' tree']
  split
  · split
    · rfl
    next r _ => rw [ranges']
  · rfl

end McKernel.Vm
