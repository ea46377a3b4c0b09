import McKernel.Vm.View

/-!
# Removing an interval from the map

`remove_process_memory_range` makes the map undefined on the interval it works on and
leaves the rest alone, except that a range cut at an address its page size does not divide
loses that page size.  The loop ends after one round for each range that meets the
interval, unless one of them has private data.
-/

namespace McKernel.Vm

open RbTree Extent ProcessVm List Function Nat Option

/-! ## The first range that meets an interval -/

instance (range : VmRange) (start end_ : Nat) : Decidable (Meets range start end_) :=
  inferInstanceAs (Decidable (_ ∧ _))

theorem firstMatch_eq {ranges : Nat → VmRange} (start end_ : Nat) (tree : ColorTree Nat)
    (nonempty : ∀ r ∈ tree.toList, (ranges r).start < (ranges r).end_)
    (ordered : tree.toList.Pairwise fun left right => (ranges left).end_ ≤ (ranges right).start)
    (found : Option Nat) :
    firstMatch ranges start end_ tree found =
      (tree.toList.find? fun r => decide (Meets (ranges r) start end_)).or found := by
  induction tree generalizing found with
  | nil => rfl
  | node color left v right ihLeft ihRight =>
    rw [ColorTree.toList_node, pairwise_append, pairwise_cons] at ordered
    obtain ⟨leftOrdered, ⟨behind, rightOrdered⟩, before⟩ := ordered
    have leftNonempty : ∀ r ∈ left.toList, (ranges r).start < (ranges r).end_ :=
      fun r inside => nonempty r (by simp [inside])
    have rightNonempty : ∀ r ∈ right.toList, (ranges r).start < (ranges r).end_ :=
      fun r inside => nonempty r (by simp [inside])
    have valueNonempty := nonempty v (by simp)
    have noLeft (far : (ranges v).start ≤ start) :
        (left.toList.find? fun r => decide (Meets (ranges r) start end_)) = none := by
      refine find?_eq_none.mpr fun r inside => ?_
      have apart := before r inside v mem_cons_self
      rw [decide_eq_true_eq, Meets]
      omega
    have noValue := decide_eq_false (p := Meets (ranges v) start end_)
    simp only [firstMatch, ColorTree.toList_node, find?_append, find?_cons]
    split_ifs with below above behindStart
    · have noRight :
          (right.toList.find? fun r => decide (Meets (ranges r) start end_)) = none := by
        refine find?_eq_none.mpr fun r inside => ?_
        have apart := behind r inside
        rw [decide_eq_true_eq, Meets]
        omega
      rw [ihLeft leftNonempty leftOrdered, noValue fun meets => absurd meets.1 (by omega), noRight,
        or_none]
    · rw [ihRight rightNonempty rightOrdered, noValue fun meets => absurd meets.2 (by omega),
        noLeft (by omega), none_or]
    · rw [ihLeft leftNonempty leftOrdered, decide_eq_true ⟨by omega, by omega⟩]
      cases left.toList.find? fun r => decide (Meets (ranges r) start end_) <;> rfl
    · rw [noLeft (by omega), decide_eq_true ⟨by omega, by omega⟩]
      rfl

variable {end_ start : Nat}

theorem lookup_first (inv : Invariant vm) (interval : start < end_) :
    (lookupProcessMemoryRange vm start end_).1 =
      vm.live.find? fun r => decide (Meets (vm.ranges r) start end_) := by
  have wellFormed := inv.wellFormed
  unfold lookupProcessMemoryRange
  rw [if_neg (by omega)]
  split
  next r hit =>
    obtain ⟨inCache, lower, upper⟩ := cachedRange_some hit
    have linked := inv.cached r inCache
    obtain ⟨front, back, position⟩ := append_of_mem linked
    have around := wellFormed.around position
    have missed : ∀ o ∈ front, ¬ Meets (vm.ranges o) start end_ := by
      intro o inside
      have apart := around.1 o inside
      simp only [Meets]
      omega
    have meets : Meets (vm.ranges r) start end_ := ⟨by omega, by omega⟩
    refine (find?_eq_some_iff_append.mpr ⟨by simpa using meets, front, back, position, ?_⟩).symm
    intro o inside
    simpa using missed o inside
  · have first := firstMatch_eq start end_ vm.vmRangeTree
      (fun r linked => (wellFormed.valid_of_mem linked).nonempty) wellFormed.pairwise none
    rw [or_none] at first
    change firstMatch vm.ranges start end_ vm.vmRangeTree none =
      vm.live.find? fun r => decide (Meets (vm.ranges r) start end_) at first
    rw [← first]
    cases firstMatch vm.ranges start end_ vm.vmRangeTree none <;> rfl

/-! ## What is left of the map -/

/-- The page size of what is mapped may have been dropped. -/
def Coarsens (view view' : View) : Prop :=
  view' = view ∨ view' = view.setPgshift 0

theorem Coarsens.trans {view view' view'' : View} (first : Coarsens view view')
    (second : Coarsens view' view'') : Coarsens view view'' := by
  rcases first with rfl | rfl
  · exact second
  · rcases second with rfl | rfl <;> exact .inr rfl

theorem Coarsens.antisymm {view view' : View} (there : Coarsens view view')
    (back : Coarsens view' view) : view' = view := by
  rcases there with same | dropped
  · exact same
  · rcases back with same | again
    · exact same.symm
    · rw [dropped, again, dropped]
      rfl

/-- Outside of the interval the map is the same but for dropped page sizes. -/
def KeepsOutside (vm vm' : ProcessVm) (start end_ : Nat) : Prop :=
  ∀ point, ¬(start ≤ point ∧ point < end_) →
    Option.Rel Coarsens (vm.view point) (vm'.view point)

/-- Outside of the interval the map is the same. -/
def SameOutside (vm vm' : ProcessVm) (start end_ : Nat) : Prop :=
  ∀ point, ¬(start ≤ point ∧ point < end_) → vm'.view point = vm.view point

section Outside

variable {vm vm' vm'' : ProcessVm} {start end_ : Nat}

theorem SameOutside.keeps (same : SameOutside vm vm' start end_) :
    KeepsOutside vm vm' start end_ := by
  intro p outside
  rw [same p outside]
  cases vm.view p with
  | none => exact .none
  | some view => exact .some (.inl rfl)

theorem SameOutside.of_eq (same : ∀ point, vm'.view point = vm.view point) :
    SameOutside vm vm' start end_ := fun p _ => same p

theorem SameOutside.trans (first : SameOutside vm vm' start end_)
    (second : SameOutside vm' vm'' start end_) : SameOutside vm vm'' start end_ :=
  fun p outside => (second p outside).trans (first p outside)

theorem KeepsOutside.refl (vm : ProcessVm) (start end_ : Nat) : KeepsOutside vm vm start end_ :=
  (SameOutside.of_eq fun _ => rfl).keeps

theorem KeepsOutside.trans (first : KeepsOutside vm vm' start end_)
    (second : KeepsOutside vm' vm'' start end_) : KeepsOutside vm vm'' start end_ := by
  intro p outside
  have left := first p outside
  have right := second p outside
  revert left right
  cases vm.view p <;> cases vm'.view p <;> cases vm''.view p <;>
    intro left right <;> cases left <;> cases right
  · exact .none
  · exact .some (Coarsens.trans ‹_› ‹_›)

/-- A page size that is dropped stays dropped: what is the same in the end was the same on
the way. -/
theorem KeepsOutside.squeeze (first : KeepsOutside vm vm' start end_)
    (second : KeepsOutside vm' vm'' start end_) (same : SameOutside vm vm'' start end_) :
    SameOutside vm vm' start end_ ∧ SameOutside vm' vm'' start end_ := by
  have middle : SameOutside vm vm' start end_ := by
    intro p outside
    have left := first p outside
    have right := second p outside
    rw [same p outside] at right
    revert left right
    cases vm.view p <;> cases vm'.view p <;> intro left right <;> cases left <;> cases right
    · rfl
    · exact congrArg some (Coarsens.antisymm ‹_› ‹_›)
  exact ⟨middle, fun p outside => (same p outside).trans (middle p outside).symm⟩

end Outside

/-- The address lies within the range and its page size does not divide it. -/
def BreaksAt (range : VmRange) (addr : Nat) : Prop :=
  range.start < addr ∧ addr < range.end_ ∧
    range.pgshift ≠ 0 ∧ addr &&& (2 ^ range.pgshift - 1) ≠ 0

/-- A bound of the interval breaks a page of the range. -/
def BreaksPage (range : VmRange) (start end_ : Nat) : Prop :=
  BreaksAt range start ∨ BreaksAt range end_

theorem BreaksPage.meets {range : VmRange} {start end_ : Nat} (breaks : BreaksPage range start end_)
    (interval : start < end_) : Meets range start end_ := by
  rcases breaks with ⟨below, above, -⟩ | ⟨below, above, -⟩ <;> constructor <;> omega

variable {addr fuel upper : Nat} {vm₁ : ProcessVm}

section Round

variable {env : Env} {vm vm' : ProcessVm} {r start end_ : Nat} {front back : List Nat}

/-- A split that breaks a page shows at every address of the range. -/
theorem split_unbroken (mapped : Mapped vm) (linked : r ∈ vm.live)
    (lower : (vm.ranges r).start < addr) (upper : addr < (vm.ranges r).end_)
    (aligned : pageSize ∣ addr) (called : splitProcessMemoryRange env vm r addr = (res, vm'))
    (covers : Covers (vm.ranges r) p) (unchanged : vm'.view p = vm.view p) :
    ¬ BreaksAt (vm.ranges r) addr := by
  rintro ⟨-, -, cut⟩
  rw [split_view mapped linked lower upper aligned called p,
    mapped.wellFormed.view_of_covers linked covers, map_some, if_pos covers,
    splitPgshift, if_pos cut, some.injEq] at unchanged
  exact cut.1 (congrArg View.pgshift unchanged).symm

/-- A split leaves the map alone if and only if it breaks no page of the range. -/
theorem split_same_iff (mapped : Mapped vm) (linked : r ∈ vm.live)
    (lower : (vm.ranges r).start < addr) (upper : addr < (vm.ranges r).end_)
    (aligned : pageSize ∣ addr) (called : splitProcessMemoryRange env vm r addr = (res, vm')) :
    (∀ p, vm'.view p = vm.view p) ↔ ¬ BreaksAt (vm.ranges r) addr := by
  constructor
  · intro same
    exact split_unbroken mapped linked lower upper aligned called ⟨lower.le, upper⟩ (same addr)
  · intro whole p
    have pgshift : splitPgshift (vm.ranges r) addr = (vm.ranges r).pgshift :=
      if_neg fun cut => whole ⟨lower, upper, cut⟩
    rw [split_view mapped linked lower upper aligned called p, pgshift]
    rcases view_cases mapped.wellFormed p with ⟨o, otherLinked, covers, viewed⟩ | ⟨_, none⟩
    · rw [viewed, map_some]
      split
      next inside =>
        obtain rfl := mapped.wellFormed.eq_of_covers linked otherLinked inside covers
        rfl
      · rfl
    · rw [none]
      rfl

theorem split_keeps (mapped : Mapped vm) (linked : r ∈ vm.live)
    (lower : (vm.ranges r).start < addr) (upper : addr < (vm.ranges r).end_)
    (aligned : pageSize ∣ addr) (called : splitProcessMemoryRange env vm r addr = (res, vm')) :
    KeepsOutside vm vm' start end_ := by
  intro p _
  rw [split_view mapped linked lower upper aligned called p]
  rcases view_cases mapped.wellFormed p with ⟨o, otherLinked, covers, viewed⟩ | ⟨_, none⟩
  · rw [viewed, map_some]
    refine .some ?_
    split
    next inside =>
      obtain rfl := mapped.wellFormed.eq_of_covers linked otherLinked inside covers
      unfold splitPgshift
      split
      · exact .inr rfl
      · exact .inl rfl
    · exact .inl rfl
  · rw [none]
    exact .none

/-- A range has been cut at a bound of the interval: `piece` is what is left of it to be
removed, `low` and `high` are what has been cut off. -/
structure Trims (vm vm' : ProcessVm) (front low high back : List Nat) (piece start end_ : Nat) :
    Prop where
  mapped : Mapped vm'
  live : vm'.live = front ++ low ++ piece :: (high ++ back)
  clear : ∀ other ∈ low ++ high, ¬ Meets (vm'.ranges other) start end_
  others : ∀ other ∈ front ++ back, vm'.ranges other = vm.ranges other

theorem Trims.refl (mapped : Mapped vm) (position : vm.live = front ++ r :: back) :
    Trims vm vm front [] [] back r start end_ :=
  ⟨mapped, by simp [position], by simp, fun _ _ => rfl⟩

theorem splitBelow_trims (mapped : Mapped vm) (position : vm.live = front ++ r :: back)
    (meets : Meets (vm.ranges r) start end_)
    (aligned : pageSize ∣ start) (called : splitBelow env vm r start = (.ok upper, vm')) :
    ∃ low, Trims vm vm' front low [] back upper start end_ ∧
      (vm'.ranges upper).start = max (vm.ranges r).start start ∧
      (vm'.ranges upper).end_ = (vm.ranges r).end_ ∧
      (vm'.ranges upper).privateData = (vm.ranges r).privateData ∧
      (¬ BreaksAt (vm.ranges r) start →
        (vm'.ranges upper).pgshift = (vm.ranges r).pgshift) := by
  unfold splitBelow at called
  split at called
  next below =>
    have cuts := split_cuts mapped position below meets.2 aligned called
    refine ⟨[r], ⟨cuts.mapped, by simp [cuts.live], ?_,
      fun o among => cuts.others_of_mem mapped position among⟩, ?_⟩
    · intro o isLow
      simp only [append_nil, mem_singleton] at isLow
      subst isLow
      rw [cuts.lower]
      simp only [Meets, VmRange.lowerPart]
      omega
    · rw [cuts.upper]
      exact ⟨by simp only [VmRange.upperPart]; omega, rfl, rfl,
        fun whole => if_neg fun cut => whole ⟨below, meets.2, cut⟩⟩
  next above =>
    cases called
    exact ⟨[], .refl mapped position, by omega, rfl, rfl, fun _ => rfl⟩

theorem splitAbove_trims (start : Nat) (mapped : Mapped vm)
    (position : vm.live = front ++ r :: back) (inside : (vm.ranges r).start < end_)
    (aligned : pageSize ∣ end_) (called : splitAbove env vm r end_ = (.ok upper, vm')) :
    ∃ high, Trims vm vm' front [] high back r start end_ ∧
      (vm'.ranges r).start = (vm.ranges r).start ∧ (vm'.ranges r).end_ ≤ end_ ∧
      (vm'.ranges r).privateData = (vm.ranges r).privateData := by
  unfold splitAbove at called
  split at called
  next above =>
    have cuts := split_cuts mapped position inside above aligned called
    refine ⟨[upper], ⟨cuts.mapped, by simp [cuts.live], ?_,
      fun o among => cuts.others_of_mem mapped position among⟩, ?_⟩
    · intro o isHigh
      simp only [nil_append, mem_singleton] at isHigh
      subst isHigh
      rw [cuts.upper]
      simp only [Meets, VmRange.upperPart]
      omega
    · rw [cuts.lower]
      exact ⟨rfl, le_refl _, rfl⟩
  next below =>
    cases called
    exact ⟨[], .refl mapped position, rfl, by omega, rfl⟩

/-- What one of the two splits does to the map around the interval. -/
structure SplitsView (vm vm' : ProcessVm) (range : VmRange) (addr start end_ : Nat) : Prop where
  keeps : KeepsOutside vm vm' start end_
  same : ¬ BreaksAt range addr → SameOutside vm vm' start end_
  whole : SameOutside vm vm' start end_ → ¬ BreaksAt range addr

/-- A split that is needed; the byte `p` outside of the interval shows a broken page. -/
theorem split_splitsView (mapped : Mapped vm) (linked : r ∈ vm.live)
    (lower : (vm.ranges r).start < addr) (upper : addr < (vm.ranges r).end_)
    (aligned : pageSize ∣ addr) {p : Nat} (covers : Covers (vm.ranges r) p)
    (outside : ¬(start ≤ p ∧ p < end_))
    (called : splitProcessMemoryRange env vm r addr = (res, vm')) :
    SplitsView vm vm' (vm.ranges r) addr start end_ := by
  refine ⟨split_keeps mapped linked lower upper aligned called, fun whole => .of_eq
    ((split_same_iff mapped linked lower upper aligned called).mpr whole), fun same => ?_⟩
  exact split_unbroken mapped linked lower upper aligned called covers (same p outside)

theorem splitBelow_view (mapped : Mapped vm) (linked : r ∈ vm.live)
    (meets : Meets (vm.ranges r) start end_) (aligned : pageSize ∣ start)
    (called : splitBelow env vm r start = (res, vm')) :
    SplitsView vm vm' (vm.ranges r) start start end_ := by
  unfold splitBelow at called
  split at called
  next below =>
    have covers : Covers (vm.ranges r) (start - 1) := by
      have := meets.2
      simp only [Covers, lo_vmRange, hi_vmRange]
      omega
    exact split_splitsView mapped linked below meets.2 aligned covers (by omega) called
  next above =>
    cases called
    exact ⟨.refl vm start end_, fun _ => .of_eq fun _ => rfl, fun _ breaks => above breaks.1⟩

theorem splitAbove_view (start : Nat) (mapped : Mapped vm) (linked : r ∈ vm.live)
    (inside : (vm.ranges r).start < end_) (aligned : pageSize ∣ end_)
    (called : splitAbove env vm r end_ = (res, vm')) :
    SplitsView vm vm' (vm.ranges r) end_ start end_ := by
  unfold splitAbove at called
  split at called
  next above =>
    exact split_splitsView mapped linked inside above aligned ⟨inside.le, above⟩ (by omega) called
  next below =>
    cases called
    exact ⟨.refl vm start end_, fun _ => .of_eq fun _ => rfl, fun _ breaks => below breaks.2.1⟩

theorem free_trims (mapped : Mapped vm) (position : vm.live = front ++ r :: back)
    (lower : start ≤ (vm.ranges r).start) (upper : (vm.ranges r).end_ ≤ end_) :
    Mapped (freeProcessMemoryRange vm r) ∧
      (freeProcessMemoryRange vm r).live = front ++ back ∧
      (freeProcessMemoryRange vm r).ranges = vm.ranges ∧
      SameOutside vm (freeProcessMemoryRange vm r) start end_ := by
  have linked : r ∈ vm.live := by simp [position]
  have nodup := mapped.wellFormed.nodup
  have freed := (free_spec mapped.toInvariant linked).1
  have erased := live_eraseRange nodup position
  have live : (freeProcessMemoryRange vm r).live = front ++ back := by
    unfold freeProcessMemoryRange
    simp only
    split <;> exact erased
  have ranges : (freeProcessMemoryRange vm r).ranges = vm.ranges := by
    unfold freeProcessMemoryRange
    simp only
    split <;> simp [replaceCached]
  refine ⟨⟨freed, fun o linked' => ?_⟩, live, ranges, fun p outside => ?_⟩
  · rw [ranges]
    refine mapped.straightFits o ?_
    rw [live] at linked'
    rw [position]
    simp only [mem_append, mem_cons] at linked' ⊢
    tauto
  · have away : ¬Covers (vm.ranges r) p := by
      simp only [Covers, lo_vmRange, hi_vmRange]
      omega
    exact (view_exchange [r] [] id mapped.wellFormed freed.wellFormed (by simpa using position)
      (by simpa using live) (fun o _ => by rw [ranges]) (by simp [away])).trans (by simp)

/-- What a removal does to the map around the interval, if it works on these ranges. -/
structure TrimsView (vm vm' : ProcessVm) (ranges : List Nat) (start end_ : Nat) : Prop where
  keeps : KeepsOutside vm vm' start end_
  same : (∀ range ∈ ranges, ¬ BreaksPage (vm.ranges range) start end_) →
    SameOutside vm vm' start end_

/-- One round of the loop: the range is gone from the interval, the rest of it is kept,
and the ranges around it are as before. -/
structure Round (vm vm' : ProcessVm) (front kept back : List Nat) (range start end_ : Nat) :
    Prop extends TrimsView vm vm' [range] start end_ where
  mapped : Mapped vm'
  live : vm'.live = front ++ kept ++ back
  clear : ∀ other ∈ kept, ¬ Meets (vm'.ranges other) start end_
  others : ∀ other ∈ front ++ back, vm'.ranges other = vm.ranges other
  whole : SameOutside vm vm' start end_ → ¬ BreaksPage (vm.ranges range) start end_

/-- The two splits of a round, the second of which may have failed. -/
theorem splits_view (mapped : Mapped vm) (interval : start < end_)
    (position : vm.live = front ++ r :: back)
    (meets : Meets (vm.ranges r) start end_) (startAligned : pageSize ∣ start)
    (endAligned : pageSize ∣ end_) (lower : splitBelow env vm r start = (.ok upper, vm₁))
    (above : splitAbove env vm₁ upper end_ = (res, vm')) :
    TrimsView vm vm' [r] start end_ ∧
      (SameOutside vm vm' start end_ → ¬ BreaksPage (vm.ranges r) start end_) := by
  obtain ⟨low, cutLow, upperStart, upperEnd, -, pgshift⟩ :=
    splitBelow_trims mapped position meets startAligned lower
  have upperInside : (vm₁.ranges upper).start < end_ := by
    have := meets.1
    omega
  have first := splitBelow_view mapped (by simp [position]) meets startAligned lower
  have second := splitAbove_view start cutLow.mapped (by simp [cutLow.live]) upperInside
    endAligned above
  -- The upper part is broken where the range is, if it still has its page size.
  have upperBreaks (whole : ¬ BreaksAt (vm.ranges r) start) :
      BreaksAt (vm₁.ranges upper) end_ ↔ BreaksAt (vm.ranges r) end_ := by
    simp only [BreaksAt, upperEnd, pgshift whole]
    refine and_congr_left fun _ => ?_
    have := meets.1
    omega
  refine ⟨⟨first.keeps.trans second.keeps, fun whole => ?_⟩, fun same => ?_⟩
  · have whole := not_or.mp (whole r (by simp))
    exact (first.same whole.1).trans (second.same (mt (upperBreaks whole.1).mp whole.2))
  · obtain ⟨same₁, same₂⟩ := first.keeps.squeeze second.keeps same
    have whole := first.whole same₁
    exact not_or.mpr ⟨whole, mt (upperBreaks whole).mpr (second.whole same₂)⟩

theorem removeRound_trims (mapped : Mapped vm)
    (interval : start < end_) (position : vm.live = front ++ r :: back)
    (meets : Meets (vm.ranges r) start end_) (startAligned : pageSize ∣ start)
    (endAligned : pageSize ∣ end_) (lower : splitBelow env vm r start = (.ok upper, vm₁))
    (above : splitAbove env vm₁ upper end_ = (.ok upper', vm₂)) :
    (vm₂.ranges upper).privateData = (vm.ranges r).privateData ∧
    ∃ kept, Round vm (freeProcessMemoryRange vm₂ upper) front kept back r start end_ := by
  obtain ⟨low, cutLow, upperStart, -, sameData, -⟩ :=
    splitBelow_trims mapped position meets startAligned lower
  have upperInside : (vm₁.ranges upper).start < end_ := by
    have := meets.1
    omega
  have position₁ : vm₁.live = (front ++ low) ++ upper :: back := by simpa using cutLow.live
  obtain ⟨high, cutHigh, sameStart, upperUpper, keptData⟩ :=
    splitAbove_trims start cutLow.mapped position₁ upperInside endAligned above
  have position₂ : vm₂.live = (front ++ low) ++ upper :: (high ++ back) := by
    simpa using cutHigh.live
  obtain ⟨freed, live, ranges, freedSame⟩ :=
    free_trims cutHigh.mapped position₂ (sameStart.symm ▸ upperStart ▸ le_max_right _ _) upperUpper
  obtain ⟨splits, whole⟩ :=
    splits_view mapped interval position meets startAligned endAligned lower above
  refine ⟨keptData.trans sameData, low ++ high, ⟨splits.keeps.trans freedSame.keeps,
    fun unbroken => (splits.same unbroken).trans freedSame⟩, freed, by simpa using live, ?_, ?_,
    fun same => whole (splits.keeps.squeeze freedSame.keeps same).1⟩
  · intro o among
    rw [ranges]
    rcases mem_append.mp among with inLow | inHigh
    · rw [cutHigh.others o (by simp [inLow])]
      exact cutLow.clear o (by simpa using inLow)
    · exact cutHigh.clear o (by simpa using inHigh)
  · intro o among
    have among' : o ∈ (front ++ low) ++ back := by
      simp only [mem_append] at among ⊢
      tauto
    rw [ranges, cutHigh.others o among', cutLow.others o among]

end Round

/-- After a success the interval is gone, none of the ranges that met it had private data,
and none was broken if the map outside is the same. -/
structure RemovesView (vm vm' : ProcessVm) (ranges : List Nat) (start end_ : Nat) : Prop where
  gone : ∀ point, start ≤ point → point < end_ → vm'.view point = none
  quiet : ∀ range ∈ ranges, Meets (vm.ranges range) start end_ →
    (vm.ranges range).privateData = 0
  whole : SameOutside vm vm' start end_ →
    ∀ range ∈ ranges, ¬ BreaksPage (vm.ranges range) start end_

section Loop

variable {end_ start : Nat} {env : Env} {vm vm' vm'' : ProcessVm} {front back : List Nat}

theorem view_eq_none_of_clear
    (clear : ∀ r ∈ vm.live, ¬ Meets (vm.ranges r) start end_) (lower : start ≤ p)
    (upper : p < end_) : vm.view p = none := by
  refine view_eq_none fun r linked covers => clear r linked ?_
  simp only [Covers, lo_vmRange, hi_vmRange] at covers
  constructor <;> omega

/-- The loop ends where nothing meets the interval. -/
theorem removes_of_clear (interval : start < end_) (position : vm.live = front ++ back)
    (clear : ∀ o ∈ front, ¬ Meets (vm.ranges o) start end_)
    (clearBack : ∀ o ∈ back, ¬ Meets (vm.ranges o) start end_) :
    TrimsView vm vm back start end_ ∧ RemovesView vm vm back start end_ := by
  refine ⟨⟨.refl vm start end_, fun _ => .of_eq fun _ => rfl⟩, fun p lower upper => ?_,
    fun o among meets => absurd meets (clearBack o among),
    fun _ o among breaks => clearBack o among (breaks.meets interval)⟩
  refine view_eq_none_of_clear (fun o linked => ?_) lower upper
  rw [position] at linked
  rcases mem_append.mp linked with inFront | inBack
  · exact clear o inFront
  · exact clearBack o inBack

/-- A round before the rest of the loop. -/
theorem Round.removes {r : Nat} {kept : List Nat}
    (round : Round vm vm' front kept back r start end_)
    (detached : (vm.ranges r).privateData = 0) (ok : Prop)
    (rest : TrimsView vm' vm'' back start end_ ∧ (ok → RemovesView vm' vm'' back start end_)) :
    TrimsView vm vm'' (r :: back) start end_ ∧
      (ok → RemovesView vm vm'' (r :: back) start end_) := by
  obtain ⟨trims, removes⟩ := rest
  have others : ∀ o ∈ back, vm'.ranges o = vm.ranges o := fun o among =>
    round.others o (by simp [among])
  refine ⟨⟨round.keeps.trans trims.keeps, fun whole => ?_⟩, fun succeeded => ?_⟩
  · refine (round.same (by simpa using whole r mem_cons_self)).trans (trims.same ?_)
    intro o among
    rw [others o among]
    exact whole o (mem_cons_of_mem r among)
  · have removed := removes succeeded
    refine ⟨removed.gone, fun o among meets => ?_, fun same o among => ?_⟩
    · rcases mem_cons.mp among with rfl | among
      · exact detached
      · rw [← others o among] at meets ⊢
        exact removed.quiet o among meets
    · obtain ⟨sameRound, sameRest⟩ := round.keeps.squeeze trims.keeps same
      rcases mem_cons.mp among with rfl | among
      · exact round.whole sameRound
      · rw [← others o among]
        exact removed.whole sameRest o among

/-- The loop ends after one round for each remaining range, if none of them has private
data. -/
theorem removeLoop_view (env : Env) (roFreed : Bool) (interval : start < end_)
    (startAligned : pageSize ∣ start) (endAligned : pageSize ∣ end_) (mapped : Mapped vm)
    (position : vm.live = front ++ back)
    (clear : ∀ o ∈ front, ¬ Meets (vm.ranges o) start end_)
    (ends : ∀ o ∈ back, start < (vm.ranges o).end_) :
    (back.length < fuel →
      (∀ o ∈ back, Meets (vm.ranges o) start end_ → (vm.ranges o).privateData = 0) →
      (removeLoop env start end_ fuel back.head? roFreed vm).isSome) ∧
    ∀ res vm', removeLoop env start end_ fuel back.head? roFreed vm = some (res, vm') →
      TrimsView vm vm' back start end_ ∧
        (res.isOk = true → RemovesView vm vm' back start end_) := by
  induction back generalizing vm front fuel roFreed with
  | nil =>
    cases fuel with
    | zero =>
      refine ⟨fun none => absurd none (Nat.not_lt_zero _), ?_⟩
      rintro res vm' ⟨⟩
    | succ fuel =>
      refine ⟨fun _ _ => rfl, ?_⟩
      rintro res vm' ⟨⟩
      have ended := removes_of_clear interval position clear (by simp)
      exact ⟨ended.1, fun _ => ended.2⟩
  | cons r rest ih =>
    cases fuel with
    | zero =>
      refine ⟨fun none => absurd none (Nat.not_lt_zero _), ?_⟩
      rintro res vm' ⟨⟩
    | succ fuel =>
    have around := mapped.wellFormed.around position
    have linked : r ∈ vm.live := by simp [position]
    have ended := ends r mem_cons_self
    simp only [head?_cons, removeLoop]
    split
    next begins =>
      have meets : Meets (vm.ranges r) start end_ := ⟨begins, ended⟩
      -- A split that fails ends the loop without a success.
      have failed {error : Errno} {vm' : ProcessVm} (trims : TrimsView vm vm' [r] start end_)
          (res : Except Errno Bool) (vm'' : ProcessVm)
          (isEnd : some (Except.error error, vm') = some (res, vm'')) :
          TrimsView vm vm'' (r :: rest) start end_ ∧
            (res.isOk = true → RemovesView vm vm'' (r :: rest) start end_) := by
        cases isEnd
        exact ⟨⟨trims.keeps, fun whole => trims.same (by simpa using whole r mem_cons_self)⟩,
          fun ok => (Bool.false_ne_true ok).elim⟩
      split
      next error vm₁ lower =>
        have splits := splitBelow_view mapped linked meets startAligned lower
        exact ⟨fun _ _ => rfl, failed ⟨splits.keeps, fun whole =>
          splits.same fun breaks => whole r (by simp) (.inl breaks)⟩⟩
      next upper vm₁ lower =>
        split
        next error vm₂ above =>
          exact ⟨fun _ _ => rfl, failed
            (splits_view mapped interval position meets startAligned endAligned lower above).1⟩
        next upper' vm₂ above =>
          obtain ⟨pieceData, kept, round⟩ :=
            removeRound_trims mapped interval position meets startAligned endAligned lower above
          rw [pieceData]
          split
          next attached =>
            refine ⟨fun _ quiet => absurd (quiet r mem_cons_self meets) attached, ?_⟩
            rintro res vm' ⟨⟩
          next detached =>
            rw [nextProcessMemoryRange_eq mapped.wellFormed.nodup position]
            have others : ∀ o ∈ rest,
                (freeProcessMemoryRange vm₂ upper).ranges o = vm.ranges o :=
              fun o among => round.others o (by simp [among])
            have clearFront : ∀ o ∈ front ++ kept,
                ¬ Meets ((freeProcessMemoryRange vm₂ upper).ranges o) start end_ := by
              intro o among
              rcases mem_append.mp among with inFront | inKept
              · rw [round.others o (by simp [inFront])]
                exact clear o inFront
              · exact round.clear o inKept
            have endsRest : ∀ o ∈ rest,
                start < ((freeProcessMemoryRange vm₂ upper).ranges o).end_ := by
              intro o among
              rw [others o among]
              exact ends o (by simp [among])
            obtain ⟨terminates, removes⟩ := ih _ round.mapped round.live clearFront
              endsRest
            refine ⟨fun enough quiet => terminates (lt_of_succ_lt_succ enough)
              fun o among meets => ?_, fun res vm' ran =>
              round.removes (not_not.mp detached) _ (removes res vm' ran)⟩
            rw [others o among] at meets ⊢
            exact quiet o (mem_cons_of_mem r among) meets
    next beyond =>
      have clearBack : ∀ o ∈ r :: rest, ¬ Meets (vm.ranges o) start end_ := by
        intro o inBack
        have behind : (vm.ranges r).start ≤ (vm.ranges o).start := by
          rcases mem_cons.mp inBack with rfl | inRest
          · exact le_refl _
          · have := around.2 o inRest
            have nonempty := (mapped.wellFormed.valid_of_mem linked).nonempty
            omega
        simp only [Meets]
        omega
      refine ⟨fun _ _ => rfl, ?_⟩
      rintro res vm' ⟨⟩
      have ended := removes_of_clear interval position clear clearBack
      exact ⟨ended.1, fun _ => ended.2⟩

end Loop

/-- The interval is a proper part of the straight mapping: it stands for the interval of the
range that is shown there. -/
def InStraight (vm : ProcessVm) (start end_ : Nat) : Prop :=
  vm.straightVa ≠ 0 ∧ vm.straightVa ≤ start ∧ end_ ≤ ULong.add vm.straightVa vm.straightLen ∧
    ¬(start = vm.straightVa ∧ end_ = ULong.add vm.straightVa vm.straightLen)

theorem removeTarget_eq {vm : ProcessVm} (proper : ¬ InStraight vm start end_) :
    removeTarget vm start end_ = (some (start, end_), vm) := if_neg proper

theorem Mapped.of_fields {vm vm' : ProcessVm} (mapped : Mapped vm) (inv : Invariant vm')
    (ranges : vm'.ranges = vm.ranges) (tree : vm'.vmRangeTree = vm.vmRangeTree) : Mapped vm' := by
  refine ⟨inv, fun r linked => ?_⟩
  rw [ranges]
  exact mapped.straightFits r (by rwa [live, ← tree])

/-- Where the loop begins: nothing before that range meets the interval. -/
theorem lookup_position {vm vm' : ProcessVm} {first : Option Nat} (mapped : Mapped vm)
    (interval : start < end_) (looked : lookupProcessMemoryRange vm start end_ = (first, vm')) :
    ∃ front back, vm.live = front ++ back ∧ first = back.head? ∧
      (∀ o ∈ front, ¬ Meets (vm.ranges o) start end_) ∧
      ∀ o ∈ back, start < (vm.ranges o).end_ := by
  have found := lookup_first mapped.toInvariant interval
  rw [looked] at found
  cases first with
  | none =>
    have none_ := find?_eq_none.mp found.symm
    exact ⟨vm.live, [], by simp, rfl, fun o linked => by simpa using none_ o linked, by simp⟩
  | some r =>
    obtain ⟨meets, front, back, position, clear⟩ := find?_eq_some_iff_append.mp found.symm
    have meets : Meets (vm.ranges r) start end_ := by simpa using meets
    have around := mapped.wellFormed.around position
    refine ⟨front, r :: back, position, rfl, fun o among => by simpa using clear o among, ?_⟩
    intro o among
    rcases mem_cons.mp among with rfl | inBack
    · exact meets.2
    · have behind := around.2 o inBack
      have nonempty := (mapped.wellFormed.valid_of_mem
        (show o ∈ vm.live by simp [position, inBack])).nonempty
      have ended := meets.2
      omega

/-- Removing an interval: it ends if no range that it meets has private data, and then the
rest of the map is the same but for broken pages. -/
theorem remove_view (env : Env) {vm : ProcessVm} (mapped : Mapped vm) (interval : start < end_)
    (startAligned : pageSize ∣ start) (endAligned : pageSize ∣ end_)
    (proper : ¬ InStraight vm start end_) :
    (vm.live.length < fuel →
      (∀ o ∈ vm.live, Meets (vm.ranges o) start end_ → (vm.ranges o).privateData = 0) →
      (removeProcessMemoryRange env fuel vm start end_).isSome) ∧
    ∀ res vm', removeProcessMemoryRange env fuel vm start end_ = some (res, vm') →
      TrimsView vm vm' vm.live start end_ ∧
        (res.isOk = true → RemovesView vm vm' vm.live start end_) := by
  unfold removeProcessMemoryRange
  rw [removeTarget_eq proper]
  simp only
  generalize looked : lookupProcessMemoryRange vm start end_ = pair
  obtain ⟨first, vm₁⟩ := pair
  obtain ⟨front, back, position, rfl, clear, ends⟩ := lookup_position mapped interval looked
  obtain ⟨-, invariant₁, -⟩ := lookup_spec mapped.toInvariant looked
  obtain ⟨ranges₁, tree₁, -, -⟩ := lookup_fields looked
  have mapped₁ := mapped.of_fields invariant₁ ranges₁ tree₁
  have view₁ : vm₁.view = vm.view := view_congr ranges₁ tree₁
  have short : back.length ≤ vm.live.length := by simp [position]
  have among : ∀ o ∈ back, o ∈ vm.live := by simp +contextual [position]
  obtain ⟨terminates, removes⟩ := removeLoop_view env false interval startAligned endAligned
    mapped₁ (by rwa [live, tree₁]) (by rwa [ranges₁]) (by rwa [ranges₁])
  simp only [ranges₁] at terminates
  refine ⟨fun enough quiet => terminates (short.trans_lt enough) fun o inBack =>
    quiet o (among o inBack), fun res vm' ran => ?_⟩
  obtain ⟨trims, removed⟩ := removes res vm' ran
  have sameOutside : SameOutside vm₁ vm' start end_ ↔ SameOutside vm vm' start end_ := by
    simp only [SameOutside, view₁]
  have keeps := trims.keeps
  simp only [KeepsOutside, view₁] at keeps
  -- The ranges before the first one that meets the interval are not touched.
  have extended {P : Nat → Prop} (inBack : ∀ o ∈ back, P o)
      (inFront : ∀ o ∈ front, P o) : ∀ o ∈ vm.live, P o := by
    intro o linked
    rw [position] at linked
    rcases mem_append.mp linked with isFront | isBack
    · exact inFront o isFront
    · exact inBack o isBack
  refine ⟨⟨keeps, fun whole => sameOutside.mp (trims.same ?_)⟩, fun ok =>
    ⟨(removed ok).gone, extended ?_ fun o inFront meets => absurd meets (clear o inFront),
      fun same => extended ?_ fun o inFront breaks => clear o inFront (breaks.meets interval)⟩⟩
  · intro o inBack
    rw [ranges₁]
    exact whole o (among o inBack)
  · simpa only [ranges₁] using (removed ok).quiet
  · simpa only [ranges₁] using (removed ok).whole (sameOutside.mpr same)

/-! ## The functions as operations on the map -/

/-- The comparisons that `join_process_memory_range` makes. -/
def Joinable (left right : VmRange) : Prop :=
  left.end_ = right.start ∧ left.flag = right.flag ∧ left.memobj = right.memobj ∧
    (left.memobj ≠ 0 → ULong.add left.objoff (ULong.sub left.end_ left.start) = right.objoff)

/-- The comparisons that it leaves out: page size, private data and straight address of the
right range continue those of the left one. -/
def Continues (left right : VmRange) : Prop :=
  left.pgshift = right.pgshift ∧ left.privateData = right.privateData ∧
    (left.viewAt right.start).straight = (right.viewAt right.start).straight

section Join

variable {vm : ProcessVm} {surviving merging : Nat}

theorem join_succeeds_iff (vm : ProcessVm) (surviving merging : Nat) :
    (joinProcessMemoryRange vm surviving merging).1 = none ↔
      Joinable (vm.ranges surviving) (vm.ranges merging) := by
  unfold joinProcessMemoryRange Joinable
  simp only
  split_ifs with mismatch off
  · simp only [false_iff]
    tauto
  · simp only [false_iff]
    tauto
  · simp only [true_iff]
    tauto

theorem Continues.joinedView_eq {left right : VmRange} (continues : Continues left right)
    (touch : left.start ≤ right.start) {p : Nat} (inside : right.start ≤ p) :
    joinedView left p (right.viewAt p) = right.viewAt p := by
  obtain ⟨pgshift, privateData, straight⟩ := continues
  have straightAt : (left.viewAt p).straight = (right.viewAt p).straight := by
    simp only [VmRange.viewAt] at straight ⊢
    split_ifs at straight ⊢ with leftNone rightNone rightNone
    · rfl
    · simp only [some.injEq, ULong.add] at straight ⊢
      rw [show p - left.start = (right.start - left.start) + (p - right.start) by omega,
        ← add_assoc, Nat.add_mod, straight, ← Nat.add_mod]
      congr 1
      omega
  simp only [joinedView, straightAt, pgshift, privateData]
  rfl

/-- A join leaves the map alone if and only if it does not join what does not continue. -/
theorem join_same_iff (mapped : Mapped vm) (survivingLinked : surviving ∈ vm.live)
    (mergingLinked : merging ∈ vm.live) :
    (∀ p, (joinProcessMemoryRange vm surviving merging).2.view p = vm.view p) ↔
      (Joinable (vm.ranges surviving) (vm.ranges merging) →
        Continues (vm.ranges surviving) (vm.ranges merging)) := by
  have succeeds := join_succeeds_iff vm surviving merging
  generalize called : joinProcessMemoryRange vm surviving merging = pair at succeeds ⊢
  obtain ⟨error, vm'⟩ := pair
  change error = none ↔ _ at succeeds
  have joined := join_view mapped survivingLinked mergingLinked called
  have nonempty := (mapped.wellFormed.valid_of_mem mergingLinked).nonempty
  have survivingNonempty := (mapped.wellFormed.valid_of_mem survivingLinked).nonempty
  constructor
  · intro same joinable
    have covers : Covers (vm.ranges merging) (vm.ranges merging).start := ⟨le_refl _, nonempty⟩
    have unchanged := same (vm.ranges merging).start
    rw [joined, mapped.wellFormed.view_of_covers mergingLinked covers, map_some,
      if_pos ⟨succeeds.mpr joinable, covers⟩, some.injEq] at unchanged
    have straight := congrArg View.straight unchanged
    exact ⟨congrArg View.pgshift unchanged, congrArg View.privateData unchanged, straight⟩
  · intro continues p
    rw [joined]
    rcases view_cases mapped.wellFormed p with ⟨o, otherLinked, covers, viewed⟩ | ⟨_, none⟩
    · rw [viewed, map_some]
      split
      next both =>
        obtain rfl := mapped.wellFormed.eq_of_covers mergingLinked otherLinked both.2 covers
        have joinable := succeeds.mp both.1
        have touch : (vm.ranges surviving).end_ = (vm.ranges o).start := joinable.1
        rw [(continues joinable).joinedView_eq (by omega) both.2.1]
      · rfl
    · rw [none]
      rfl

end Join

/-- What each function does to the map of a process, whether it succeeds or not, and exactly
when it keeps what it has to keep: a split may not break a page, a join may not take ranges
together that do not continue each other, and a removal may break no page and meet no
private data. -/
theorem range_functions_on_view {env : Env} {vm : ProcessVm} (mapped : Mapped vm) :
    (∀ range ∈ vm.live, ∀ addr, (vm.ranges range).start < addr → addr < (vm.ranges range).end_ →
      pageSize ∣ addr →
      ((∀ point, (splitProcessMemoryRange env vm range addr).2.view point = vm.view point) ↔
        ¬ BreaksAt (vm.ranges range) addr)) ∧
    (∀ surviving ∈ vm.live, ∀ merging ∈ vm.live,
      ((∀ point, (joinProcessMemoryRange vm surviving merging).2.view point = vm.view point) ↔
        (Joinable (vm.ranges surviving) (vm.ranges merging) →
          Continues (vm.ranges surviving) (vm.ranges merging)))) ∧
    (∀ start end_, start < end_ → pageSize ∣ start → pageSize ∣ end_ →
      ¬ InStraight vm start end_ → ∀ fuel,
      (vm.live.length < fuel → (∀ range ∈ vm.live, Meets (vm.ranges range) start end_ →
          (vm.ranges range).privateData = 0) →
        (removeProcessMemoryRange env fuel vm start end_).isSome) ∧
      ∀ result vm', removeProcessMemoryRange env fuel vm start end_ = some (result, vm') →
        ((∀ range ∈ vm.live, ¬ BreaksPage (vm.ranges range) start end_) →
          SameOutside vm vm' start end_) ∧
        (result.isOk = true →
          (∀ point, start ≤ point → point < end_ → vm'.view point = none) ∧
          (∀ range ∈ vm.live, Meets (vm.ranges range) start end_ →
            (vm.ranges range).privateData = 0) ∧
          (SameOutside vm vm' start end_ ↔
            ∀ range ∈ vm.live, ¬ BreaksPage (vm.ranges range) start end_))) ∧
    (∀ range ∈ vm.live, ∀ newend, pageSize ∣ newend → ∀ point,
      (extendUpProcessMemoryRange vm range newend).2.view point =
        if (extendUpProcessMemoryRange vm range newend).1 = none ∧
            (vm.ranges range).end_ ≤ point ∧ point < newend then
          some ((vm.ranges range).viewAt point)
        else vm.view point) ∧
    ∀ range ∈ vm.live, ∀ protflag point,
      (changeProtProcessMemoryRange env vm range protflag).2.view point =
        (vm.view point).map fun view =>
          if (changeProtProcessMemoryRange env vm range protflag).1 = none ∧
              Covers (vm.ranges range) point then
            { view with flag := protectedFlag view.flag protflag }
          else view := by
  refine ⟨?_, ?_, ?_, ?_, ?_⟩
  · intro range linked addr lower upper aligned
    exact split_same_iff mapped linked lower upper aligned rfl
  · intro surviving survivingLinked merging mergingLinked
    exact join_same_iff mapped survivingLinked mergingLinked
  · intro start end_ interval startAligned endAligned proper fuel
    obtain ⟨terminates, removes⟩ :=
      remove_view env mapped interval startAligned endAligned proper
    refine ⟨terminates, fun result vm' ran => ?_⟩
    obtain ⟨trims, removed⟩ := removes result vm' ran
    exact ⟨trims.same, fun ok => ⟨(removed ok).gone, (removed ok).quiet, (removed ok).whole,
      trims.same⟩⟩
  · intro range linked newend aligned point
    exact extendUp_view mapped linked aligned rfl point
  · intro range linked protflag point
    exact changeProt_view mapped linked rfl point

/-- Two anonymous neighbours with large and small pages, in different parts of the straight
mapping, and an attachment of XPMEM. -/
def neighbours : ProcessVm where
  ranges := fun range =>
    if range = 1 then ⟨0x400000, 0x600000, 0x32000, 0x40000000, 0, 0, 21, 0⟩
    else if range = 2 then ⟨0x600000, 0x800000, 0x32000, 0x50000000, 0, 0, 12, 0⟩
    else ⟨0xa00000, 0xa01000, 0x32000, 0, 9, 0, 0, 7⟩
  vmRangeTree := .node .black (.node .red .nil 1 .nil) 2 (.node .red .nil 3 .nil)
  rangeCache := [none, none, none, none]
  rangeCacheInd := 0
  region := ⟨0x200000, 0x800000000000, 0, 0, 0, 0x800000⟩
  straightVa := 0x40000000
  straightLen := 0x20000000
  heapExtension := 0
  clock := 0

theorem neighbours_mapped : Mapped neighbours where
  wellFormed := by decide +kernel
  straight := by decide +kernel
  region := ⟨by decide, by decide, by decide⟩
  cached := by simp [neighbours]
  straightFits := by decide +kernel

/-- The kernel heap has memory and the page table does not fail. -/
def neighbourEnv : Env := ⟨fun call => call + 4, fun _ => none, fun _ => none, fun _ => 0⟩

/-- The theorem at the two neighbours: a split in the middle of the second one, whose pages
are small, leaves the map alone. -/
theorem range_functions_on_view_split :
    (splitProcessMemoryRange neighbourEnv neighbours 2 0x601000).2.view 0x602000 =
      neighbours.view 0x602000 :=
  ((range_functions_on_view neighbours_mapped).1 2 (by decide) 0x601000 (by decide) (by decide)
    (by decide)).mpr (by unfold BreaksAt; decide) 0x602000

/-- The map is not left alone: a join loses straight address and page size of the merged
range, a split of a range with large pages drops the page size, the removal of a
page of it drops that of the pages around it, and the removal of a range with private data
does not end. -/
theorem range_functions_change_view :
    Mapped neighbours ∧
    ((joinProcessMemoryRange neighbours 1 2).1 = none ∧
      (joinProcessMemoryRange neighbours 1 2).2.view 0x600000 =
        some ⟨0x32000, none, 21, some 0x40200000, 0⟩ ∧
      neighbours.view 0x600000 = some ⟨0x32000, none, 12, some 0x50000000, 0⟩) ∧
    ((splitProcessMemoryRange neighbourEnv neighbours 1 0x401000).1.isOk = true ∧
      (splitProcessMemoryRange neighbourEnv neighbours 1 0x401000).2.view 0x400000 ≠
        neighbours.view 0x400000) ∧
    ((removeProcessMemoryRange neighbourEnv 5 neighbours 0x401000 0x402000).map
        fun result => (result.1.isOk, result.2.view 0x400000)) =
      some (true, some ⟨0x32000, none, 0, some 0x40000000, 0⟩) ∧
    ∀ fuel, removeProcessMemoryRange neighbourEnv fuel neighbours 0xa00000 0xa01000 = none := by
  refine ⟨neighbours_mapped, by decide +kernel, by decide +kernel, by decide +kernel, ?_⟩
  intro fuel
  cases fuel <;> rfl

end McKernel.Vm
