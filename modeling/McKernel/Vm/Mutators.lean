import McKernel.Vm.Ranges

/-!
# Specifications of the range functions

One specification for each function that edits ranges: it keeps the invariant, and the
ranges it does not name stay linked with their bounds.
-/

namespace McKernel.Vm

open RbTree ProcessVm List Function

variable {env : Env} {r addr : Nat} {ranges : Nat → VmRange} {error : Option Errno}
  {vm' : ProcessVm}

/-- The range is still there, as it was. -/
structure Retains (vm vm' : ProcessVm) (range : Nat) : Prop where
  linked : range ∈ vm'.live
  start : (vm'.ranges range).start = (vm.ranges range).start
  end_ : (vm'.ranges range).end_ = (vm.ranges range).end_

variable {entry : VmRange} {res : Except Errno Nat} {vm'' : ProcessVm}

theorem Retains.trans (first : Retains vm vm' r)
    (second : Retains vm' vm'' r) : Retains vm vm'' r :=
  ⟨second.linked, second.start.trans first.start, second.end_.trans first.end_⟩

theorem SameLayout.retains (same : SameLayout vm vm') (linked : r ∈ vm.live) :
    Retains vm vm' r :=
  ⟨same.live ▸ linked, same.start r linked, same.end_ r linked⟩

/-! ## Insertion -/

section Insertion

variable {vm : ProcessVm} {newrange : Nat}

theorem insertTurn_left :
    insertTurn ranges newrange r = .left ↔
      (ranges newrange).end_ ≤ (ranges r).start := by
  unfold insertTurn
  split_ifs <;> simp_all

theorem insertTurn_right :
    insertTurn ranges newrange r = .right ↔
      ¬ (ranges newrange).end_ ≤ (ranges r).start ∧
        (ranges r).end_ ≤ (ranges newrange).start := by
  unfold insertTurn
  split_ifs <;> simp_all

theorem insertTurn_stop (stops : insertTurn ranges newrange r = .stop) :
    Meets (ranges r) (ranges newrange).start (ranges newrange).end_ := by
  unfold insertTurn at stops
  split_ifs at stops
  constructor <;> omega

/-- An insertion either finds an overlapping range or links the new range between the
ranges below and the ranges above it. -/
theorem vmRangeInsert_spec (wellFormed : WellFormed vm)
    (nonempty : (vm.ranges newrange).start < (vm.ranges newrange).end_) :
    (∃ r ∈ vm.live,
        Meets (vm.ranges r) (vm.ranges newrange).start (vm.ranges newrange).end_ ∧
          vmRangeInsert vm newrange = (some .EFAULT, vm)) ∨
      ∃ front back tree, vm.live = front ++ back ∧ tree.toList = front ++ newrange :: back ∧
        (∀ o ∈ front, (vm.ranges o).end_ ≤ (vm.ranges newrange).start) ∧
        (∀ o ∈ back, (vm.ranges newrange).end_ ≤ (vm.ranges o).start) ∧
        vmRangeInsert vm newrange = (none, { vm with vmRangeTree := tree }) := by
  unfold vmRangeInsert
  cases landed : descend (insertTurn vm.ranges newrange) vm.vmRangeTree [] with
  | found zipper =>
    obtain ⟨stops, list⟩ := descend_found landed
    refine .inl ⟨zipper.value, ?_, insertTurn_stop stops, rfl⟩
    change zipper.value ∈ (Spine.plug vm.vmRangeTree []).toList
    rw [← list]
    simp
  | hole path =>
    have monotone : (Spine.plug vm.vmRangeTree []).toList.Pairwise fun x y =>
        (insertTurn vm.ranges newrange x = .left → insertTurn vm.ranges newrange y = .left) ∧
          (insertTurn vm.ranges newrange y = .right →
            insertTurn vm.ranges newrange x = .right) := by
      refine wellFormed.pairwise.imp_of_mem ?_
      intro left right leftLinked rightLinked apart
      have leftNonempty := (wellFormed.valid_of_mem leftLinked).nonempty
      have rightNonempty := (wellFormed.valid_of_mem rightLinked).nonempty
      simp only [insertTurn_left, insertTurn_right]
      omega
    obtain ⟨list, below, above⟩ := descend_hole landed monotone (by simp [Spine.before])
      (by simp [Spine.after])
    refine .inr ⟨path.before, path.after, link newrange path, list, by simp, ?_, ?_, rfl⟩
    · exact fun o mem => (insertTurn_right.mp (below o mem)).2
    · exact fun o mem => insertTurn_left.mp (above o mem)

theorem vmRangeInsert_at (wellFormed : WellFormed vm)
    (nonempty : (vm.ranges newrange).start < (vm.ranges newrange).end_)
    (position : vm.live = front ++ back)
    (below : ∀ o ∈ front, (vm.ranges o).end_ ≤ (vm.ranges newrange).start)
    (above : ∀ o ∈ back, (vm.ranges newrange).end_ ≤ (vm.ranges o).start) :
    ∃ tree, tree.toList = front ++ newrange :: back ∧
      vmRangeInsert vm newrange = (none, { vm with vmRangeTree := tree }) := by
  have right : ∀ o ∈ front, insertTurn vm.ranges newrange o = .right := by
    intro o inFront
    have apart := below o inFront
    have := (wellFormed.valid_of_mem (show o ∈ vm.live by simp [position, inFront])).nonempty
    exact insertTurn_right.mpr ⟨by omega, apart⟩
  obtain ⟨hole, landed, before, after⟩ := descend_at position right
    (fun o inBack => insertTurn_left.mpr (above o inBack))
  refine ⟨link newrange hole, by simp [before, after], ?_⟩
  rw [vmRangeInsert, landed]

end Insertion

/-- An address space in which all ranges of another one live on. -/
structure Extends (vm vm' : ProcessVm) : Prop where
  invariant : Invariant vm'
  region : vm'.region = vm.region
  retains : ∀ range ∈ vm.live, Retains vm vm' range

variable {newrange : Nat} {vm : ProcessVm}

theorem Extends.of_sameLayout (inv : Invariant vm)
    (same : SameLayout vm vm') (cache : vm'.rangeCache = vm.rangeCache) : Extends vm vm' where
  invariant := inv.of_sameLayout same (cache ▸ inv.cached)
  region := same.region
  retains _ linked := same.retains linked

theorem Extends.trans (first : Extends vm vm') (second : Extends vm' vm'') : Extends vm vm'' where
  invariant := second.invariant
  region := second.region.trans first.region
  retains r linked :=
    (first.retains r linked).trans
      (second.retains r (first.retains r linked).linked)

theorem Extends.insert (inv : Invariant vm) (valid : (vm.ranges newrange).Valid vm.region)
    (straight : pageSize ∣ (vm.ranges newrange).straightStart)
    (called : vmRangeInsert vm newrange = (error, vm')) : Extends vm vm' := by
  rcases vmRangeInsert_spec inv.wellFormed valid.nonempty with
    ⟨-, -, -, res⟩ | ⟨front, back, tree, position, list, below, above, res⟩
  · obtain ⟨-, rfl⟩ := Prod.mk.inj (called.symm.trans res)
    exact .of_sameLayout inv (.refl _) rfl
  · obtain ⟨-, rfl⟩ := Prod.mk.inj (called.symm.trans res)
    have kept : ∀ r ∈ vm.live, r ∈ tree.toList := by
      intro r linked
      rw [position] at linked
      rw [list]
      simp only [mem_append, mem_cons] at linked ⊢
      tauto
    exact ⟨⟨inv.toLayout.insert position list rfl rfl valid straight below above,
      fun r inCache => kept r (inv.cached r inCache)⟩, rfl,
      fun r linked => ⟨kept r linked, rfl, rfl⟩⟩

/-! ## Adding -/

theorem pageTable_eq (called : pageTable env vm = (error, vm')) : vm' = vm.tick := by
  cases called
  rfl

theorem ranges_vmRangeInsert
    (called : vmRangeInsert vm newrange = (error, vm')) : vm'.ranges = vm.ranges := by
  unfold vmRangeInsert at called
  split at called <;> (cases called; rfl)

/-- All ranges are left as they are, and on success there is a new one. -/
structure Adds (vm vm' : ProcessVm) (result : Except Errno Nat) (entry : VmRange) : Prop
    extends Extends vm vm' where
  kept : ∀ range ∈ vm.live, vm'.ranges range = vm.ranges range
  added : ∀ range, result = .ok range → range ∈ vm'.live ∧ vm'.ranges range = entry

theorem add_spec (inv : Invariant vm)
    (nonempty : start < end_) (startAligned : pageSize ∣ start) (endAligned : pageSize ∣ end_)
    (called : addProcessMemoryRange env vm start end_ phys flag memobj off pgshift =
      (res, vm')) :
    Adds vm vm' res ⟨start, end_, flag, 0, memobj, off, pgshift, 0⟩ := by
  unfold addProcessMemoryRange at called
  split at called
  · obtain ⟨rfl, rfl⟩ := Prod.mk.inj called
    exact ⟨.of_sameLayout inv (.refl _) rfl, fun _ _ => rfl, by simp⟩
  next inside =>
    simp only [not_or, Nat.not_lt] at inside
    split at called
    next vm₁ allocated =>
      obtain ⟨rfl, -⟩ := kmalloc_spec allocated
      obtain ⟨rfl, rfl⟩ := Prod.mk.inj called
      exact ⟨.of_sameLayout inv (sameLayout_tick _) rfl, fun _ _ => rfl, by simp⟩
    next r vm₁ allocated =>
      obtain ⟨rfl, fresh⟩ := kmalloc_spec allocated
      have fresh := fresh r rfl
      simp only at called
      generalize stored : vm.tick.write r
        ⟨start, end_, flag, 0, memobj, off, pgshift, 0⟩ = vm₂ at called
      have same : SameLayout vm vm₂ := by
        rw [← stored]
        refine (sameLayout_tick vm).trans (sameLayout_write ?_)
        intro linked
        exact absurd linked fresh
      obtain ⟨error, vm₃, mapped, quiet⟩ : ∃ error vm₃,
          (if mapsPages phys flag then pageTable env vm₂ else (none, vm₂)) = (error, vm₃) ∧
            (vm₃ = vm₂ ∨ vm₃ = vm₂.tick) := by
        split
        · exact ⟨_, _, rfl, .inr rfl⟩
        · exact ⟨_, _, rfl, .inl rfl⟩
      have entry : vm₃.ranges r = ⟨start, end_, flag, 0, memobj, off, pgshift, 0⟩ := by
        rcases quiet with rfl | rfl <;> simp [← stored, write, tick]
      have kept : ∀ o ∈ vm.live, vm₃.ranges o = vm.ranges o := by
        intro o linked
        have ne : o ≠ r := by
          rintro rfl
          exact fresh linked
        rcases quiet with rfl | rfl <;> simp [← stored, write, tick, ne]
      have mappedExtends : Extends vm vm₃ := by
        rcases quiet with rfl | rfl
        · exact .of_sameLayout inv same (by rw [← stored]; rfl)
        · exact .of_sameLayout inv (same.trans (sameLayout_tick _)) (by rw [← stored]; rfl)
      rw [mapped] at called
      cases error with
      | some error =>
        obtain ⟨rfl, rfl⟩ := Prod.mk.inj called
        exact ⟨mappedExtends, kept, by simp⟩
      | none =>
        have valid : (vm₃.ranges r).Valid vm₃.region := by
          rw [entry, mappedExtends.region]
          exact ⟨nonempty, inside.1, inside.2, startAligned, endAligned⟩
        have aligned : pageSize ∣ (vm₃.ranges r).straightStart := by simp [entry]
        have inserts {error : Option Errno} (inserted : vmRangeInsert vm₃ r = (error, vm')) :
            Extends vm vm' ∧ vm'.ranges = vm₃.ranges :=
          ⟨mappedExtends.trans (.insert mappedExtends.invariant valid aligned inserted),
            ranges_vmRangeInsert inserted⟩
        simp only at called
        split at called
        next inserted =>
          obtain ⟨rfl, rfl⟩ := Prod.mk.inj called
          obtain ⟨extends_, ranges⟩ := inserts inserted
          exact ⟨extends_, ranges ▸ kept, by simp⟩
        next inserted =>
          obtain ⟨rfl, rfl⟩ := Prod.mk.inj called
          obtain ⟨extends_, ranges⟩ := inserts inserted
          refine ⟨extends_, ranges ▸ kept, ?_⟩
          rintro _ ⟨⟩
          refine ⟨?_, ranges ▸ entry⟩
          unfold vmRangeInsert at inserted
          split at inserted
          · cases inserted
          · cases inserted
            simp [live]

/-! ## Splitting -/

/-- A range is cut in two: it keeps the part below `addr`, the new range behind it in the
tree gets the rest. -/
structure Splits (vm vm' : ProcessVm) (range newrange addr : Nat) : Prop where
  invariant : Invariant vm'
  region : vm'.region = vm.region
  fresh : newrange ∉ vm.live
  live : ∃ front back, vm.live = front ++ range :: back ∧
    vm'.live = front ++ range :: newrange :: back
  lowerStart : (vm'.ranges range).start = (vm.ranges range).start
  lowerEnd : (vm'.ranges range).end_ = addr
  upperStart : (vm'.ranges newrange).start = addr
  upperEnd : (vm'.ranges newrange).end_ = (vm.ranges range).end_
  retains : ∀ other ∈ vm.live, other ≠ range → Retains vm vm' other

theorem Invariant.writeFresh (inv : Invariant vm) (fresh : address ∉ vm.live) :
    Invariant (vm.write address entry) :=
  inv.of_sameLayout (sameLayout_write fun linked => absurd linked fresh) inv.cached

theorem splits_of_insert
    (inv : Invariant vm) (linked : r ∈ vm.live) (fresh : newrange ∉ vm.live)
    (lower : (vm.ranges r).start < addr) (upper : addr < (vm.ranges r).end_)
    (aligned : pageSize ∣ addr)
    (called : vmRangeInsert ((vm.write newrange entry).setEnd r addr) newrange = (error, vm'))
    (entryStart : entry.start = addr) (entryEnd : entry.end_ = (vm.ranges r).end_)
    (entryStraight : pageSize ∣ entry.straightStart) :
    error = none ∧ Splits vm vm' r newrange addr := by
  obtain ⟨front, back, position⟩ := append_of_mem linked
  have around := inv.wellFormed.around position
  have old := inv.wellFormed.valid_of_mem linked
  have ne : ∀ o ∈ vm.live, o ≠ newrange := by
    rintro o otherLinked rfl
    exact fresh otherLinked
  have unwritten : ∀ o ∈ vm.live, (vm.write newrange entry).ranges o = vm.ranges o := by
    intro o otherLinked
    simp [write, ne o otherLinked]
  have written : (vm.write newrange entry).ranges newrange = entry := by simp [write]
  have stored : Invariant (vm.write newrange entry) := inv.writeFresh fresh
  have shortened : Invariant ((vm.write newrange entry).setEnd r addr) := by
    refine ⟨stored.toLayout.setEnd position ?_ ?_ aligned ?_, stored.cached⟩
    · rwa [unwritten r linked]
    · exact Nat.le_trans (Nat.le_of_lt upper) old.upper
    · intro o mem
      have apart := around.2 o mem
      rw [unwritten o (by simp [position, mem])]
      omega
  generalize edited : (vm.write newrange entry).setEnd r addr = vm₁ at shortened called
  have newStart : (vm₁.ranges newrange).start = addr := by simp [← edited, written, entryStart]
  have newEnd : (vm₁.ranges newrange).end_ = (vm.ranges r).end_ := by
    rw [← edited, end_setEnd_of_ne (ne r linked).symm, written, entryEnd]
  have newStraight : pageSize ∣ (vm₁.ranges newrange).straightStart := by
    simpa [← edited, written] using entryStraight
  have startSame : ∀ o ∈ vm.live, (vm₁.ranges o).start = (vm.ranges o).start := by
    intro o otherLinked
    simp [← edited, unwritten o otherLinked]
  have endSame : ∀ o ∈ vm.live, o ≠ r →
      (vm₁.ranges o).end_ = (vm.ranges o).end_ := by
    intro o otherLinked notRange
    rw [← edited, end_setEnd_of_ne notRange, unwritten o otherLinked]
  have rangeEnd : (vm₁.ranges r).end_ = addr := by simp [← edited]
  have position₁ : vm₁.live = (front ++ [r]) ++ back := by simp [← edited, ← position]; rfl
  have below : ∀ o ∈ front ++ [r], (vm₁.ranges o).end_ ≤ addr := by
    intro o mem
    by_cases same : o = r
    · exact Nat.le_of_eq (same ▸ rangeEnd)
    · have inFront : o ∈ front := by simpa [same] using mem
      have apart := around.1 o inFront
      rw [endSame o (by simp [position, inFront]) same]
      omega
  have above : ∀ o ∈ back, (vm.ranges r).end_ ≤ (vm₁.ranges o).start := by
    intro o mem
    rw [startSame o (by simp [position, mem])]
    exact around.2 o mem
  have regionSame : vm₁.region = vm.region := by rw [← edited]; rfl
  have valid : (vm₁.ranges newrange).Valid vm₁.region := by
    rw [regionSame]
    constructor <;> simp only [newStart, newEnd]
    · exact upper
    · exact Nat.le_trans old.lower (Nat.le_of_lt lower)
    · exact old.upper
    · exact aligned
    · exact old.endAligned
  obtain ⟨tree, list, res⟩ := vmRangeInsert_at shortened.wellFormed valid.nonempty position₁
    (by rw [newStart]; exact below) (by rw [newEnd]; exact above)
  have list' : tree.toList = front ++ r :: newrange :: back := by simpa using list
  have kept : ∀ o ∈ vm.live, o ∈ tree.toList := by
    intro o otherLinked
    rw [position] at otherLinked
    rw [list']
    simp only [mem_append, mem_cons] at otherLinked ⊢
    tauto
  obtain ⟨rfl, rfl⟩ := Prod.mk.inj (called.symm.trans res)
  refine ⟨rfl, ?_⟩
  constructor
  case invariant =>
    refine ⟨shortened.toLayout.insert position₁ list rfl rfl valid newStraight ?_ ?_, ?_⟩
    · rw [newStart]
      exact below
    · rw [newEnd]
      exact above
    · intro o inCache
      exact kept o (inv.cached o (by rw [← edited] at inCache; exact inCache))
  case region => exact regionSame
  case fresh => exact fresh
  case live => exact ⟨front, back, position, list'⟩
  case lowerStart => exact startSame r linked
  case lowerEnd => exact rangeEnd
  case upperStart => exact newStart
  case upperEnd => exact newEnd
  case retains =>
    intro o otherLinked notRange
    exact ⟨kept o otherLinked, startSame o otherLinked,
      endSame o otherLinked notRange⟩

theorem Splits.of_sameLayout
    (splits : Splits vm₁ vm' r newrange addr) (same : SameLayout vm vm₁)
    (linked : r ∈ vm.live) : Splits vm vm' r newrange addr where
  invariant := splits.invariant
  region := splits.region.trans same.region
  fresh := same.live ▸ splits.fresh
  live := same.live ▸ splits.live
  lowerStart := splits.lowerStart.trans (same.start r linked)
  lowerEnd := splits.lowerEnd
  upperStart := splits.upperStart
  upperEnd := splits.upperEnd.trans (same.end_ r linked)
  retains o otherLinked ne :=
    (same.retains otherLinked).trans (splits.retains o (same.live ▸ otherLinked) ne)

theorem sameLayout_dropPgshift (vm : ProcessVm) (r addr : Nat) :
    SameLayout vm (dropPgshift vm r addr) := by
  unfold dropPgshift
  split
  · exact sameLayout_write fun _ => ⟨rfl, rfl, rfl⟩
  · exact .refl _

theorem rangeCache_dropPgshift (vm : ProcessVm) (r addr : Nat) :
    (dropPgshift vm r addr).rangeCache = vm.rangeCache := by
  unfold dropPgshift
  split <;> rfl

theorem dvd_pageSize : pageSize ∣ 2 ^ 64 := ⟨2 ^ 52, rfl⟩

theorem dvd_splitStraight (inv : Invariant vm) (linked : r ∈ vm.live)
    (aligned : pageSize ∣ addr) :
    pageSize ∣ if (vm.ranges r).straightStart ≠ 0 then
      ULong.add (vm.ranges r).straightStart (ULong.sub addr (vm.ranges r).start)
      else 0 := by
  split
  · refine ULong.dvd_add dvd_pageSize (inv.straight r linked) ?_
    exact ULong.dvd_sub dvd_pageSize aligned
      (inv.wellFormed.valid_of_mem linked).startAligned
  · exact Nat.dvd_zero _

/-- Splitting a linked range strictly inside either fails and changes no bounds, or cuts
the range in two. -/
theorem split_spec (inv : Invariant vm)
    (linked : r ∈ vm.live) (lower : (vm.ranges r).start < addr)
    (upper : addr < (vm.ranges r).end_) (aligned : pageSize ∣ addr)
    (called : splitProcessMemoryRange env vm r addr = (res, vm')) :
    (∃ error, res = .error error ∧ Extends vm vm' ∧ vm'.live = vm.live ∧
        vm'.ranges = (dropPgshift vm r addr).ranges) ∨
      ∃ newrange, res = .ok newrange ∧ Splits vm vm' r newrange addr := by
  unfold splitProcessMemoryRange at called
  have same := (sameLayout_dropPgshift vm r addr).trans (sameLayout_tick _)
  have cache := rangeCache_dropPgshift vm r addr
  split at called
  next error vm₁ mapped =>
    obtain ⟨rfl, rfl⟩ := Prod.mk.inj called
    cases pageTable_eq mapped
    exact .inl ⟨error, rfl, .of_sameLayout inv same cache, same.live, rfl⟩
  next vm₁ mapped =>
    cases pageTable_eq mapped
    have same := same.trans (sameLayout_tick _)
    split at called
    next vm₂ allocated =>
      obtain ⟨rfl, rfl⟩ := Prod.mk.inj called
      cases (kmalloc_spec allocated).1
      exact .inl ⟨_, rfl, .of_sameLayout inv same cache, same.live, rfl⟩
    next newrange vm₂ allocated =>
      have fresh := (kmalloc_spec allocated).2 newrange rfl
      cases (kmalloc_spec allocated).1
      replace fresh : newrange ∉ (dropPgshift vm r addr).tick.tick.live := fresh
      replace cache : (dropPgshift vm r addr).tick.tick.rangeCache = vm.rangeCache := cache
      generalize (dropPgshift vm r addr).tick.tick = vm₂ at called same cache fresh
      have invariant₂ : Invariant vm₂ := inv.of_sameLayout same (cache ▸ inv.cached)
      have linked₂ : r ∈ vm₂.live := same.live ▸ linked
      rw [← same.start r linked] at lower
      rw [← same.end_ r linked] at upper
      have straight := dvd_splitStraight invariant₂ linked₂ aligned
      simp only at called
      split at called
      next error vm₃ inserted =>
        have spec := splits_of_insert invariant₂ linked₂ fresh lower upper aligned inserted rfl rfl
          straight
        cases spec.1
      next vm₃ inserted =>
        obtain ⟨rfl, rfl⟩ := Prod.mk.inj called
        have spec := splits_of_insert invariant₂ linked₂ fresh lower upper aligned inserted rfl rfl
          straight
        exact .inr ⟨newrange, rfl, spec.2.of_sameLayout same linked⟩

/-! ## Joining, extending and changing permissions -/

theorem replaceCached_linked {o : Option Nat} {linked : List Nat}
    (others : ∀ cached, some cached ∈ vm.rangeCache → cached ≠ r → cached ∈ linked)
    (replacement : ∀ cached ∈ o, cached ∈ linked) :
    ∀ cached, some cached ∈ (vm.replaceCached r o).rangeCache → cached ∈ linked := by
  intro cached mem
  simp only [replaceCached, mem_map] at mem
  obtain ⟨entry, inCache, res⟩ := mem
  split at res
  · exact replacement cached res
  next ne =>
    subst res
    exact others cached inCache fun same => ne (same ▸ rfl)

theorem eraseRange_setEnd (vm : ProcessVm) (r o newend : Nat) :
    eraseRange (vm.setEnd r newend) o = (eraseRange vm o).setEnd r newend := by
  have located : (vm.setEnd r newend).locate o = vm.locate o := rfl
  unfold eraseRange
  rw [located]
  split <;> rfl

theorem WellFormed.neighbours (wellFormed : WellFormed vm)
    (leftLinked : left ∈ vm.live) (rightLinked : right ∈ vm.live)
    (touch : (vm.ranges left).end_ = (vm.ranges right).start) :
    ∃ front back, vm.live = front ++ left :: right :: back := by
  obtain ⟨front, back, position⟩ := append_of_mem rightLinked
  have around := wellFormed.around position
  have leftNonempty := (wellFormed.valid_of_mem leftLinked).nonempty
  have rightNonempty := (wellFormed.valid_of_mem rightLinked).nonempty
  have inFront : left ∈ front := by
    rw [position, mem_append, mem_cons] at leftLinked
    rcases leftLinked with inFront | rfl | inBack
    · exact inFront
    · omega
    · have := around.2 left inBack
      omega
  obtain ⟨outer, between, rfl⟩ := append_of_mem inFront
  have leftPosition : vm.live = outer ++ left :: (between ++ right :: back) := by
    rw [position, append_assoc, cons_append]
  have empty : between = [] := by
    refine eq_nil_iff_forall_not_mem.mpr fun o mem => ?_
    have behind := (wellFormed.around leftPosition).2 o (by simp [mem])
    have ahead := around.1 o (by simp [mem])
    have nonempty := (wellFormed.valid_of_mem
      (show o ∈ vm.live by simp [position, mem])).nonempty
    omega
  subst empty
  exact ⟨outer, back, by simpa using leftPosition⟩

theorem join_spec {surviving merging : Nat} (inv : Invariant vm)
    (survivingLinked : surviving ∈ vm.live) (mergingLinked : merging ∈ vm.live)
    (called : joinProcessMemoryRange vm surviving merging = (error, vm')) :
    Invariant vm' := by
  unfold joinProcessMemoryRange at called
  simp only at called
  split_ifs at called with mismatch off
  · obtain ⟨-, rfl⟩ := Prod.mk.inj called
    exact inv
  · obtain ⟨-, rfl⟩ := Prod.mk.inj called
    exact inv
  · obtain ⟨-, rfl⟩ := Prod.mk.inj called
    have touch : (vm.ranges surviving).end_ = (vm.ranges merging).start := by
      by_contra apart
      exact mismatch (.inl apart)
    obtain ⟨front, back, position⟩ :=
      inv.wellFormed.neighbours survivingLinked mergingLinked touch
    have mergingPosition : vm.live = (front ++ [surviving]) ++ merging :: back := by
      simpa using position
    have valid := inv.wellFormed.valid_of_mem survivingLinked
    have mergingValid := inv.wellFormed.valid_of_mem mergingLinked
    have erased : (eraseRange vm merging).live = front ++ surviving :: back := by
      rw [live_eraseRange inv.wellFormed.nodup mergingPosition]
      simp
    have layout : Layout (eraseRange vm merging) :=
      inv.toLayout.erase mergingPosition (by simpa using erased) ranges_eraseRange
        region_eraseRange
    rw [eraseRange_setEnd]
    refine ⟨(layout.setEnd erased ?_ ?_ mergingValid.endAligned ?_).of_sameLayout
      (.of_eq rfl rfl rfl), ?_⟩
    · simp only [ranges_eraseRange]
      have := valid.nonempty
      have := mergingValid.nonempty
      omega
    · simpa using mergingValid.upper
    · simpa using (inv.wellFormed.around mergingPosition).2
    · refine replaceCached_linked ?_ ?_
      · intro cached inCache ne
        have linked := inv.cached cached (by simpa using inCache)
        change cached ∈ (eraseRange vm merging).live
        rw [position] at linked
        rw [erased]
        simp only [mem_append, mem_cons] at linked ⊢
        tauto
      · rintro _ ⟨⟩
        change surviving ∈ (eraseRange vm merging).live
        simp [erased]

theorem extendUp_spec (inv : Invariant vm)
    (linked : r ∈ vm.live) (aligned : pageSize ∣ newend)
    (called : extendUpProcessMemoryRange vm r newend = (error, vm')) :
    Invariant vm' ∧ (error ≠ none → vm' = vm) := by
  unfold extendUpProcessMemoryRange at called
  simp only at called
  split_ifs at called with shorter outside occupied
  · obtain ⟨-, rfl⟩ := Prod.mk.inj called
    exact ⟨inv, fun _ => rfl⟩
  · obtain ⟨-, rfl⟩ := Prod.mk.inj called
    exact ⟨inv, fun _ => rfl⟩
  · obtain ⟨-, rfl⟩ := Prod.mk.inj called
    exact ⟨inv, fun _ => rfl⟩
  · obtain ⟨rfl, rfl⟩ := Prod.mk.inj called
    obtain ⟨front, back, position⟩ := append_of_mem linked
    have valid := inv.wellFormed.valid_of_mem linked
    rw [nextProcessMemoryRange_eq inv.wellFormed.nodup position] at occupied
    refine ⟨⟨inv.toLayout.setEnd position ?_ (by omega) aligned ?_, inv.cached⟩,
      fun failed => absurd rfl failed⟩
    · have := valid.nonempty
      omega
    · cases back with
      | nil => simp
      | cons next rest =>
        have nextFree : newend ≤ (vm.ranges next).start := by simpa using occupied
        have nextPosition : vm.live = (front ++ [r]) ++ next :: rest := by
          simpa using position
        have nextNonempty := (inv.wellFormed.valid_of_mem
          (show next ∈ vm.live by simp [position])).nonempty
        intro o mem
        rcases mem_cons.mp mem with rfl | inRest
        · exact nextFree
        · have := (inv.wellFormed.around nextPosition).2 o inRest
          omega

theorem extends_tick (inv : Invariant vm) : Extends vm vm.tick :=
  .of_sameLayout inv (sameLayout_tick vm) rfl

theorem extends_setFlag (inv : Invariant vm) (r flag : Nat) :
    Extends vm (vm.setFlag r flag) :=
  .of_sameLayout inv (sameLayout_write fun _ => ⟨rfl, rfl, rfl⟩) rfl

theorem changeProt_spec (inv : Invariant vm)
    (called : changeProtProcessMemoryRange env vm r protflag = (error, vm')) :
    Extends vm vm' := by
  unfold changeProtProcessMemoryRange at called
  simp only at called
  have ticked := extends_tick inv
  split at called
  · obtain ⟨-, rfl⟩ := Prod.mk.inj called
    exact .of_sameLayout inv (.refl _) rfl
  · split at called
    · obtain ⟨-, rfl⟩ := Prod.mk.inj called
      exact extends_setFlag inv ..
    · split at called
      next error vm₁ mapped =>
        cases pageTable_eq mapped
        split at called
        · obtain ⟨-, rfl⟩ := Prod.mk.inj called
          exact ticked.trans (extends_setFlag ticked.invariant ..)
        · obtain ⟨-, rfl⟩ := Prod.mk.inj called
          exact ticked
      next vm₁ mapped =>
        cases pageTable_eq mapped
        obtain ⟨-, rfl⟩ := Prod.mk.inj called
        exact ticked.trans (extends_setFlag ticked.invariant ..)

/-! ## Removing -/

theorem free_spec (inv : Invariant vm) (linked : r ∈ vm.live) :
    Invariant (freeProcessMemoryRange vm r) ∧
      (freeProcessMemoryRange vm r).region = vm.region ∧
      ∀ o ∈ vm.live, o ≠ r → Retains vm (freeProcessMemoryRange vm r) o := by
  obtain ⟨front, back, position⟩ := append_of_mem linked
  have nodup := inv.wellFormed.nodup
  have erased : (eraseRange vm r).live = front ++ back := live_eraseRange nodup position
  have kept : ∀ o ∈ vm.live, o ≠ r → o ∈ (eraseRange vm r).live := by
    intro o otherLinked ne
    rw [position] at otherLinked
    rw [erased]
    simp only [mem_append, mem_cons] at otherLinked ⊢
    tauto
  have uncached : Invariant ((eraseRange vm r).replaceCached r none) := by
    refine ⟨(inv.toLayout.erase position erased ranges_eraseRange
      region_eraseRange).of_sameLayout (.of_eq rfl rfl rfl), replaceCached_linked ?_ (by simp)⟩
    intro cached inCache ne
    exact kept cached (inv.cached cached (by simpa using inCache)) ne
  obtain ⟨vm', freed, same, cache⟩ : ∃ vm', freeProcessMemoryRange vm r = vm' ∧
      SameLayout ((eraseRange vm r).replaceCached r none) vm' ∧
        vm'.rangeCache = ((eraseRange vm r).replaceCached r none).rangeCache := by
    refine ⟨_, rfl, ?_, ?_⟩ <;> unfold freeProcessMemoryRange <;> simp only <;> split
    · exact .of_eq rfl rfl rfl
    · exact .refl _
    · rfl
    · rfl
  have step : Extends _ vm' := .of_sameLayout uncached same cache
  rw [freed]
  refine ⟨step.invariant, step.region.trans region_eraseRange, ?_⟩
  intro o otherLinked ne
  have here : Retains vm ((eraseRange vm r).replaceCached r none) o :=
    ⟨kept o otherLinked ne, by simp [replaceCached], by simp [replaceCached]⟩
  exact here.trans (step.retains o here.linked)

end McKernel.Vm
