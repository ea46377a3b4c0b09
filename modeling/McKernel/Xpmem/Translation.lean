import McKernel.Xpmem.Model

/-!
# What the addresses of an attachment mean

The window of the attachment stays where it is, because a `munmap` of a part of it does not
return.  Splits, joins and other mappings regroup its ranges and leave each address to it, so
that a fault looks up the page of the owner at the same offset.  What it maps is the page
that the owner's entry begins with.
-/

namespace McKernel.Xpmem

open Nat List State

variable {address page start stop base seg size : Nat} {r : Range} {s : State} {kind : Bool}

theorem Range.contains_iff :
    r.contains address = true ↔ r.start ≤ address ∧ address < r.stop := by
  simp [Range.contains]

theorem lt_of_lt_roundUp {size : Nat} (alignedBase : base % pageSize = 0)
    (alignedPage : page % pageSize = 0) (below : page < base + roundUp size) :
    page < base + size := by
  simp only [roundUp, pageSize] at *
  omega

theorem le_roundUp (size : Nat) : size ≤ roundUp size := by
  simp only [roundUp, pageSize]
  omega

/-- A range with this `private_data` has the address. -/
def State.Holds (state : State) (attached : Bool) (address : Nat) : Prop :=
  ∃ range ∈ state.ranges, range.attached = attached ∧ range.contains address = true

/-- The attachment means what it meant when it was made. -/
structure Intact (base seg size : Nat) (state : State) : Prop where
  baseAligned : base % pageSize = 0
  att : state.att = ⟨seg, base, size + seg % pageSize, false⟩
  nonempty : ∀ range ∈ state.ranges, range.start < range.stop
  window : ∀ address, state.Holds true address ↔
    base ≤ address ∧ address < base + roundUp (size + seg % pageSize)
  apart : ∀ address, state.Holds true address → ¬ state.Holds false address
  translated : ∀ page, state.Holds true page → ∀ phys, state.table page = some phys →
    ∃ entry, state.owner (pageOf seg + (page - base)) = some entry ∧ entry.phys = phys

theorem holds_singleton (range : Range) (holds : s.ranges = [range]) :
    s.Holds kind address ↔ range.attached = kind ∧ range.contains address = true := by
  simp [State.Holds, holds]

theorem intact_attach (aligned : base % pageSize = 0) (pos : 0 < size) :
    Intact base seg size (attach base seg size) where
  baseAligned := aligned
  att := rfl
  nonempty r isRange := by
    obtain rfl := mem_singleton.mp isRange
    have := le_roundUp (size + seg % pageSize)
    simp only
    omega
  window address := by
    rw [holds_singleton _ rfl, Range.contains_iff]
    simp
  apart address _ holds := by
    rw [holds_singleton _ rfl] at holds
    cases holds.1
  translated _ _ _ mapped := nomatch mapped

/-! ## Splits, joins and other mappings -/

/-- Some ranges of one kind give way to others of that kind with the same addresses. -/
theorem holds_exchange {next : State} (gone parts : List Range)
    (mem : ∀ r, r ∈ next.ranges ↔ (r ∈ s.ranges ∧ r ∉ gone) ∨ r ∈ parts)
    (isGone : ∀ r ∈ gone, r ∈ s.ranges ∧ r.attached = kind)
    (sameKind : ∀ part ∈ parts, part.attached = kind)
    (same : ∀ address, (∃ r ∈ gone, r.contains address = true) ↔
      ∃ part ∈ parts, part.contains address = true) (other : Bool) (address : Nat) :
    next.Holds other address ↔ s.Holds other address := by
  constructor
  · rintro ⟨r, isRange, isOther, contains⟩
    rcases (mem r).mp isRange with ⟨isOld, -⟩ | isPart
    · exact ⟨r, isOld, isOther, contains⟩
    · obtain ⟨old, oldGone, inOld⟩ := (same address).mpr ⟨r, isPart, contains⟩
      refine ⟨old, (isGone old oldGone).1, ?_, inOld⟩
      rw [(isGone old oldGone).2, ← sameKind r isPart, isOther]
  · rintro ⟨r, isRange, isOther, contains⟩
    by_cases goes : r ∈ gone
    · obtain ⟨part, isPart, inPart⟩ := (same address).mp ⟨r, goes, contains⟩
      refine ⟨part, (mem part).mpr (.inr isPart), ?_, inPart⟩
      rw [sameKind part isPart, ← (isGone r goes).2, isOther]
    · exact ⟨r, (mem r).mpr (.inl ⟨isRange, goes⟩), isOther, contains⟩

theorem holds_replace {parts : List Range} (isRange : r ∈ s.ranges)
    (sameKind : ∀ part ∈ parts, part.attached = r.attached)
    (same : ∀ address, r.contains address = true ↔
      ∃ part ∈ parts, part.contains address = true) (other : Bool) (address : Nat) :
    (s.replace r parts).Holds other address ↔ s.Holds other address :=
  holds_exchange [r] parts (fun o => by simp [State.replace]) (by simp [isRange]) sameKind
    (by simpa using same) other address

namespace Intact

variable (intact : Intact base seg size s)

include intact

/-- The ranges are grouped in another way. -/
theorem regroup {ranges : List Range} {lock : Lock}
    (nonempty : ∀ r ∈ ranges, r.start < r.stop)
    (same : ∀ kind address,
      { s with ranges, lock }.Holds kind address ↔ s.Holds kind address) :
    Intact base seg size { s with ranges, lock } where
  baseAligned := intact.baseAligned
  att := intact.att
  nonempty := nonempty
  window address := (same true address).trans (intact.window address)
  apart address holds foreign :=
    intact.apart address ((same true address).mp holds) ((same false address).mp foreign)
  translated page holds := intact.translated page ((same true page).mp holds)

theorem replace_nonempty {parts : List Range} (parted : ∀ part ∈ parts, part.start < part.stop) :
    ∀ o ∈ (s.replace r parts).ranges, o.start < o.stop := by
  intro o isRange
  rcases mem_append.mp isRange with isOld | isPart
  · exact intact.nonempty o (mem_filter.mp isOld).1
  · exact parted o isPart

theorem split (isRange : r ∈ s.ranges) (above : r.start < page) (below : page < r.stop) :
    Intact base seg size
      (s.replace r [{ r with stop := page }, { r with start := page }]) := by
  refine intact.regroup (intact.replace_nonempty ?_) (holds_replace isRange ?_ ?_)
  · simp [above, below]
  · simp
  · intro address
    simp only [mem_cons, not_mem_nil, or_false, exists_eq_or_imp, exists_eq_left,
      Range.contains_iff]
    omega

theorem join {surviving merging : Range} (isSurviving : surviving ∈ s.ranges)
    (isMerging : merging ∈ s.ranges) (adjacent : surviving.stop = merging.start)
    (sameKind : surviving.attached = merging.attached) :
    Intact base seg size ((s.replace merging []).replace surviving
      [{ surviving with stop := merging.stop }]) := by
  have survivingNonempty := intact.nonempty surviving isSurviving
  have mergingNonempty := intact.nonempty merging isMerging
  refine intact.regroup ?_ (holds_exchange [surviving, merging]
    [{ surviving with stop := merging.stop }]
    (fun o => by simp [State.replace, and_assoc, and_comm]) ?_
    (forall_mem_singleton.mpr rfl) ?_)
  · intro o isRange
    simp only [State.replace, append_nil, mem_append, mem_filter,
      mem_singleton] at isRange
    rcases isRange with isOld | rfl
    · exact intact.nonempty o isOld.1.1
    · simp only
      omega
  · simp [isSurviving, isMerging, sameKind]
  · intro address
    simp only [mem_cons, not_mem_nil, or_false, exists_eq_or_imp, exists_eq_left,
      Range.contains_iff]
    omega

theorem mmap (pos : start < stop)
    (vacant : ∀ r ∈ s.ranges, r.stop ≤ start ∨ stop ≤ r.start) :
    Intact base seg size { s with ranges := ⟨start, stop, false⟩ :: s.ranges } := by
  have attached : ∀ address, { s with ranges := ⟨start, stop, false⟩ :: s.ranges }.Holds
      true address ↔ s.Holds true address := by
    simp [State.Holds]
  refine ⟨intact.baseAligned, intact.att, ?_, fun address => ?_, fun address holds => ?_,
    fun page holds => intact.translated page ((attached page).mp holds)⟩
  · rintro r (_ | ⟨_, isRange⟩)
    · exact pos
    · exact intact.nonempty r isRange
  · exact (attached address).trans (intact.window address)
  · have before := (attached address).mp holds
    rintro ⟨r, _ | ⟨_, isRange⟩, isForeign, contains⟩
    · -- The new range has no address of a range that is there.
      obtain ⟨old, isOld, -, inOld⟩ := before
      have := vacant old isOld
      rw [Range.contains_iff] at contains inOld
      simp only at contains
      omega
    · exact intact.apart address before ⟨r, isRange, isForeign, contains⟩

/-! ## Removals -/

theorem splitOff (isRange : r ∈ s.ranges) (above : r.start < stop) (below : start < r.stop)
    (pos : start < stop) (lock : Lock) :
    Intact base seg size { s.splitOff r start stop with lock } := by
  have nonempty := intact.nonempty r isRange
  refine intact.regroup (intact.replace_nonempty ?_) (holds_replace isRange ?_ ?_)
  · intro part isPart
    simp only [mem_append, mem_ite_nil_right, mem_singleton] at isPart
    rcases isPart with (⟨front, rfl⟩ | rfl) | ⟨back, rfl⟩
    · exact front
    · simp only [cut]
      omega
    · exact back
  · intro part isPart
    simp only [mem_append, mem_ite_nil_right, mem_singleton] at isPart
    rcases isPart with (⟨-, rfl⟩ | rfl) | ⟨-, rfl⟩ <;> rfl
  · intro address
    simp only [mem_append, mem_ite_nil_right, mem_singleton, or_and_right,
      exists_or, and_assoc, exists_and_left, exists_eq_left, Range.contains_iff, cut]
    omega

theorem free (isForeign : r.attached = false) (isRange : r ∈ s.ranges) :
    Intact base seg size (s.free r) := by
  have nonempty := intact.nonempty r isRange
  have kept : ∀ {o : Range}, o ∈ (s.free r).ranges → o ∈ s.ranges :=
    fun isOther => (mem_filter.mp isOther).1
  have attached : ∀ address, (s.free r).Holds true address ↔ s.Holds true address := by
    intro address
    refine ⟨fun ⟨o, isOther, rest⟩ => ⟨o, kept isOther, rest⟩, fun ⟨o, isOther, rest⟩ => ?_⟩
    refine ⟨o, mem_filter.mpr ⟨isOther, ?_⟩, rest⟩
    -- A range with the bounds of the one that goes would have its addresses.
    rw [decide_eq_true_eq]
    rintro ⟨sameStart, sameStop⟩
    refine intact.apart r.start ⟨o, isOther, rest.1, ?_⟩ ⟨r, isRange, isForeign, ?_⟩ <;>
      rw [Range.contains_iff] <;> omega
  refine ⟨intact.baseAligned, intact.att, fun o isOther => intact.nonempty o (kept isOther),
    fun address => (attached address).trans (intact.window address),
    fun address holds => ?_, fun page holds phys mapped => ?_⟩
  · rintro ⟨o, isOther, rest⟩
    exact intact.apart address ((attached address).mp holds) ⟨o, kept isOther, rest⟩
  · simp only [State.free] at mapped
    split at mapped
    · cases mapped
    · exact intact.translated page ((attached page).mp holds) phys mapped

theorem remove (isRange : r ∈ s.ranges) (above : r.start < stop) (below : start < r.stop)
    (pos : start < stop) : Intact base seg size (s.remove r start stop) := by
  unfold State.remove
  simp only
  split
  · exact intact.splitOff isRange above below pos _
  next foreign =>
    refine (intact.splitOff isRange above below pos s.lock).free ?_ ?_
    · simpa [cut] using foreign
    · simp [State.splitOff, State.replace]

end Intact

/-! ## Faults -/

namespace State

/-- The owner's entry of the page begins with the page: a small page, or the first page of a
large one. -/
def smallEntry (state : State) (page : Nat) (backing : Option OwnerEntry) : Bool :=
  ((state.ensureValidPage (state.segVaddr page) backing).owner (state.segVaddr page)).all
    (·.behind == 0)

theorem owner_ensureValidPage {o : Nat} {entry : OwnerEntry} (known : s.owner o = some entry)
    (page : Nat) (backing : Option OwnerEntry) :
    (s.ensureValidPage page backing).owner o = some entry := by
  unfold ensureValidPage
  split
  · exact known
  next unknown =>
    have differs : o ≠ page := by
      rintro rfl
      rw [unknown] at known
      cases known
    simpa [differs] using known

end State

/-- The page of the attachment is mapped to the page of the owner at the same offset. -/
def Mapped (base seg page : Nat) (state : State) : Prop :=
  ∃ entry, state.owner (pageOf seg + (page - base)) = some entry ∧
    state.table page = some entry.phys

namespace Intact

variable (intact : Intact base seg size s)

include intact

theorem ensureValidPage (page : Nat) (backing : Option OwnerEntry) :
    Intact base seg size (s.ensureValidPage page backing) := by
  have same : s.ensureValidPage page backing =
      { s with owner := (s.ensureValidPage page backing).owner } := by
    unfold State.ensureValidPage
    split <;> rfl
  rw [same]
  refine { intact with translated := ?_ }
  intro o holds phys mapped
  obtain ⟨entry, known, isPhys⟩ := intact.translated o holds phys mapped
  exact ⟨entry, owner_ensureValidPage known page backing, isPhys⟩

theorem remapPte {entry : OwnerEntry}
    (known : s.owner (pageOf seg + (page - base)) = some entry) :
    Intact base seg size (s.remapPte page entry.phys) := by
  refine { intact with translated := ?_ }
  intro o holds phys mapped
  by_cases same : o = page
  · subst same
    simp only [remapPte, Function.update_self] at mapped
    cases mapped
    exact ⟨entry, known, rfl⟩
  · simp only [State.remapPte, Function.update_of_ne same] at mapped
    exact intact.translated o holds phys mapped

/-- A fault in the window finds the owner's entry at the same offset, and leaves the page
mapped to the beginning of what that entry maps. -/
theorem xpmemFault_spec (holds : s.Holds true page) (aligned : page % pageSize = 0)
    (backing : Option OwnerEntry) (sameAttributes : Bool) :
    (s.smallEntry page backing = true →
      Intact base seg size (s.xpmemFault page backing sameAttributes).2) ∧
    ((s.xpmemFault page backing sameAttributes).1 = none →
      (Mapped base seg page (s.xpmemFault page backing sameAttributes).2 ↔
        s.smallEntry page backing = true)) := by
  obtain ⟨above, below⟩ := (intact.window page).mp holds
  have inside := lt_of_lt_roundUp intact.baseAligned aligned below
  have segment : s.segVaddr page = pageOf seg + (page - base) := by
    rw [segVaddr, intact.att]
  have pinned := intact.ensureValidPage (pageOf seg + (page - base)) backing
  simp only [xpmemFault, smallEntry, segment, intact.att, Bool.false_eq_true, if_false,
    if_neg (show ¬(page < base ∨ page + 1 > base + (size + seg % pageSize)) by omega)]
  cases found : (s.ensureValidPage (pageOf seg + (page - base)) backing).owner
      (pageOf seg + (page - base)) with
  | none => exact ⟨fun _ => intact, nofun⟩
  | some entry =>
    have first : entry.base = entry.phys ↔ entry.behind = 0 := by
      rw [OwnerEntry.phys]
      omega
    simp only [Option.all_some, beq_iff_eq, ← first]
    cases mapped : (s.ensureValidPage (pageOf seg + (page - base)) backing).table page with
    | none =>
      refine ⟨fun small => small ▸ pinned.remapPte found, fun _ => ?_⟩
      simp [Mapped, State.remapPte, found]
    | some old =>
      simp only
      split
      next agrees =>
        refine ⟨fun _ => pinned, fun _ => ?_⟩
        simp [Mapped, found, mapped, agrees.1]
      · exact ⟨fun _ => pinned, nofun⟩

end Intact

/-! ## Runs -/

/-- Every fault of the run uses an entry of the owner that begins with the page. -/
def keeps (state : State) : Op → Bool
  | .fault page backing _ => state.smallEntry page backing
  | _ => true

/-- The attachment when the owner's entries begin with the pages that are faulted. -/
def keptMachine (base seg size : Nat) : Machine State Op :=
  (machine base seg size).restrict fun state op => keeps state op = true

theorem rangeAt_of_holds (intact : Intact base seg size s) (holds : s.Holds true address) :
    ∃ range, s.rangeAt address = some range ∧ range.attached = true := by
  cases found : s.rangeAt address with
  | none =>
    obtain ⟨r, isRange, -, contains⟩ := holds
    exact absurd contains (by simpa using find?_eq_none.mp found r isRange)
  | some r =>
    have contains := find?_some found
    refine ⟨r, rfl, ?_⟩
    by_contra foreign
    exact intact.apart address holds
      ⟨r, mem_of_find?_eq_some found, eq_false_of_ne_true foreign, contains⟩

theorem Intact.exec {op : Op} {next : State} (intact : Intact base seg size s)
    (kept : keeps s op = true) (ran : Xpmem.exec s op = some next) :
    Intact base seg size next := by
  cases op with simp only [Xpmem.exec, Option.ite_none_right_eq_some, Option.some.injEq] at ran
  | acquire | release =>
    obtain ⟨-, rfl⟩ := ran
    exact intact.regroup intact.nonempty fun _ _ => Iff.rfl
  | split r page =>
    obtain ⟨⟨-, isRange, -, above, below⟩, rfl⟩ := ran
    exact intact.split isRange above below
  | join surviving merging =>
    obtain ⟨⟨-, isSurviving, isMerging, adjacent, sameKind⟩, rfl⟩ := ran
    exact intact.join isSurviving isMerging adjacent sameKind
  | remove r start stop =>
    obtain ⟨⟨-, isRange, -, -, above, below, pos⟩, rfl⟩ := ran
    exact intact.remove isRange above below pos
  | mmap start stop =>
    obtain ⟨⟨-, pos, vacant⟩, rfl⟩ := ran
    exact intact.mmap pos vacant
  | fault page backing sameAttributes =>
    split at ran
    · cases ran
    next r found =>
      split at ran
      next possible =>
        cases ran
        have contains := find?_some found
        have holds : s.Holds true page :=
          ⟨r, mem_of_find?_eq_some found, possible.2.2, contains⟩
        exact (intact.xpmemFault_spec holds possible.2.1 backing sameAttributes).1 kept
      · cases ran

theorem intact_of_reachable (reached : (keptMachine base seg size).Reachable s) :
    Intact base seg size s := by
  refine reached.invariant (Intact base seg size) ?_ ?_
  · rintro s ⟨aligned, pos, rfl⟩
    exact intact_attach aligned pos
  · intro s op next _ intact taken
    exact intact.exec taken.1 taken.2

/-- Every page of the window belongs to the attachment.  If it is mapped, it is mapped to the
page of the owner at the same offset from the segment; and a fault there that succeeds leaves
it mapped to that page exactly when the owner's entry begins with the page. -/
theorem attachment_translates (reached : (keptMachine base seg size).Reachable state) {page : Nat}
    (aligned : page % pageSize = 0) (above : base ≤ page)
    (below : page < base + roundUp (size + seg % pageSize)) :
    (∃ range, state.rangeAt page = some range ∧ range.attached = true) ∧
      (∀ phys, state.table page = some phys → Mapped base seg page state) ∧
      ∀ backing sameAttributes, (state.xpmemFault page backing sameAttributes).1 = none →
        (Mapped base seg page (state.xpmemFault page backing sameAttributes).2 ↔
          state.smallEntry page backing = true) := by
  have intact := intact_of_reachable reached
  have holds := (intact.window page).mpr ⟨above, below⟩
  refine ⟨rangeAt_of_holds intact holds, fun phys mapped => ?_, fun backing sameAttributes =>
    (intact.xpmemFault_spec holds aligned backing sameAttributes).2⟩
  obtain ⟨entry, known, isPhys⟩ := intact.translated page holds phys mapped
  exact ⟨entry, known, by rw [mapped, isPhys]⟩

theorem init_attach (aligned : base % pageSize = 0) (pos : 0 < size) :
    (machine base seg size).init (attach base seg size) := ⟨aligned, pos, rfl⟩

/-- Four pages are attached, `mprotect` splits them in the middle, another mapping is made
and unmapped, and the third page is touched. -/
def splitAndTouched : List Op :=
  [.acquire, .split ⟨0x100000, 0x104000, true⟩ 0x102000, .mmap 0x108000 0x109000, .release,
    .acquire, .remove ⟨0x108000, 0x109000, false⟩ 0x108000 0x109000, .release,
    .fault 0x102000 (some ⟨0x7000, 0⟩) true]

theorem attachment_translates_split : ∃ state,
    (keptMachine 0x100000 0x200000 0x4000).Reachable state ∧
      state.table 0x102000 = some 0x7000 ∧ Mapped 0x100000 0x200000 0x102000 state := by
  obtain ⟨state, reached, mapped⟩ : ∃ state,
      (keptMachine 0x100000 0x200000 0x4000).Reachable state ∧
        state.table 0x102000 = some 0x7000 :=
    Machine.exists_restrict_run (fun _ _ => id) (init_attach (by decide) (by decide))
      (fun _ _ _ => id) splitAndTouched (by decide +kernel)
  exact ⟨state, reached, mapped, (attachment_translates reached (by decide) (by decide)
    (by decide)).2.1 0x7000 mapped⟩

/-- The owner has a large page at 0x40000000 for the segment.  A fault on the second page of
the attachment succeeds and maps the first.  A `munmap` of the first page gets to the hook,
where nothing goes on. -/
theorem attachment_misplaced :
    (∃ state, (machine 0x100000 0x200000 0x2000).Reachable state ∧
      state.table 0x101000 = some 0x40000000 ∧
      (state.owner 0x201000).map OwnerEntry.phys = some 0x40001000) ∧
    ∃ state, (machine 0x100000 0x200000 0x2000).Reachable state ∧
      state.lock = .hook ⟨0x100000, 0x101000, true⟩ ∧ ∀ op, exec state op = none := by
  refine ⟨Machine.exists_run (init_attach (by decide) (by decide)) (fun _ _ _ => id)
    [.fault 0x101000 (some ⟨0x40000000, 0x1000⟩) true] (by decide +kernel), ?_⟩
  obtain ⟨state, reached, stuck⟩ : ∃ state,
      (machine 0x100000 0x200000 0x2000).Reachable state ∧
        state.lock = .hook ⟨0x100000, 0x101000, true⟩ :=
    Machine.exists_run (init_attach (by decide) (by decide)) (fun _ _ _ => id)
      [.acquire, .remove ⟨0x100000, 0x102000, true⟩ 0x100000 0x101000] (by decide +kernel)
  refine ⟨state, reached, stuck, fun op => ?_⟩
  cases op with
  | fault page backing sameAttributes =>
    simp only [exec, stuck]
    split <;> simp
  | _ => simp [exec, stuck]

end McKernel.Xpmem
