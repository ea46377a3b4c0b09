import McKernel.Rss.Model

/-!
# The counters say what is mapped

Every entry and every page is charged to at most one counter and size.  As long as what is
subtracted is what was added, both counters are at any time the sum of the charges, and zero
when nothing is left.  Entries of hugetlbfs are never subtracted, `split_large_page` counts
entries that were never added, a patched page is subtracted without having been added, and so is
the page of a file that nobody has mapped.
-/

namespace McKernel.Rss

open List Function State Option Nat

/-! ## Charges -/

def Mapping.charge (mapping : Mapping) : Option (Counter × Size) :=
  if mapping.page.isSome then none else mapping.kind.bare.map (·, mapping.size)

def Page.charge (page : Page) : Option (Counter × Size) :=
  if page.mapped then some (page.kind.shared, page.size) else none

def tally (charge : Option (Counter × Size)) (counter : Counter) (size : Size) : Nat :=
  if charge == some (counter, size) then 1 else 0

theorem tally_none (counter : Counter) (size : Size) : tally none counter size = 0 := rfl

def State.charged (state : State) (counter : Counter) (size : Size) : Nat :=
  state.maps.countP (·.charge == some (counter, size)) +
    state.pages.countP (·.charge == some (counter, size)) +
    tally (some (.mappedFile, .small)) counter size * state.premapped

/-- Every counter is the number of bytes charged to it. -/
def Exact (state : State) : Prop :=
  ∀ counter size, state.counter counter size = size.bytes * state.charged counter size

theorem countP_of_erase {α : Type*} [DecidableEq α] {entries : List α} {entry : α}
    (isEntry : entry ∈ entries) (holds : α → Bool) :
    entries.countP holds = (entries.erase entry).countP holds + if holds entry then 1 else 0 := by
  rw [(perm_cons_erase isEntry).countP_eq, countP_cons]

section Charged

variable {s : State} {m : Mapping} {page next : Page} (counter : Counter) (size : Size)

theorem charged_count (o : Counter) (class_ : Size) (times : Int) :
    (s.count o class_ times).charged counter size = s.charged counter size := rfl

theorem charged_enter :
    (s.enter m).charged counter size =
      s.charged counter size + tally m.charge counter size := by
  simp only [charged, enter, countP_cons, tally]
  omega

theorem charged_leave (isMapping : m ∈ s.maps) :
    s.charged counter size =
      (s.leave m).charged counter size + tally m.charge counter size := by
  simp only [charged, leave, tally]
  have split := countP_of_erase isMapping (·.charge == some (counter, size))
  omega

theorem charged_dropPage (isPage : page ∈ s.pages) :
    s.charged counter size =
      (s.dropPage page).charged counter size + tally page.charge counter size := by
  simp only [charged, dropPage, tally]
  have split := countP_of_erase isPage (·.charge == some (counter, size))
  omega

theorem charged_setPage (isPage : page ∈ s.pages) :
    (s.setPage page next).charged counter size + tally page.charge counter size =
      s.charged counter size + tally next.charge counter size := by
  simp only [charged, setPage, tally, countP_cons]
  have split := countP_of_erase isPage (·.charge == some (counter, size))
  omega

theorem counter_count (o : Counter) (class_ : Size) (times : Int) :
    (s.count o class_ times).counter counter size = s.counter counter size +
      size.bytes * (times * tally (some (o, class_)) counter size) := by
  simp only [State.count, tally, beq_iff_eq, some.injEq, Prod.mk.injEq]
  by_cases same : counter = o ∧ size = class_
  · rw [if_pos same, if_pos ⟨same.1.symm, same.2.symm⟩]
    simp
  · rw [if_neg same, if_neg fun both => same ⟨both.1.symm, both.2.symm⟩]
    simp

end Charged

variable {next s : State}

theorem Exact.add (exact : Exact s) (counter : Counter) (size : Size)
    (times : Nat) (counted : next.counter = (s.count counter size times).counter)
    (charged : ∀ o class_, next.charged o class_ =
      s.charged o class_ + times * tally (some (counter, size)) o class_) :
    Exact next := by
  intro o class_
  rw [counted, counter_count, charged, exact o class_]
  push_cast
  ring

theorem Exact.sub (exact : Exact s) (counter : Counter) (size : Size)
    (times : Nat) (counted : next.counter = (s.count counter size (-times)).counter)
    (charged : ∀ o class_, s.charged o class_ =
      next.charged o class_ + times * tally (some (counter, size)) o class_) :
    Exact next := by
  intro o class_
  rw [counted, counter_count, exact o class_, charged]
  push_cast
  ring

theorem Exact.same (exact : Exact s) (counted : next.counter = s.counter)
    (charged : ∀ counter size, next.charged counter size = s.charged counter size) :
    Exact next := by
  intro counter size
  rw [counted, charged, exact counter size]

/-! ## Entries and pages -/

/-- The entry is one of those that `page->count` counts. -/
def holds (id : Nat) (mapping : Mapping) : Bool :=
  mapping.page == some id && mapping.kind != .xpmem

/-- Pages count their entries, and entries fit their pages. -/
structure Shape (maps : List Mapping) (pages : List Page) : Prop where
  ids : (pages.map Page.id).Nodup
  /-- The object and every entry. -/
  counts : ∀ page ∈ pages, page.count = 1 + maps.countP (holds page.id)
  fits : ∀ mapping ∈ maps, ∀ id, mapping.page = some id → mapping.kind = .xpmem ∨
    ∃ page ∈ pages, page.id = id ∧ mapping.kind = page.kind ∧ mapping.size = page.size
  /-- Memory of its own is subtracted when its entry is cleared. -/
  bare : ∀ mapping ∈ maps, mapping.page = none →
    mapping.kind ≠ .hugetlbfs ∧ mapping.kind ≠ .sharedMemory

theorem not_holds_of_bare (bare : m.page = none) (id : Nat) :
    holds id m = false := by
  rw [holds, bare]
  rfl

theorem not_holds_of_xpmem (xpmem : m.kind = .xpmem) (id : Nat) :
    holds id m = false := by
  rw [holds, xpmem, bne_self_eq_false, Bool.and_false]

namespace Shape

variable {maps : List Mapping} {pages : List Page} (shape : Shape maps pages)

include shape

variable {m : Mapping} {page : Page}

theorem apart (isPage : page ∈ pages) (isOther : o ∈ pages.erase page) :
    o ∈ pages ∧ o.id ≠ page.id := by
  have nodup := ((perm_cons_erase isPage).map Page.id).nodup_iff.mp shape.ids
  rw [map_cons, nodup_cons] at nodup
  refine ⟨mem_of_mem_erase isOther, fun same => nodup.1 ?_⟩
  exact mem_map.mpr ⟨o, isOther, same⟩

theorem entries {others : List Mapping}
    (same : ∀ id, others.countP (holds id) = maps.countP (holds id))
    (known : ∀ m ∈ others, m ∈ maps ∨ m.kind = .xpmem ∨
      m.page = none ∧ m.kind ≠ .hugetlbfs ∧ m.kind ≠ .sharedMemory) :
    Shape others pages where
  ids := shape.ids
  counts page isPage := by rw [same, shape.counts page isPage]
  fits m isMapping id isId := by
    rcases known m isMapping with old | xpmem | ⟨bare, _⟩
    · exact shape.fits m old id isId
    · exact .inl xpmem
    · rw [bare] at isId
      cases isId
  bare m isMapping isBare := by
    rcases known m isMapping with old | xpmem | ⟨_, kinds⟩
    · exact shape.bare m old isBare
    · rw [xpmem]
      exact ⟨by decide, by decide⟩
    · exact kinds

theorem enter (isFree : ∀ id, holds id m = false) (known : m.kind = .xpmem ∨
      m.page = none ∧ m.kind ≠ .hugetlbfs ∧ m.kind ≠ .sharedMemory) :
    Shape (m :: maps) pages := by
  refine shape.entries ?_ ?_
  · intro id
    rw [countP_cons, isFree id]
    rfl
  · intro o isOther
    rcases mem_cons.mp isOther with rfl | old
    · exact .inr known
    · exact .inl old

theorem leave (isMapping : m ∈ maps)
    (isFree : ∀ id, holds id m = false) : Shape (maps.erase m) pages := by
  refine shape.entries ?_ fun o isOther => .inl (mem_of_mem_erase isOther)
  intro id
  rw [countP_of_erase isMapping, isFree id]
  rfl

theorem swap (next : Page) (isPage : page ∈ pages) (id : next.id = page.id)
    (kind : next.kind = page.kind) (size : next.size = page.size) {others : List Mapping}
    (counted : next.count = 1 + others.countP (holds page.id))
    (elsewhere : ∀ id, id ≠ page.id → others.countP (holds id) = maps.countP (holds id))
    (known : ∀ m ∈ others, m ∈ maps ∨
      m.page = some page.id ∧ m.kind = page.kind ∧ m.size = page.size) :
    Shape others (next :: pages.erase page) where
  ids := by
    have nodup := ((perm_cons_erase isPage).map Page.id).nodup_iff.mp shape.ids
    rw [map_cons] at nodup ⊢
    rw [id]
    exact nodup
  counts o isOther := by
    rcases mem_cons.mp isOther with rfl | old
    · rw [id]
      exact counted
    · obtain ⟨there, differs⟩ := shape.apart isPage old
      rw [elsewhere o.id differs]
      exact shape.counts o there
  fits m isMapping place isPlace := by
    rcases known m isMapping with old | ⟨isNew, newKind, newSize⟩
    · rcases shape.fits m old place isPlace with xpmem | ⟨o, isOther, fits⟩
      · exact .inl xpmem
      · right
        by_cases same : o = page
        · subst same
          refine ⟨next, mem_cons_self, ?_⟩
          rw [id, kind, size]
          exact fits
        · exact ⟨o, mem_cons_of_mem _ ((mem_erase_of_ne same).mpr isOther), fits⟩
    · right
      rw [isNew] at isPlace
      refine ⟨next, mem_cons_self, ?_⟩
      rw [id, kind, size]
      exact ⟨some.inj isPlace, newKind, newSize⟩
  bare m isMapping isBare := by
    rcases known m isMapping with old | ⟨isNew, _⟩
    · exact shape.bare m old isBare
    · rw [isBare] at isNew
      exact nomatch isNew

theorem mark (isPage : page ∈ pages) :
    Shape maps ({ page with mapped := true } :: pages.erase page) := by
  refine shape.swap { page with mapped := true } isPage rfl rfl rfl ?_ (fun _ _ => rfl)
    fun _ => .inl
  exact shape.counts page isPage

theorem take (isPage : page ∈ pages) :
    Shape (⟨page.kind, page.size, some page.id⟩ :: maps) (page.map :: pages.erase page) := by
  have isHeld : holds page.id ⟨page.kind, page.size, some page.id⟩ = true := by
    simp only [holds, Page.kind]
    cases page.shm <;> simp
  refine shape.swap page.map isPage rfl rfl rfl ?_ ?_ ?_
  · rw [countP_cons, isHeld, Page.map, shape.counts page isPage]
    simp only [if_true]
    omega
  · intro id differs
    have isFree : holds id ⟨page.kind, page.size, some page.id⟩ = false := by
      simp [holds, Ne.symm differs]
    rw [countP_cons, isFree]
    rfl
  · intro m isMapping
    rcases mem_cons.mp isMapping with rfl | old
    · exact .inr ⟨rfl, rfl, rfl⟩
    · exact .inl old

theorem release (isPage : page ∈ pages)
    (isMapping : m ∈ maps) (same : m.page = some page.id)
    (kind : m.kind ≠ .xpmem) :
    page.count > 1 ∧ Shape (maps.erase m)
      ({ page with count := page.count - 1 } :: pages.erase page) := by
  have isHeld : holds page.id m = true := by
    rw [holds, same, beq_self_eq_true, Bool.true_and, bne_iff_ne]
    exact kind
  have counted := shape.counts page isPage
  rw [countP_of_erase isMapping, isHeld, if_pos rfl] at counted
  refine ⟨by omega, shape.swap { page with count := page.count - 1 } isPage rfl rfl rfl ?_ ?_ ?_⟩
  · simp only
    omega
  · intro id differs
    have isFree : holds id m = false := by
      simp [holds, same, Ne.symm differs]
    rw [countP_of_erase isMapping, isFree]
    rfl
  · exact fun o isOther => .inl (mem_of_mem_erase isOther)

theorem pageIn (fresh : ∀ o ∈ pages, o.id ≠ page.id)
    (one : page.count = 1) : Shape maps (page :: pages) where
  ids := by
    rw [map_cons, nodup_cons]
    refine ⟨fun isThere => ?_, shape.ids⟩
    obtain ⟨o, isOther, same⟩ := mem_map.mp isThere
    exact fresh o isOther same
  counts o isOther := by
    rcases mem_cons.mp isOther with rfl | old
    · have unheld : maps.countP (holds o.id) = 0 := by
        rw [countP_eq_zero]
        intro m isMapping isHeld
        rw [holds, Bool.and_eq_true, beq_iff_eq, bne_iff_ne] at isHeld
        rcases shape.fits m isMapping o.id isHeld.1 with xpmem | ⟨page, isPage, same, _⟩
        · exact isHeld.2 xpmem
        · exact fresh page isPage same
      rw [one, unheld]
    · exact shape.counts o old
  fits m isMapping id isId := by
    rcases shape.fits m isMapping id isId with xpmem | ⟨page, isPage, fits⟩
    · exact .inl xpmem
    · exact .inr ⟨page, mem_cons_of_mem _ isPage, fits⟩
  bare := shape.bare

theorem drop (unheld : ∀ m ∈ maps, holds page.id m = false) :
    Shape maps (pages.erase page) where
  ids := (erase_sublist.map Page.id).nodup shape.ids
  counts o isOther := shape.counts o (mem_of_mem_erase isOther)
  fits m isMapping id isId := by
    rcases shape.fits m isMapping id isId with xpmem | ⟨o, isOther, same, fits⟩
    · exact .inl xpmem
    · by_cases isXpmem : m.kind = .xpmem
      · exact .inl isXpmem
      · right
        refine ⟨o, (mem_erase_of_ne ?_).mpr isOther, same, fits⟩
        rintro rfl
        have isFree := unheld m isMapping
        rw [holds, isId, same, beq_self_eq_true, Bool.true_and, bne_eq_false_iff_eq] at isFree
        exact isXpmem isFree
  bare := shape.bare

end Shape

variable {id : Nat} {m : Mapping} {s : State}

theorem page?_spec (found : s.page? id = some page) :
    page ∈ s.pages ∧ page.id = id :=
  ⟨mem_of_find?_eq_some found, beq_iff_eq.mp (find?_some found :)⟩

/-! ## Runs -/

/-- What every regular run keeps. -/
structure Sound (state : State) : Prop where
  exact : Exact state
  shape : Shape state.maps state.pages

/-- No entry of hugetlbfs, no patched page, no failure of `ihk_mc_pt_set_range`; a present entry
faults again only if it has a `struct page`, only entries that are counted as resident are split,
attachments are detached, and the pages of an object have been mapped when it is freed. -/
def regular (state : State) : Op → Bool
  | .map kind _ patch => !patch && kind != .hugetlbfs
  | .mapFailed kind _ => kind.bare == none
  | .mapPage _ patch | .copy _ patch | .copyMapped _ patch => !patch
  | .refault mapping => mapping.page.isSome || mapping.kind.bare == none
  | .split mapping => mapping.page.isNone && mapping.kind.bare != none
  | .splitOffset _ => false
  | .unmap mapping => mapping.page.isNone || mapping.kind != .xpmem
  | .freePage id => (state.page? id).all (·.mapped)
  | _ => true

theorem addBare_frame (s : State) (kind : Kind) (size : Size) :
    (s.addBare kind size).maps = s.maps ∧
      (s.addBare kind size).pages = s.pages := by
  unfold addBare
  split
  · exact ⟨rfl, rfl⟩
  · exact ⟨rfl, rfl⟩

theorem countP_erase_held (isMapping : m ∈ s.maps)
    (isPage : m.page = some id) (counter : Counter) (size : Size) :
    (s.maps.erase m).countP (·.charge == some (counter, size)) =
      s.maps.countP (·.charge == some (counter, size)) := by
  have charge : m.charge = none := by
    rw [Mapping.charge, isPage]
    rfl
  rw [countP_of_erase isMapping, charge]
  rfl

theorem charge_of_bare (isBare : m.page = none)
    (counted : m.kind.bare ≠ none) : m.charge = some (.rss, m.size) := by
  rw [Mapping.charge, isBare]
  cases isKind : m.kind <;> first | rfl | (rw [isKind] at counted; exact absurd rfl counted)

theorem enter_addPage (s : State) (m : Mapping) (kind : Kind) (size : Size)
    (page : Page) :
    (s.addPage kind size page).enter m =
      (s.enter m).addPage kind size page := by
  unfold addPage addBare
  split
  · split <;> rfl
  · split <;> rfl

theorem leave_unmapPage (s : State) (m : Mapping) (kind : Kind) (size : Size)
    (page : Page) :
    (s.unmapPage kind size page).leave m =
      (s.leave m).unmapPage kind size page := by
  unfold unmapPage
  split <;> rfl

namespace Sound

variable {s : State} (sound : Sound s)

include sound

theorem enterBare {kind : Kind} {size : Size} (known : kind ≠ .hugetlbfs ∧ kind ≠ .sharedMemory) :
    Sound ((s.addBare kind size).enter ⟨kind, size, none⟩) where
  exact := by
    have charge : Mapping.charge ⟨kind, size, none⟩ = kind.bare.map (·, size) := rfl
    unfold addBare
    split
    next counter isBare =>
      rw [isBare, map_some] at charge
      refine sound.exact.add counter size 1 rfl fun o class_ => ?_
      rw [charged_enter, charged_count, charge, one_mul]
    next isBare =>
      rw [isBare, map_none] at charge
      refine sound.exact.same rfl fun o class_ => ?_
      rw [charged_enter, charge, tally_none, add_zero]
  shape := by
    have frame := addBare_frame s kind size
    rw [enter, frame.1, frame.2]
    exact sound.shape.enter (not_holds_of_bare rfl) (.inr ⟨rfl, known⟩)

variable {m : Mapping} {next : State} {page : Page}

theorem addPage (isPage : page ∈ s.pages) {kind : Kind} (isKind : kind = page.kind) :
    Sound (s.addPage kind page.size page) ∧
      (s.addPage kind page.size page).maps = s.maps ∧
      { page with mapped := true } ∈ (s.addPage kind page.size page).pages := by
  subst isKind
  have sharable : page.kind.sharable = true := by
    rw [Page.kind]
    cases page.shm <;> rfl
  rw [State.addPage, if_pos sharable]
  split
  next isMapped =>
    refine ⟨sound, rfl, ?_⟩
    have same : { page with mapped := true } = page := by rw [← isMapped]
    rw [same]
    exact isPage
  next unmapped =>
    refine ⟨⟨?_, sound.shape.mark isPage⟩, rfl, mem_cons_self⟩
    refine sound.exact.add page.kind.shared page.size 1 rfl fun o class_ => ?_
    have swapped := @charged_setPage s page { page with mapped := true } o class_ isPage
    have before : page.charge = none := if_neg unmapped
    have after : Page.charge { page with mapped := true } =
      some (page.kind.shared, page.size) := rfl
    rw [before, after, tally_none] at swapped
    rw [charged_count]
    omega

theorem recount (next : Page) (isPage : page ∈ s.pages) (charge : next.charge = page.charge)
    {maps : List Mapping}
    (same : ∀ counter size, maps.countP (·.charge == some (counter, size)) =
      s.maps.countP (·.charge == some (counter, size)))
    (shape : Shape maps (next :: s.pages.erase page)) :
    Sound { s.setPage page next with maps := maps } where
  exact := by
    refine sound.exact.same rfl fun counter size => ?_
    have swapped := @charged_setPage s page next counter size isPage
    rw [charge] at swapped
    simp only [charged, setPage, same] at swapped ⊢
    omega
  shape := shape

theorem leaveUncounted (isMapping : m ∈ s.maps)
    (charge : m.charge = none) (isFree : ∀ id, holds id m = false) :
    Sound (s.leave m) where
  exact := by
    refine sound.exact.same rfl fun counter size => ?_
    rw [charged_leave counter size isMapping, charge, tally_none, add_zero]
  shape := sound.shape.leave isMapping isFree

theorem leaveBare (isMapping : m ∈ s.maps)
    (charge : m.charge = some (.rss, m.size)) (isBare : m.page = none) :
    Sound ((s.leave m).count .rss m.size (-1)) where
  exact := by
    refine sound.exact.sub .rss m.size 1 rfl fun o class_ => ?_
    rw [charged_leave o class_ isMapping, charge, charged_count, one_mul]
  shape := sound.shape.leave isMapping (not_holds_of_bare isBare)

theorem releasePage (isMapping : m ∈ s.maps)
    (isPage : page ∈ s.pages) (same : m.page = some page.id)
    (kind : m.kind ≠ .xpmem) :
    Sound ((s.leave m).unmapPage m.kind m.size page) := by
  obtain ⟨many, shape⟩ := sound.shape.release isPage isMapping same kind
  rw [unmapPage, if_pos many]
  exact sound.recount { page with count := page.count - 1 } isPage rfl
    (countP_erase_held isMapping same) shape

theorem dropPage (isPage : page ∈ s.pages) (isMapped : page.mapped = true)
    (unheld : ∀ m ∈ s.maps, holds page.id m = false) :
    Sound ((s.dropPage page).count page.kind.shared page.size (-1)) where
  exact := by
    have charge : page.charge = some (page.kind.shared, page.size) := if_pos isMapped
    refine sound.exact.sub page.kind.shared page.size 1 rfl fun o class_ => ?_
    rw [charged_dropPage o class_ isPage, charge, charged_count, one_mul]
  shape := sound.shape.drop unheld

theorem split (isMapping : m ∈ s.maps) (smaller : Size)
    (charge : m.charge = some (.rss, m.size)) (isBare : m.page = none) :
    Sound { (s.countSplit m.size smaller).leave m with
      maps := parts m smaller ++ s.maps.erase m } := by
  have kinds := sound.shape.bare m isMapping isBare
  have all : parts m smaller =
      replicate ptEntries { m with size := smaller, page := none } := by
    rw [parts, isBare, ptEntries, ← replicate_succ]
  have part : Mapping.charge { m with size := smaller, page := none } =
      some (.rss, smaller) := by
    rw [Mapping.charge, isBare] at charge
    obtain ⟨counter, isCounter, same⟩ := map_eq_some_iff.mp charge
    obtain rfl := (Prod.mk.inj same).1
    simp only [Mapping.charge, isCounter]
    rfl
  constructor
  · -- the parts are entered first, then the large entry goes
    have entered : Exact { s.count .rss smaller ptEntries with
        maps := parts m smaller ++ s.maps } := by
      refine sound.exact.add .rss smaller ptEntries rfl fun o class_ => ?_
      have more : (replicate ptEntries { m with size := smaller, page := none }).countP
          (·.charge == some (o, class_)) =
          ptEntries * tally (some (.rss, smaller)) o class_ := by
        rw [countP_replicate, part, tally]
        split <;> rfl
      simp only [State.charged, State.count, all, countP_append, more]
      omega
    refine entered.sub .rss m.size 1 rfl fun o class_ => ?_
    have left := charged_leave o class_ isMapping
    rw [charge] at left
    simp only [State.charged, State.leave, State.countSplit, State.count,
      countP_append] at left ⊢
    omega
  · refine sound.shape.entries ?_ ?_
    · intro id
      have none : (replicate ptEntries
          { m with size := smaller, page := none }).countP (holds id) = 0 := by
        rw [countP_eq_zero]
        intro o isOther
        rw [eq_of_mem_replicate isOther, not_holds_of_bare rfl]
        exact Bool.false_ne_true
      rw [all, countP_append, none, zero_add, countP_of_erase isMapping,
        not_holds_of_bare isBare]
      rfl
    · intro o isOther
      rw [all] at isOther
      rcases mem_append.mp isOther with new | old
      · rw [eq_of_mem_replicate new]
        exact .inr (.inr ⟨rfl, kinds⟩)
      · exact .inl (mem_of_mem_erase old)

theorem fits (isMapping : m ∈ s.maps) {id : Nat}
    (isId : m.page = some id) (kind : m.kind ≠ .xpmem) :
    ∃ page, s.page? id = some page ∧ page ∈ s.pages ∧ page.id = id ∧
      m.kind = page.kind ∧ m.size = page.size := by
  obtain ⟨page, isPage, same, fits⟩ :=
    (sound.shape.fits m isMapping id isId).resolve_left kind
  cases found : s.page? id with
  | none =>
    exact absurd (beq_iff_eq.mpr same) (find?_eq_none.mp found page isPage)
  | some o =>
    obtain ⟨isOther, sameId⟩ := page?_spec found
    obtain rfl : o = page :=
      inj_on_of_nodup_map sound.shape.ids isOther isPage (sameId.trans same.symm)
    exact ⟨o, rfl, isPage, same, fits⟩

theorem mapPage (isPage : page ∈ s.pages) :
    Sound (((s.setPage page page.map).addPage page.kind page.size page.map).enter
      ⟨page.kind, page.size, some page.id⟩) := by
  rw [enter_addPage]
  have entered : Sound ((s.setPage page page.map).enter
      ⟨page.kind, page.size, some page.id⟩) := by
    refine sound.recount page.map isPage rfl ?_ (sound.shape.take isPage)
    intro counter size
    rfl
  exact (@addPage _ entered page.map mem_cons_self page.kind rfl).1

theorem copyMapped (isMapping : m ∈ s.maps) (kind : m.kind = .regularFile)
    (found : m.page.bind s.page? = some page) :
    Sound (((((s.addPage .regularFile m.size page).unmapPage .regularFile m.size
      { page with mapped := true }).leave m).addBare .regularFile m.size).enter
        { m with page := none }) := by
  obtain ⟨id, isId, isPage⟩ := bind_eq_some_iff.mp found
  have notXpmem : m.kind ≠ .xpmem := by
    rw [kind]
    nofun
  obtain ⟨o, isOther, there, same, sameKind, sameSize⟩ := sound.fits isMapping isId notXpmem
  cases isPage.symm.trans isOther
  obtain ⟨counted, maps, marked⟩ := sound.addPage there sameKind
  rw [← maps] at isMapping
  have released := counted.releasePage isMapping marked (isId.trans (congrArg some same.symm))
    notXpmem
  rw [← leave_unmapPage, kind] at released
  have copied := @enterBare _ released .regularFile m.size ⟨nofun, nofun⟩
  rw [← kind, sameSize] at copied ⊢
  exact copied

theorem refault (isMapping : m ∈ s.maps)
    (isRegular : (m.page.isSome || m.kind.bare == none) = true)
    (taken : (match m.page.bind s.page? with
      | some page => some (s.addPage m.kind m.size page)
      | none => some (s.addBare m.kind m.size)) = some next) : Sound next := by
  by_cases uncounted : m.kind.bare = none ∧ m.kind.sharable = false
  · have same : next = s := by
      simp only [State.addPage, State.addBare, uncounted.1, uncounted.2] at taken
      split at taken <;> exact (some.inj taken).symm
    rw [same]
    exact sound
  · have notXpmem : m.kind ≠ .xpmem := by
      intro xpmem
      rw [xpmem] at uncounted
      exact uncounted ⟨rfl, rfl⟩
    cases isPage : m.page with
    | none =>
      rw [isPage, isSome_none, Bool.false_or, beq_iff_eq] at isRegular
      have kinds := sound.shape.bare m isMapping isPage
      refine absurd ⟨isRegular, ?_⟩ uncounted
      generalize m.kind = kind at isRegular kinds ⊢
      cases kind <;> first | rfl | exact absurd rfl kinds.2 | exact nomatch isRegular
    | some id =>
      obtain ⟨page, found, there, _, sameKind, sameSize⟩ := sound.fits isMapping isPage notXpmem
      rw [isPage, bind_some, found] at taken
      cases taken
      rw [sameSize]
      exact (sound.addPage there sameKind).1

theorem attach (size : Size) (page : Option Nat) : Sound (s.enter ⟨.xpmem, size, page⟩) where
  exact := by
    refine sound.exact.same rfl fun counter o => ?_
    have charge : Mapping.charge ⟨.xpmem, size, page⟩ = none := by
      cases page <;> rfl
    rw [charged_enter, charge, tally_none, add_zero]
  shape := sound.shape.enter (not_holds_of_xpmem rfl) (.inl rfl)

theorem pageIn {id : Nat} (shm : Bool) (size : Size) (fresh : s.page? id = none) :
    Sound { s with pages := ⟨id, shm, size, false, 1⟩ :: s.pages } where
  exact := by
    refine sound.exact.same rfl fun counter o => ?_
    rfl
  shape := by
    refine sound.shape.pageIn ?_ rfl
    intro o isOther same
    exact find?_eq_none.mp fresh o isOther (beq_iff_eq.mpr same)

theorem premap :
    Sound { s.count .mappedFile .small 1 with premapped := s.premapped + 1 } where
  exact := by
    refine sound.exact.add .mappedFile .small 1 rfl fun o class_ => ?_
    simp only [State.charged, State.count, mul_add, mul_one, one_mul]
    omega
  shape := sound.shape

theorem freePremap (enough : npages ≤ s.premapped) :
    Sound { s.count .mappedFile .small (-npages) with
      premapped := s.premapped - npages } where
  exact := by
    refine sound.exact.sub .mappedFile .small npages rfl fun o class_ => ?_
    simp only [State.charged, State.count, mul_comm npages]
    conv_lhs => rw [← Nat.sub_add_cancel enough, Nat.mul_add]
    omega
  shape := sound.shape

theorem unmap (isMapping : m ∈ s.maps)
    (isRegular : (m.page.isNone || m.kind != .xpmem) = true)
    (taken : exec s (.unmap m) = some next) : Sound next := by
  have kinds := sound.shape.bare m isMapping
  simp only [exec, if_pos isMapping] at taken
  cases isPage : m.page with
  | none =>
    by_cases counted : m.kind.bare = none
    · have charge : m.charge = none := by
        rw [Mapping.charge, isPage, counted]
        rfl
      have same : next = s.leave m := by
        have notShared := (kinds isPage).2
        simp only [isPage] at taken
        cases isKind : m.kind <;>
          first
          | exact absurd isKind notShared
          | (simp only [isKind, if_true] at taken; exact (some.inj taken).symm)
          | (rw [isKind] at counted; exact nomatch counted)
      rw [same]
      exact sound.leaveUncounted isMapping charge (not_holds_of_bare isPage)
    · have same : next = (s.leave m).count .rss m.size (-1) := by
        have notHuge := (kinds isPage).1
        simp only [isPage] at taken
        cases isKind : m.kind <;>
          first
          | exact absurd isKind notHuge
          | (rw [isKind] at counted; exact absurd rfl counted)
          | (simp only [isKind] at taken; exact (some.inj taken).symm)
      rw [same]
      exact sound.leaveBare isMapping (charge_of_bare isPage counted) isPage
  | some id =>
    rw [isPage, isNone_some, Bool.false_or, bne_iff_ne] at isRegular
    obtain ⟨page, found, there, same, sameKind, sameSize⟩ :=
      sound.fits isMapping isPage isRegular
    have released := sound.releasePage isMapping there
      (isPage.trans (congrArg some same.symm)) isRegular
    have stillThere : (s.leave m).page? id = some page := found
    have isFile : m.kind = .sharedMemory ∨ m.kind = .regularFile := by
      rw [sameKind, Page.kind]
      cases page.shm
      · exact .inr rfl
      · exact .inl rfl
    rcases isFile with isKind | isKind
    · simp only [isKind, isPage, stillThere] at taken
      rw [isKind] at released
      cases taken
      exact released
    · simp only [isKind, isPage, stillThere] at taken
      rw [isKind] at released
      cases taken
      exact released

theorem exec (isRegular : regular s op = true)
    (taken : exec s op = some next) : Sound next := by
  cases op with
  | map kind size patch =>
    rw [regular, Bool.and_eq_true, Bool.not_eq_true', bne_iff_ne] at isRegular
    obtain ⟨rfl, notHuge⟩ := isRegular
    obtain ⟨notShared, taken⟩ := ite_none_left_eq_some.mp taken
    cases taken
    exact sound.enterBare ⟨notHuge, notShared⟩
  | mapFailed kind size =>
    have uncounted : kind.bare = none := beq_iff_eq.mp isRegular
    simp only [Rss.exec, addBare, uncounted] at taken
    split at taken
    · exact nomatch taken
    · cases taken
      exact sound
  | pageIn id shm size =>
    obtain ⟨fresh, taken⟩ := ite_none_left_eq_some.mp taken
    cases taken
    refine sound.pageIn shm size ?_
    rw [not_or, not_isSome_iff_eq_none] at fresh
    exact fresh.1
  | mapPage id patch =>
    obtain rfl : patch = false := by simpa [regular] using isRegular
    obtain ⟨page, found, rfl⟩ := map_eq_some_iff.mp taken
    obtain ⟨isPage, rfl⟩ := page?_spec found
    exact sound.mapPage isPage
  | copy id patch =>
    obtain rfl : patch = false := by simpa [regular] using isRegular
    simp only [Rss.exec] at taken
    split at taken
    · exact nomatch taken
    next page found =>
      obtain ⟨isFile, taken⟩ := ite_none_left_eq_some.mp taken
      cases taken
      have kind : Kind.regularFile = page.kind := by
        rw [Page.kind, if_neg isFile]
      exact (sound.addPage (page?_spec found).1 kind).1.enterBare ⟨nofun, nofun⟩
  | copyMapped m patch =>
    obtain rfl : patch = false := by simpa [regular] using isRegular
    obtain ⟨there, taken⟩ := ite_none_right_eq_some.mp taken
    obtain ⟨page, found, rfl⟩ := map_eq_some_iff.mp taken
    exact sound.copyMapped there.1 there.2 found
  | refault m =>
    simp only [Rss.exec] at taken
    split at taken
    next there => exact sound.refault there isRegular taken
    · exact nomatch taken
  | attach size page =>
    cases taken
    exact sound.attach size page
  | detach m =>
    obtain ⟨there, taken⟩ := ite_none_right_eq_some.mp taken
    cases taken
    refine sound.leaveUncounted there.1 ?_ (not_holds_of_xpmem there.2)
    rw [Mapping.charge, there.2]
    cases m.page <;> rfl
  | split m =>
    rw [regular, Bool.and_eq_true, isNone_iff_eq_none, bne_iff_ne] at isRegular
    obtain ⟨there, taken⟩ := ite_none_right_eq_some.mp taken
    obtain ⟨smaller, _, rfl⟩ := map_eq_some_iff.mp taken
    have same : s.splitPage m = s := by
      rw [splitPage, isRegular.1]
      rfl
    rw [same]
    exact sound.split there smaller (charge_of_bare isRegular.1 isRegular.2) isRegular.1
  | splitOffset size => exact nomatch isRegular
  | unmap m =>
    refine sound.unmap ?_ isRegular taken
    by_contra absent
    simp only [Rss.exec, if_neg absent] at taken
    exact nomatch taken
  | premap =>
    cases taken
    exact sound.premap
  | freePremap npages =>
    obtain ⟨enough, taken⟩ := ite_none_right_eq_some.mp taken
    cases taken
    exact sound.freePremap enough
  | freePage id =>
    obtain ⟨unheld, taken⟩ := ite_none_left_eq_some.mp taken
    obtain ⟨page, found, rfl⟩ := map_eq_some_iff.mp taken
    obtain ⟨isPage, rfl⟩ := page?_spec found
    split
    · have isMapped : page.mapped = true := by
        rw [regular, found] at isRegular
        exact isRegular
      refine sound.dropPage isPage isMapped fun m isMapping => ?_
      exact eq_false_of_ne_true fun isHeld =>
        unheld (any_eq_true.mpr ⟨m, isMapping, isHeld⟩)
    · exact sound

end Sound

theorem sound_boot : Sound boot where
  exact _ size := by
    rw [charged]
    simp [boot]
  shape := by
    refine ⟨nodup_nil, ?_, ?_, ?_⟩
    · exact nofun
    · exact nofun
    · exact nofun

end McKernel.Rss
