import McKernel.Rusage.Model

/-!
# The counters are exact

As long as pages are freed as what they were allocated as, the counters say what is handed out
at any time, also while frees are pending.  Three ways of freeing are different: the error path
of `copy_user_pte` and straight ranges free user pages as pages of the kernel, and `move_pages`
does the same and replaces them by pages that it has allocated for the kernel.
-/

namespace McKernel.Rusage

open List Function State Bool

variable {path : Path} {site : Site}

/-! ## Counting -/

theorem block_nodup (page npages : Nat) : (block page npages).Nodup := nodup_range'

theorem first_mem_block {page npages o : Nat} (isOther : o ∈ block page npages) :
    page ∈ block page npages := by
  rw [block, mem_range'_1] at isOther ⊢
  omega

section Counting

variable {handed : List (Nat × Site)} {pages : List Nat} {counts : Nat × Site → Bool} {v : Bool}

theorem countP_uniform (uniform : ∀ entry ∈ handed, counts entry = v) :
    handed.countP counts = if v then handed.length else 0 := by
  cases v with
  | true =>
    exact countP_eq_length.mpr uniform
  | false =>
    exact countP_eq_zero.mpr fun entry isEntry => ne_true_of_eq_false (uniform entry isEntry)

theorem length_handed_of_pages (once : (handed.map Prod.fst).Nodup) (nodup : pages.Nodup)
    (there : ∀ page ∈ pages, ∃ site, (page, site) ∈ handed) :
    (handed.filter fun entry => entry.1 ∈ pages).length = pages.length := by
  have keys : (handed.filter fun entry => entry.1 ∈ pages).map Prod.fst =
      (handed.map Prod.fst).filter (· ∈ pages) := by
    rw [filter_map]
    rfl
  have same : ((handed.map Prod.fst).filter (· ∈ pages)).Perm pages := by
    refine (perm_ext_iff_of_nodup (once.filter _) nodup).mpr fun page => ?_
    rw [mem_filter, decide_eq_true_eq]
    refine ⟨And.right, fun isPage => ⟨?_, isPage⟩⟩
    obtain ⟨site, isThere⟩ := there page isPage
    exact mem_map.mpr ⟨_, isThere, rfl⟩
  rw [← same.length_eq, ← keys, length_map]

theorem countP_without (once : (handed.map Prod.fst).Nodup) (nodup : pages.Nodup)
    (there : ∀ page ∈ pages, ∃ site, (page, site) ∈ handed)
    (uniform : ∀ entry ∈ handed, entry.1 ∈ pages → counts entry = v) :
    handed.countP counts =
      (handed.filter fun entry => entry.1 ∉ pages).countP counts +
        if v then pages.length else 0 := by
  have split := countP_eq_countP_filter_add handed counts fun entry => entry.1 ∈ pages
  have inside : (handed.filter fun entry => entry.1 ∈ pages).countP counts =
      if v then (handed.filter fun entry => entry.1 ∈ pages).length else 0 := by
    refine countP_uniform fun entry isEntry => ?_
    rw [mem_filter, decide_eq_true_eq] at isEntry
    exact uniform entry isEntry.1 isEntry.2
  rw [length_handed_of_pages once nodup there] at inside
  simp only [decide_not] at split ⊢
  omega

theorem countP_with (uniform : ∀ page ∈ pages, counts (page, site) = v) :
    (pages.map (·, site) ++ handed).countP counts =
      handed.countP counts + if v then pages.length else 0 := by
  have added : (pages.map (·, site)).countP counts =
      if v then (pages.map (·, site)).length else 0 := by
    refine countP_uniform fun entry isEntry => ?_
    obtain ⟨page, isPage, rfl⟩ := mem_map.mp isEntry
    exact uniform page isPage
  rw [countP_append, added, length_map, Nat.add_comm]

end Counting

theorem node?_pageNode {memory : Memory} {page npages node : Nat}
    (inside : memory.node? page npages = some node) :
    ∀ o ∈ block page npages, memory.pageNode o = some node := by
  intro o isOther
  simp only [Memory.node?, Option.bind_eq_bind, Option.bind_eq_some_iff] at inside
  obtain ⟨c, _, inside⟩ := inside
  split at inside
  next all =>
    have same := all_eq_true.mp all o isOther
    rw [beq_iff_eq] at same
    rw [Memory.pageNode, same, Option.map_some]
    exact inside
  · cases inside

/-! ## The counters -/

def countsAsKernel (entry : Nat × Site) : Bool := !entry.2.isUser

def countsOnNode (memory : Memory) (node : Nat) (entry : Nat × Site) : Bool :=
  entry.2.isUser && memory.pageNode entry.1 == some node

/-- The counters say what is handed out: everything, what was allocated for the kernel, and
what was allocated for users on each node. -/
structure Exact (memory : Memory) (state : State) : Prop where
  total : state.total = pageSize * state.handed.length
  kmem : state.kmem = pageSize * state.handed.countP countsAsKernel
  numa : ∀ node, state.numa node = pageSize * state.handed.countP (countsOnNode memory node)

section Steps

variable {memory : Memory} {s : State} {page npages node : Nat}

theorem Exact.move (exact : Exact memory s) (inside : memory.node? page npages = some node)
    {moves : Nat × Site → Prop} {isUser : Bool} {pages : Int} {handed : List (Nat × Site)}
    (there : ∀ entry, moves entry → entry.2.isUser = isUser ∧ entry.1 ∈ block page npages)
    (count : ∀ counts v, (∀ entry, moves entry → counts entry = v) →
      (handed.countP counts : Int) = s.handed.countP counts + if v then pages else 0) :
    Exact memory { s.pageAdd node pages isUser with handed := handed } := by
  constructor
  · have all := count (fun _ => true) true fun _ _ => rfl
    simp only [countP_true, if_true] at all
    simp only [pageAdd, exact.total, all]
    ring
  · have all := count countsAsKernel (!isUser) fun entry isMoved => by
      rw [countsAsKernel, (there entry isMoved).1]
    simp only [pageAdd, exact.kmem, all]
    cases isUser
    · simp only [Bool.not_false, if_true, Bool.false_eq_true, if_false]
      ring
    · simp
  · intro o
    have all := count (countsOnNode memory o) (isUser && node == o) fun entry isMoved => by
      obtain ⟨user, isPlace⟩ := there entry isMoved
      rw [countsOnNode, user, node?_pageNode inside entry.1 isPlace]
      rfl
    simp only [pageAdd, exact.numa o, all, and_eq_true, beq_iff_eq]
    by_cases counted : isUser = true ∧ o = node
    · rw [if_pos counted, if_pos ⟨counted.1, counted.2.symm⟩]
      ring
    · rw [if_neg counted, if_neg fun same => counted ⟨same.1, same.2.symm⟩, Int.add_zero]

theorem Exact.alloc (exact : Exact memory s) (site : Site)
    (inside : memory.node? page npages = some node) :
    Exact memory { s.pageAdd node npages site.isUser with
      handed := (block page npages).map (·, site) ++ s.handed } := by
  have length : (block page npages).length = npages := length_range'
  refine exact.move inside
    (fun entry (isNew : entry.1 ∈ block page npages ∧ entry.2 = site) => ⟨by rw [isNew.2], isNew.1⟩)
    fun counts v uniform => ?_
  rw [countP_with fun place isPlace => uniform (place, site) ⟨isPlace, rfl⟩, length]
  cases v <;> rfl

theorem Exact.free (exact : Exact memory s) (once : (s.handed.map Prod.fst).Nodup)
    {isUser : Bool} (there : ∀ o ∈ block page npages, ∃ site, (o, site) ∈ s.handed)
    (same : ∀ entry ∈ s.handed, entry.1 ∈ block page npages → entry.2.isUser = isUser) :
    Exact memory (s.freeInAllocator memory page npages isUser) := by
  unfold freeInAllocator
  split
  · exact exact
  next node inside =>
    have length : (block page npages).length = npages := length_range'
    refine exact.move inside
      (fun entry (isOld : entry ∈ s.handed ∧ entry.1 ∈ block page npages) =>
        ⟨same entry isOld.1 isOld.2, isOld.2⟩) fun counts v uniform => ?_
    rw [countP_without once (block_nodup page npages) there fun entry isEntry isThere =>
      uniform entry ⟨isEntry, isThere⟩, length]
    cases v <;> simp

end Steps

/-! ## Runs -/

def State.pendingPages (state : State) : List Nat :=
  state.pending.flatMap fun (_, page, npages) => block page npages

/-- The counters are exact, and pages whose free is pending are counted as user pages. -/
structure Sound (memory : Memory) (state : State) : Prop where
  exact : Exact memory state
  once : (state.handed.map Prod.fst).Nodup
  /-- Nothing comes from `move_pages`. -/
  unmoved : ∀ entry ∈ state.handed, entry.2 ≠ .movedPage
  pending : ∀ page ∈ state.pendingPages, ∃ site, (page, site) ∈ state.handed ∧ site.isUser = true
  distinct : state.pendingPages.Nodup

/-- No `move_pages`, no failure in `copy_user_pte`, and straight ranges are not unmapped. -/
def regular : Op → Bool
  | .alloc site _ _ => site != .movedPage
  | .free _ path _ _ _ => path != .forkError && path != .straightRange && path != .movePages
  | _ => true

theorem isUser_of_frees (frees : path.frees site = true) (unmoved : site ≠ .movedPage)
    (isRegular : (path != .forkError && path != .straightRange && path != .movePages) = true) :
    site.isUser = path.isUser := by
  cases path <;> cases site <;> first | rfl | (revert frees unmoved isRegular; decide)

theorem isUser_of_hashed (frees : path.frees site = true) (hashed : site.hashed = true)
    (isRegular : (path != .forkError && path != .straightRange && path != .movePages) = true) :
    path.isUser = true := by
  cases path <;> cases site <;> first | rfl | (revert frees hashed isRegular; decide)

theorem site_unique {handed : List (Nat × Site)} (once : (handed.map Prod.fst).Nodup)
    {page : Nat} {o : Site} (first : (page, site) ∈ handed) (second : (page, o) ∈ handed) :
    site = o := by
  have same := inj_on_of_nodup_map once first second rfl
  exact (Prod.mk.inj same).2

namespace Sound

variable {memory : Memory} {s : State} (sound : Sound memory s)

include sound

theorem alloc {page npages node : Nat} (unmoved : site ≠ .movedPage)
    (fresh : ∀ o ∈ block page npages, o ∉ s.handed.map Prod.fst)
    (inside : memory.node? page npages = some node) :
    Sound memory { s.pageAdd node npages site.isUser with
      handed := (block page npages).map (·, site) ++ s.handed } where
  exact := sound.exact.alloc site inside
  once := by
    rw [map_append, map_map]
    have keys : (block page npages).map (Prod.fst ∘ (·, site)) = block page npages := map_id _
    rw [keys]
    exact (block_nodup page npages).append sound.once fun o => fresh o
  unmoved entry isEntry := by
    rcases mem_append.mp isEntry with new | old
    · obtain ⟨_, _, rfl⟩ := mem_map.mp new
      exact unmoved
    · exact sound.unmoved entry old
  pending o isPending := by
    obtain ⟨site, there, user⟩ := sound.pending o isPending
    exact ⟨site, mem_append_right _ there, user⟩
  distinct := sound.distinct

theorem free {page npages : Nat} {isUser : Bool} {pending : List (Nat × Nat × Nat)}
    (same : ∀ o ∈ block page npages,
      ∃ site, (o, site) ∈ s.handed ∧ site.isUser = isUser)
    (fewer : ∀ o ∈ { s with pending := pending }.pendingPages,
      o ∈ s.pendingPages ∧ o ∉ block page npages)
    (distinct : { s with pending := pending }.pendingPages.Nodup) :
    Sound memory { s.freeInAllocator memory page npages isUser with pending := pending } := by
  have exact : Exact memory (s.freeInAllocator memory page npages isUser) := by
    refine sound.exact.free sound.once ?_ ?_
    · intro o isOther
      obtain ⟨site, there, _⟩ := same o isOther
      exact ⟨site, there⟩
    · intro entry isEntry isThere
      obtain ⟨site, there, user⟩ := same entry.1 isThere
      rw [← user, site_unique sound.once isEntry there]
  have shrinks : ∀ entry ∈ (s.freeInAllocator memory page npages isUser).handed,
      entry ∈ s.handed := by
    intro entry isEntry
    unfold freeInAllocator at isEntry
    split at isEntry
    · exact isEntry
    · exact mem_of_mem_filter isEntry
  refine ⟨{ exact with }, ?_, ?_, ?_, distinct⟩
  · simp only [freeInAllocator]
    split
    · exact sound.once
    · exact (filter_sublist.map Prod.fst).nodup sound.once
  · exact fun entry isEntry => sound.unmoved entry (shrinks entry isEntry)
  · intro o isPending
    obtain ⟨still, apart⟩ := fewer o isPending
    obtain ⟨site, there, user⟩ := sound.pending o still
    refine ⟨site, ?_, user⟩
    simp only [freeInAllocator]
    split
    · exact there
    · exact mem_filter.mpr ⟨there, decide_eq_true apart⟩

section Free

variable {page npages : Nat} (may : s.mayFree path page npages = true)
  (isRegular : (path != .forkError && path != .straightRange && path != .movePages) = true)

include may isRegular

theorem mayFree_spec {o : Nat} (isOther : o ∈ block page npages) :
    (∃ site, (o, site) ∈ s.handed ∧ site.isUser = path.isUser) ∧
      o ∉ s.pendingPages := by
  have holds := all_eq_true.mp may o isOther
  rw [and_eq_true, any_eq_true, all_eq_true] at holds
  obtain ⟨⟨⟨place, site⟩, there, frees⟩, apart⟩ := holds
  rw [and_eq_true, beq_iff_eq] at frees
  obtain ⟨rfl, frees⟩ := frees
  refine ⟨⟨site, there, isUser_of_frees frees (sound.unmoved _ there) isRegular⟩, ?_⟩
  intro isPending
  obtain ⟨triple, isTriple, inside⟩ := mem_flatMap.mp isPending
  exact of_decide_eq_true (apart triple isTriple) inside

theorem isUser_of_hasPage (isFirst : page ∈ block page npages) (hasPage : s.hasPage page = true) :
    path.isUser = true := by
  have holds := all_eq_true.mp may page isFirst
  rw [and_eq_true, any_eq_true] at holds
  obtain ⟨⟨⟨place, site⟩, there, frees⟩, _⟩ := holds
  rw [and_eq_true, beq_iff_eq] at frees
  obtain ⟨⟨o, hashedSite⟩, alsoThere, hashed⟩ := any_eq_true.mp hasPage
  rw [and_eq_true, beq_iff_eq] at hashed
  obtain ⟨rfl, frees⟩ := frees
  obtain ⟨rfl, hashed⟩ := hashed
  obtain rfl := site_unique sound.once there alsoThere
  exact isUser_of_hashed frees hashed isRegular

theorem freeNow :
    Sound memory (s.freeInAllocator memory page npages path.isUser) := by
  have kept : (s.freeInAllocator memory page npages path.isUser).pending = s.pending := by
    unfold freeInAllocator
    split
    · rfl
    · rfl
  have freed := @Sound.free memory s sound page npages path.isUser s.pending
    (fun o isOther => (sound.mayFree_spec may isRegular isOther).1)
    (fun o isPending => ⟨isPending, fun isOther =>
      (sound.mayFree_spec may isRegular isOther).2 isPending⟩) sound.distinct
  rw [← kept] at freed
  exact freed

theorem freeLater {cpu : Nat} (isUser : page ∈ block page npages → path.isUser = true) :
    Sound memory { s with pending := s.pending ++ [(cpu, page, npages)] } := by
  have added : pendingPages { s with pending := s.pending ++ [(cpu, page, npages)] } =
      s.pendingPages ++ block page npages := by
    simp [pendingPages]
  refine { sound with
    exact := { sound.exact with }
    pending := ?_
    distinct := ?_ }
  · intro o isPending
    rw [added] at isPending
    rcases mem_append.mp isPending with old | new
    · exact sound.pending o old
    · obtain ⟨site, there, user⟩ := (sound.mayFree_spec may isRegular new).1
      exact ⟨site, there, user.trans (isUser (first_mem_block new))⟩
  · rw [added]
    refine sound.distinct.append (block_nodup page npages) ?_
    intro o isPending isOther
    exact (sound.mayFree_spec may isRegular isOther).2 isPending

end Free

theorem flush {cpu page npages : Nat} (isPending : (cpu, page, npages) ∈ s.pending) :
    Sound memory { s.freeInAllocator memory page npages true with
      pending := s.pending.erase (cpu, page, npages) } := by
  have split : (s.pendingPages).Perm (block page npages ++
      pendingPages { s with pending := s.pending.erase (cpu, page, npages) }) :=
    (perm_cons_erase isPending).flatMap_right _
  have distinct := split.nodup_iff.mp sound.distinct
  refine sound.free ?_ ?_ distinct.of_append_right
  · intro o isOther
    exact sound.pending o (split.mem_iff.mpr (mem_append_left _ isOther))
  · intro o still
    refine ⟨split.mem_iff.mpr (mem_append_right _ still), fun isOther => ?_⟩
    exact disjoint_of_nodup_append distinct isOther still

theorem exec {op : Op} {next : State} (isRegular : regular op = true)
    (taken : exec memory s op = some next) : Sound memory next := by
  cases op with
  | alloc site page npages =>
    obtain ⟨possible, taken⟩ := Option.ite_none_left_eq_some.mp taken
    obtain ⟨node, inside, rfl⟩ := Option.map_eq_some_iff.mp taken
    refine sound.alloc (bne_iff_ne.mp isRegular) ?_ inside
    intro o isOther isHanded
    obtain ⟨entry, isEntry, same⟩ := mem_map.mp isHanded
    refine possible (.inr (any_eq_true.mpr ⟨o, isOther, ?_⟩))
    exact any_eq_true.mpr ⟨entry, isEntry, beq_iff_eq.mpr same⟩
  | free cpu path page npages unhashed =>
    obtain ⟨may, taken⟩ := Option.ite_none_right_eq_some.mp taken
    split at taken
    next later =>
      cases taken
      refine sound.freeLater may isRegular fun isFirst => ?_
      rw [and_eq_true, and_eq_true] at later
      exact sound.isUser_of_hasPage may isRegular isFirst later.1.1
    · cases taken
      exact sound.freeNow may isRegular
  | begin cpu =>
    simp only [Rusage.exec] at taken
    split at taken
    · exact nomatch taken
    · cases taken
      exact { sound with exact := { sound.exact with } }
  | flush cpu =>
    simp only [Rusage.exec] at taken
    split at taken
    · exact nomatch taken
    next owner page npages found =>
      cases taken
      exact sound.flush (mem_of_find?_eq_some found)
  | finish cpu =>
    simp only [Rusage.exec] at taken
    split at taken
    · exact nomatch taken
    · cases taken
      exact { sound with exact := { sound.exact with } }

end Sound

theorem sound_boot (memory : Memory) : Sound memory boot where
  exact := ⟨rfl, rfl, fun _ => rfl⟩
  once := nodup_nil
  unmoved _ isEntry := nomatch isEntry
  pending _ isPending := nomatch isPending
  distinct := nodup_nil

/-- In every run without `move_pages`, without a failure in `copy_user_pte` and without the end
of a straight range, the counters are exact all the time. -/
theorem counters_exact (memory : Memory) {state : State}
    (reached : ((machine memory).restrict fun _ op => regular op = true).Reachable state) :
    Exact memory state := by
  have sound : Sound memory state := by
    refine reached.invariant (Sound memory) ?_ ?_
    · rintro state rfl
      exact sound_boot memory
    · intro state op next _ sound taken
      exact sound.exec taken.1 taken.2
  exact sound.exact

/-- Two chunks of 100 pages, one for each node. -/
def twoNodes : Memory where
  chunkOf page := if page < 200 then some (page / 100) else none
  nodeOf chunk := chunk

/-- A page table, three anonymous pages, and a page of a file that is unmapped while another
is still pending. -/
def mapsAndUnmaps : List Op :=
  [.alloc .kernelPage 0 1, .alloc .anonFault 100 3, .alloc .filePage 103 1, .alloc .filePage 5 1,
    .begin 0, .free 0 .clearRange 103 1 false, .free 0 .clearRange 101 1 true,
    .free 0 .objectFree 5 1 false, .flush 0]

theorem counters_exact_unmapped : ∃ state, Exact twoNodes state ∧
    state.total = 16384 ∧ state.kmem = 4096 ∧ state.numa 0 = 4096 ∧ state.numa 1 = 8192 := by
  obtain ⟨state, reached, holds⟩ : ∃ state,
      ((machine twoNodes).restrict fun _ op => regular op = true).Reachable state ∧
        state.total = 16384 ∧ state.kmem = 4096 ∧ state.numa 0 = 4096 ∧ state.numa 1 = 8192 :=
    Machine.exists_restrict_run (fun _ _ => id) rfl (fun _ _ _ => id) mapsAndUnmaps
      (by decide +kernel)
  exact ⟨state, counters_exact twoNodes reached, holds⟩

/-- `copy_user_pte` fails after it has allocated a page; a straight range of two pages is
unmapped; a page is moved and unmapped.  Each time everything has been freed, and the counters
are not zero. -/
theorem counters_drift :
    (∃ state, (machine twoNodes).Reachable state ∧ state.handed = [] ∧ state.total = 0 ∧
      state.kmem = -4096 ∧ state.numa 0 = 4096) ∧
    (∃ state, (machine twoNodes).Reachable state ∧ state.handed = [] ∧ state.total = 0 ∧
      state.kmem = -8192 ∧ state.numa 0 = 8192) ∧
    (∃ state, (machine twoNodes).Reachable state ∧ state.handed = [] ∧ state.total = 0 ∧
      state.kmem = 0 ∧ state.numa 0 = 4096) :=
  ⟨Machine.exists_run rfl (fun _ _ _ => id) [.alloc .forkCopy 7 1, .free 0 .forkError 7 1 false]
      (by decide +kernel),
    Machine.exists_run rfl (fun _ _ _ => id) [.alloc .mmapPopulate 8 2, .begin 0,
      .free 0 .straightRange 8 2 false, .finish 0] (by decide +kernel),
    Machine.exists_run rfl (fun _ _ _ => id) [.alloc .anonFault 7 1, .alloc .movedPage 107 1,
      .free 0 .movePages 7 1 false, .free 0 .clearRange 107 1 true] (by decide +kernel)⟩

end McKernel.Rusage
