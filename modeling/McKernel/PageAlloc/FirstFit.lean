import McKernel.PageAlloc.Conservation

/-!
# Freeing and allocating in the tree

A range that is freed is refused only if it starts inside a free chunk that the descent
meets; an allocation takes the lowest block that is aligned and lies in one chunk.
-/

namespace McKernel.PageAlloc

open RbTree Mem Extent CInt List

/-! ## Refused ranges -/

section DoubleFree

variable {arena : Arena} {range r : FreeChunk}

/-- Some chunk of the tree contains `addr`, and no chunk above it starts at `stop`. -/
def Visible (addr stop : Nat) : ColorTree FreeChunk → Prop
  | .nil => False
  | .node _ left chunk right =>
    Covers chunk addr ∨ chunk.addr ≠ stop ∧ (Visible addr stop left ∨ Visible addr stop right)

theorem Visible.exists_covers {addr stop : Nat} {tree : ColorTree FreeChunk}
    (visible : Visible addr stop tree) : ∃ c ∈ tree.toList, Covers c addr := by
  induction tree with
  | nil => exact visible.elim
  | node color left c right ihLeft ihRight =>
    rcases visible with covers | ⟨-, inLeft | inRight⟩
    · exact ⟨c, by simp, covers⟩
    · obtain ⟨holder, mem, covers⟩ := ihLeft inLeft
      exact ⟨holder, by simp [mem], covers⟩
    · obtain ⟨holder, mem, covers⟩ := ihRight inRight
      exact ⟨holder, by simp [mem], covers⟩

/-- On the way to a chunk that contains the start of the range, the descent stops only at a
chunk that starts where the range ends. -/
theorem descend_of_visible {tree : ColorTree FreeChunk} (path : Spine FreeChunk)
    (gaps : Separated tree.toList) (visible : Visible r.addr r.limit tree) :
    ∃ ichunk, descend (freeRangeTurn r.addr r.size) tree path = .found ichunk ∧
      Covers ichunk.value r.addr := by
  induction tree generalizing path with
  | nil => exact visible.elim
  | node color left c right ihLeft ihRight =>
    simp only [ColorTree.toList_node, Separated, pairwise_append, pairwise_cons,
      mem_cons, forall_eq_or_imp] at gaps
    obtain ⟨gapsLeft, ⟨gapsChunk, gapsRight⟩, gapsAcross⟩ := gaps
    by_cases here : Covers c r.addr
    · refine ⟨⟨color, left, c, right, path⟩, ?_, here⟩
      have stops : freeRangeTurn r.addr r.size c = .stop := if_pos here
      simp only [descend, stops]
    rcases visible with covers | ⟨notAtEnd, inLeft | inRight⟩
    · exact absurd covers here
    · -- The holder stands in front of the chunk, with a gap.
      obtain ⟨holder, mem, covers⟩ := inLeft.exists_covers
      have gap := (gapsAcross holder mem).1
      have turn : freeRangeTurn r.addr r.size c = .left := by
        simp only [freeRangeTurn_eq_left, FreeChunk.limit] at *
        simp only [Covers, lo_freeChunk, hi_freeChunk] at covers gap here
        omega
      obtain ⟨ichunk, found, inChunk⟩ := ihLeft (.inLeft color c right :: path)
        gapsLeft inLeft
      exact ⟨ichunk, by simp only [descend, turn, found], inChunk⟩
    · obtain ⟨holder, mem, covers⟩ := inRight.exists_covers
      have gap := gapsChunk holder mem
      have turn : freeRangeTurn r.addr r.size c = .right := by
        simp only [freeRangeTurn_eq_right, FreeChunk.limit] at *
        simp only [Covers, lo_freeChunk, hi_freeChunk] at covers gap here
        omega
      obtain ⟨ichunk, found, inChunk⟩ := ihRight (.inRight color left c :: path)
        gapsRight inRight
      exact ⟨ichunk, by simp only [descend, turn, found], inChunk⟩

theorem visible_of_descend {tree : ColorTree FreeChunk} {path : Spine FreeChunk}
    {ichunk : Zipper FreeChunk}
    (landed : descend (freeRangeTurn r.addr r.size) tree path = .found ichunk)
    (covers : Covers ichunk.value r.addr) : Visible r.addr r.limit tree := by
  induction tree generalizing path with
  | nil => simp [descend] at landed
  | node color left c right ihLeft ihRight =>
    simp only [descend] at landed
    split at landed
    · cases landed
      exact .inl covers
    next turn => exact .inr ⟨(freeRangeTurn_eq_left.mp turn).2.2.1.symm, .inl (ihLeft landed)⟩
    next turn => exact .inr ⟨(freeRangeTurn_eq_right.mp turn).2.2.1.symm, .inr (ihRight landed)⟩

theorem freeRange_refuses_iff (gaps : Separated arena.chunks) :
    pageAllocRbtreeFreeRange arena r.addr r.size = .error .EINVAL ↔
      Visible r.addr r.limit arena.root := by
  constructor
  · intro refused
    unfold pageAllocRbtreeFreeRange at refused
    split at refused
    next ichunk landed =>
      split_ifs at refused with overlap
      exact visible_of_descend landed overlap
    · cases refused
  · intro visible
    obtain ⟨ichunk, found, covers⟩ := descend_of_visible [] gaps visible
    simp only [pageAllocRbtreeFreeRange, found]
    exact if_pos covers

/-- A range that meets a free chunk is refused, and one that meets none is added to the free
bytes, if and only if the descent can see that a range that meets a chunk starts in one. -/
theorem double_free_refused (gaps : Separated arena.chunks) (rangeNonempty : 0 < range.size) :
    ((∃ chunk ∈ arena.chunks, ¬ Apart chunk range) →
        pageAllocRbtreeFreeRange arena range.addr range.size = .error .EINVAL) ∧
      ((∀ chunk ∈ arena.chunks, Apart chunk range) →
        ∃ arena', pageAllocRbtreeFreeRange arena range.addr range.size = .ok arena' ∧
          Separated arena'.chunks ∧ ∀ point, coverage arena'.chunks point =
            coverage arena.chunks point + if Covers range point then 1 else 0) ↔
    ((∃ chunk ∈ arena.chunks, ¬ Apart chunk range) →
      Visible range.addr range.limit arena.root) := by
  rw [freeRange_refuses_iff gaps]
  refine and_iff_left fun apart => ?_
  obtain ⟨arena', freed, joins, -⟩ := pageAllocRbtreeFreeRange_spec gaps apart rangeNonempty
  refine ⟨arena', freed, joins.separated gaps, fun point => ?_⟩
  rw [joins.coverage_eq point]
  simp

end DoubleFree

/-- Free chunks of two, six and four pages, the second one at the root. -/
def threeChunks : Arena where
  root := .node .black (.node .red .nil ⟨0x1000, 0x2000⟩ .nil) ⟨0x5000, 0x6000⟩
    (.node .red .nil ⟨0xd000, 0x4000⟩ .nil)
  mem := fun _ => 0

/-- The range starts in the second chunk and ends where the third one starts. -/
theorem double_free_refused_inside :
    pageAllocRbtreeFreeRange threeChunks 0x6000 0x7000 = .error .EINVAL := by
  have visible : Visible 0x6000 0xd000 threeChunks.root := .inl (by decide)
  exact ((@double_free_refused threeChunks ⟨0x6000, 0x7000⟩ (by decide) (by decide)).mpr
    fun _ => visible).1 (by decide)

/-- One free chunk of a page at `0x2000`. -/
def onePage : Arena := ⟨.node .black .nil ⟨0x2000, 0x1000⟩ .nil, fun _ => 0⟩

/-- A range that starts in front of a free chunk and covers it is accepted: the tree then
holds the page twice. -/
theorem double_free_accepted :
    (∃ chunk ∈ onePage.chunks, ¬ Apart chunk (⟨0x1000, 0x3000⟩ : FreeChunk)) ∧
      ∃ arena, pageAllocRbtreeFreeRange onePage 0x1000 0x3000 = .ok arena ∧
        arena.chunks = [⟨0x1000, 0x3000⟩, ⟨0x2000, 0x1000⟩] ∧
        coverage arena.chunks 0x2000 = 2 :=
  ⟨by decide, _, rfl, by decide, by decide⟩

/-! ## First fit -/

/-- A block of `npages` pages at `addr` is aligned and lies inside one chunk. -/
def Fits (chunks : List FreeChunk) (npages : Int) (p2align addr : Nat) : Prop :=
  addr % (pageSize * 2 ^ p2align) = 0 ∧ ∃ chunk ∈ chunks, Within (freedBlock addr npages) chunk

section FirstFit

variable {zeroAtFree : Bool} {arena : Arena} {c : FreeChunk} {npages : Int}
  {p2align addr : Nat}

theorem alignedAddr_le {start : Nat} (small : p2align ≤ 51) (bounded : start ≤ 2 ^ 52)
    (above : start ≤ addr) (aligned : addr % (pageSize * 2 ^ p2align) = 0) :
    alignedAddr p2align start ≤ addr := by
  obtain ⟨-, below, rounded⟩ := alignedAddr_spec small bounded
  obtain ⟨multiple, atAddr⟩ := Nat.dvd_of_mod_eq_zero aligned
  obtain ⟨least, atStart⟩ := Nat.dvd_of_mod_eq_zero rounded
  have close : pageSize * 2 ^ p2align * least < pageSize * 2 ^ p2align * (multiple + 1) := by
    rw [← atStart, Nat.mul_succ, ← atAddr]
    omega
  rw [atStart, atAddr]
  exact Nat.mul_le_mul_left _ (Nat.lt_succ_iff.mp (Nat.lt_of_mul_lt_mul_left close))

theorem size_freedBlock (pos : 0 < npages) (inRange : npages < 2 ^ 31) :
    allocSize npages = (freedBlock addr npages).size := by
  have size := allocSize_eq pos inRange
  simp only [freedBlock, pageSize] at size ⊢
  omega

theorem chunkFits_of_within (valid : c.Valid) (pos : 0 < npages)
    (inRange : npages < 2 ^ 31) (small : p2align ≤ 51)
    (aligned : addr % (pageSize * 2 ^ p2align) = 0)
    (within : Within (freedBlock addr npages) c) : chunkFits npages p2align c = true := by
  obtain ⟨starts, ends⟩ := within
  have bounded := valid.bounded
  have size := @size_freedBlock npages addr pos inRange
  simp only [FreeChunk.limit] at ends bounded
  change c.addr ≤ addr at starts
  change addr + _ ≤ _ at ends
  have lowest := alignedAddr_le small (by omega) starts aligned
  refine decide_eq_true ?_
  simp only [FreeChunk.limit]
  omega

theorem allocPages_lowest (gaps : Separated arena.chunks)
    (valid : ∀ c ∈ arena.chunks, c.Valid) (pos : 0 < npages)
    (inRange : npages < 2 ^ 31) (small : p2align ≤ 51) :
    (pageAllocRbtreeAllocPages zeroAtFree arena npages p2align = (arena, 0) ∧
      ∀ addr, ¬ Fits arena.chunks npages p2align addr) ∨
    ∃ arena' addr, pageAllocRbtreeAllocPages zeroAtFree arena npages p2align = (arena', addr) ∧
      addr ≠ 0 ∧ Fits arena.chunks npages p2align addr ∧
      (∀ o, Fits arena.chunks npages p2align o → addr ≤ o) ∧
      Separated arena'.chunks ∧ ∀ p, coverage arena.chunks p =
        coverage arena'.chunks p + coverage [freedBlock addr npages] p := by
  unfold pageAllocRbtreeAllocPages
  cases found : search (chunkFits npages p2align) arena.root [] with
  | none =>
    refine .inl ⟨rfl, ?_⟩
    rintro addr ⟨aligned, c, membership, within⟩
    have fails := search_none found c membership
    rw [chunkFits_of_within (valid c membership) pos inRange small aligned within] at fails
    cases fails
  | some c =>
    obtain ⟨fits, sameChunks⟩ := search_some found
    have passed := search_before found (by simp [Spine.before])
    change c.tree.toList = arena.chunks at sameChunks
    rw [← sameChunks] at gaps valid ⊢
    have chunkValid := valid c.value (by simp)
    obtain ⟨b, atAddr, ofSize, blockValid, starts, ends⟩ :=
      block_of_chunkFits chunkValid pos inRange small fits
    have addrBounded : c.value.addr ≤ 2 ^ 52 := by
      have := chunkValid.bounded
      simp only [FreeChunk.limit] at this
      omega
    have sameBlock : b = freedBlock b.addr npages :=
      FreeChunk.ext rfl (ofSize.symm.trans (size_freedBlock pos inRange))
    obtain ⟨arena', res, carves, -⟩ := takeFromChunk_spec zeroAtFree arena.mem gaps
      blockValid.nonempty starts ends
    refine .inr ⟨arena', b.addr, ?_, Nat.pos_iff_ne_zero.mp blockValid.nonnull, ⟨?_, c.value, by
      simp, ?_⟩, ?_, carves.separated gaps, fun p => ?_⟩
    · simp only [atAddr, ofSize]
      exact res
    · rw [← atAddr]
      exact (alignedAddr_spec small addrBounded).2.2
    · rw [← sameBlock]
      exact ⟨starts, ends⟩
    · rintro o ⟨aligned, holder, membership, within⟩
      have gaps' := gaps
      simp only [Zipper.toList_tree, Separated, pairwise_append, pairwise_cons,
        mem_append, mem_cons] at membership gaps'
      rcases membership with earlier | rfl | later
      -- A chunk in front of the one that was found has no room.
      · have fails := passed holder earlier
        rw [chunkFits_of_within (valid holder (by simp [earlier])) pos inRange small aligned
          within] at fails
        cases fails
      · rw [← atAddr]
        exact alignedAddr_le small addrBounded within.1 aligned
      · have beyond := gaps'.2.1.1 holder later
        have := within.1
        simp only [lo_freeChunk, hi_freeChunk, FreeChunk.limit, freedBlock] at *
        omega
    · rw [← sameBlock]
      exact carves.coverage_eq p

/-- An allocation from the tree takes the lowest aligned block that lies in one chunk and
fails only if there is none; what is left of the chunk stays free, and putting the right
remainder back never fails. -/
theorem first_fit (gaps : Separated arena.chunks)
    (valid : ∀ chunk ∈ arena.chunks, chunk.Valid) (positive : 0 < npages)
    (inRange : npages < 2 ^ 31) (small : p2align ≤ 51) :
    ((pageAllocRbtreeAllocPages zeroAtFree arena npages p2align = (arena, 0) ∧
        ∀ addr, ¬ Fits arena.chunks npages p2align addr) ∨
      ∃ arena' addr, pageAllocRbtreeAllocPages zeroAtFree arena npages p2align = (arena', addr) ∧
        addr ≠ 0 ∧ Fits arena.chunks npages p2align addr ∧
        (∀ other, Fits arena.chunks npages p2align other → addr ≤ other) ∧
        Separated arena'.chunks ∧ ∀ point, coverage arena.chunks point =
          coverage arena'.chunks point + coverage [freedBlock addr npages] point) ∧
    ∀ (mem : Mem) (chunk : Zipper FreeChunk) (block : FreeChunk),
      chunk.tree.toList = arena.chunks → 0 < block.size → Within block chunk.value →
      (pageAllocRbtreeMarkRangeAllocated mem chunk block.addr block.size).2 = none := by
  refine ⟨allocPages_lowest gaps valid positive inRange small, ?_⟩
  intro mem chunk block sameChunks nonempty within
  rw [← sameChunks] at gaps valid
  obtain ⟨_, marked, -⟩ := pageAllocRbtreeMarkRangeAllocated_spec mem gaps nonempty
    within.1 within.2
  rw [marked]

end FirstFit

/-- Two pages at a multiple of `0x2000`: the first chunk has no aligned block, the second one
is left with a page in front of the block and three pages behind it. -/
theorem first_fit_threeChunks :
    let result := pageAllocRbtreeAllocPages true threeChunks 2 1
    result.2 = 0x6000 ∧ result.1.chunks =
        [⟨0x1000, 0x2000⟩, ⟨0x5000, 0x1000⟩, ⟨0x8000, 0x3000⟩, ⟨0xd000, 0x4000⟩] ∧
      ∀ other, Fits threeChunks.chunks 2 1 other → result.2 ≤ other := by
  have room : Fits threeChunks.chunks 2 1 0x6000 :=
    ⟨by decide, ⟨0x5000, 0x6000⟩, by decide, by decide⟩
  have lowest := (@first_fit true threeChunks 2 1 (by decide) (by decide) (by decide) (by decide)
    (by decide)).1
  refine ⟨by decide, by decide, ?_⟩
  rcases lowest with ⟨-, none⟩ | ⟨arena, addr, result, -, -, least, -⟩
  · exact absurd room (none _)
  · intro other fits
    simp only [result]
    exact least other fits

end McKernel.PageAlloc
