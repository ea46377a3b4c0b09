import McKernel.PageAlloc.FirstFit

/-!
# Freeing, zeroing and allocating again

A block that is freed comes back through `to_zero_list` and `zeroed_list`.  Its size is an
`int` on the way, and an allocation decides from the number of free pages alone whether it
looks at what still waits to be zeroed.
-/

namespace McKernel.PageAlloc

open Mem Extent CInt Option

/-- The free memory of a node: the tree, what has been zeroed and what waits to be. -/
def heldFree (node : NumaNode) : List FreeChunk :=
  node.freeChunks.chunks ++ (node.zeroedList ++ node.toZeroList)

variable {config : Config} {node : NumaNode} {live added : List FreeChunk} {block b : FreeChunk}
  {npages : Int} {addr : Nat}

/-! ## Freed blocks -/

variable {node' refilled : NumaNode} {p2align : Nat}

theorem Accounts.coverage_heldFree (accounts : Accounts node live added)
    (after : Accounts node' (surrender piece live) added)
    (held : b ∈ live) (within : Within piece b) (p : Nat) :
    coverage (heldFree node') p =
      coverage (heldFree node) p + coverage [piece] p := by
  have before := accounts.partition p
  have now := after.partition p
  have split := coverage_surrender ⟨b, held, within⟩ p
  simp only [owned, heldFree, coverage_append] at before now ⊢
  omega

theorem zeroAll_toZeroList (node : NumaNode) (zeroed : Int) (list : List FreeChunk) :
    (zeroAll node zeroed list).1.toZeroList = [] := by
  induction list generalizing node zeroed with
  | nil => rfl
  | cons c rest ih => exact ih _ _

/-- What freeing `npages` pages at `addr` and then zeroing all that waits is to do: the size in
bytes does not wrap, exactly these bytes become available, none of them is left on
`to_zero_list`, and the pages are counted once. -/
structure GivesBack (node freed zeroed : NumaNode) (addr : Nat) (npages : Int) : Prop where
  size : shiftedSize npages = pageSize * npages.toNat
  bytes : ∀ point, coverage (heldFree zeroed) point =
    coverage (heldFree node) point + coverage [freedBlock addr npages] point
  noneWaits : ∀ point, Covers (freedBlock addr npages) point →
    coverage zeroed.toZeroList point = 0
  counted : freed.nrFreePages = node.nrFreePages + npages.toNat ∧
      freed.nrToZeroPages = node.nrToZeroPages ∨
    freed.nrFreePages = node.nrFreePages ∧
      freed.nrToZeroPages = toInt (node.nrToZeroPages + npages)

theorem noneWaits_of_free (accounts : Accounts node live added)
    (aligned : addr % pageSize = 0) (pos : 0 < npages) (held : b ∈ live)
    (within : Within (freedBlock addr npages) b) (small : npages * pageSize < 2 ^ 31) (p : Nat)
    (covers : Covers (freedBlock addr npages) p) :
    coverage (ihkNumaZeroFreePages config
      (ihkNumaFreePages config node addr npages) 0).1.toZeroList p = 0 := by
  cases zeroAtFree : config.zeroAtFree with
  | true =>
    simp only [ihkNumaZeroFreePages, zeroAtFree]
    exact congrArg (coverage · p) (zeroAll_toZeroList _ _ _)
  | false =>
    have notWaiting :
        (ihkNumaFreePages config node addr npages).toZeroList = node.toZeroList := by
      rcases ihkNumaFreePages_spec config accounts aligned pos small held within with
        ⟨zeroes, -⟩ | ⟨arena, result, -⟩
      · simp [zeroAtFree] at zeroes
      · simp only [result]
    have single := accounts.atMostOne p
    have split := coverage_surrender ⟨b, held, within⟩ p
    rw [coverage_cons, if_pos covers, coverage_nil] at split
    simp only [ihkNumaZeroFreePages, zeroAtFree, Bool.not_false, if_true, notWaiting]
    omega

theorem shiftedSize_eq_iff (pos : 0 < npages) (inRange : npages < 2 ^ 31) :
    shiftedSize npages = pageSize * npages.toNat ↔ npages * pageSize < 2 ^ 31 := by
  refine ⟨fun size => ?_, shiftedSize_eq pos⟩
  have lower : -2 ^ 31 ≤ toInt (npages * pageSize) := Int.le_bmod (by decide)
  have upper : toInt (npages * pageSize) < 2 ^ 31 := Int.bmod_lt (by decide)
  simp only [shiftedSize, toULong, pageSize] at size lower upper ⊢
  omega

/-- Freeing a part of a held block and zeroing all that waits gives exactly this part back if
and only if its size in bytes is an `int`. -/
theorem freed_pages_available (accounts : Accounts node live added)
    (aligned : addr % pageSize = 0) (positive : 0 < npages) (inRange : npages < 2 ^ 31)
    (held : block ∈ live) (within : Within (freedBlock addr npages) block) :
    let freed := ihkNumaFreePages config node addr npages
    GivesBack node freed (ihkNumaZeroFreePages config freed 0).1 addr npages ↔
      npages * pageSize < 2 ^ 31 := by
  intro freed
  refine ⟨fun givesBack => (shiftedSize_eq_iff positive inRange).mp givesBack.size,
    fun small => ?_⟩
  have afterFree := accounts.free config aligned positive small held within
  have afterZero := afterFree.zeroes (zeroes_ihkNumaZeroFreePages config freed 0)
  refine ⟨shiftedSize_eq positive small, accounts.coverage_heldFree afterZero held within,
    noneWaits_of_free accounts aligned positive held within small, ?_⟩
  rcases ihkNumaFreePages_spec config accounts aligned positive small held within with
    ⟨-, mem, result, -⟩ | ⟨arena, result, -⟩
  · exact .inr (by simp [freed, result, NumaNode.setMem])
  · exact .inl (by simp [freed, result])

/-- The first allocation from a node that has just been given its memory. -/
def handedOut (config : Config) (addr size : Nat) (npages : Int) : Option (NumaNode × Nat) :=
  ihkNumaAllocPages config (ihkNumaAddFreePages config (NumaNode.init fun _ => 0) addr size).1
    npages 0

/-- Two pages in the middle of a block of four. -/
theorem freed_pages_available_middle :
    ∃ node, handedOut ⟨true, true⟩ 0x10000 0x8000 4 = some (node, 0x10000) ∧
      let freed := ihkNumaFreePages ⟨true, true⟩ node 0x11000 2
      GivesBack node freed (ihkNumaZeroFreePages ⟨true, true⟩ freed 0).1 0x11000 2 := by
  have boot : Accounts (NumaNode.init fun _ => 0) [] [] := Accounts.boot _
  have valid : (⟨0x10000, 0x8000⟩ : FreeChunk).Valid := by decide
  have added := (boot.add ⟨true, true⟩ valid (by decide)).2
  have result : (handedOut ⟨true, true⟩ 0x10000 0x8000 4).map Prod.snd = some 0x10000 := by
    decide +kernel
  obtain ⟨⟨node, addr⟩, taken, rfl⟩ := map_eq_some_iff.mp result
  have accounts := added.alloc (by decide) (by decide) (by decide) taken
  have within : Within (freedBlock 0x11000 2) ⟨0x10000, allocSize 4⟩ := by decide
  exact ⟨node, taken, (freed_pages_available accounts (by decide) (by decide) (by decide)
    (by decide) within).mpr (by decide)⟩

/-- `2 ^ 20` pages are `2 ^ 32` bytes, 0 as an `int`: nothing comes back, yet the pages are
counted. -/
theorem freed_pages_lost :
    (handedOut ⟨false, false⟩ 0x100000000 0x100000000 (2 ^ 20)).any fun (node, addr) =>
      let freed := ihkNumaFreePages ⟨false, false⟩ node addr (2 ^ 20)
      addr = 0x100000000 && node.minAddr = 0x100000000 && node.maxAddr = 0x200000000 &&
        freed.freeChunks.chunks = [⟨0x100000000, 0⟩] && freed.nrFreePages = 2 ^ 20 &&
        coverage (heldFree freed) addr = 0 := by
  decide +kernel

/-! ## Allocations that fail -/

theorem freeZeroed_zeroedList (node : NumaNode) (list : List FreeChunk) :
    (freeZeroed node list).zeroedList = [] := by
  induction list generalizing node with
  | nil => rfl
  | cons c rest ih =>
    simp only [freeZeroed]
    split <;> exact ih _

theorem coverage_freeZeroed (accounts : Accounts { node with zeroedList := list } live added) :
    (∀ p, coverage (freeZeroed node list).freeChunks.chunks p =
      coverage node.freeChunks.chunks p + coverage list p) ∧
    total (freeZeroed node list).freeChunks.chunks =
      total node.freeChunks.chunks + total list := by
  induction list generalizing node with
  | nil => simp [freeZeroed]
  | cons c rest ih =>
    obtain ⟨arena, freed, joins, -, books⟩ := accounts.drainOne
    obtain ⟨covered, size⟩ := @ih { node with
      freeChunks := arena
      nrFreePages := node.nrFreePages + c.size / pageSize } books
    simp only [freeZeroed, freed, covered, size, joins.coverage_eq, joins.total_eq,
      coverage_cons, coverage_nil, total_cons, lo_freeChunk, hi_freeChunk]
    exact ⟨fun p => by omega, by omega⟩

/-- The memory an allocation looks at: the tree and `zeroed_list`, and, if these have too few
pages, the first entry of `to_zero_list` that is big enough. -/
def considered (config : Config) (node : NumaNode) (npages : Int) : List FreeChunk :=
  let zeroed := node.freeChunks.chunks ++ node.zeroedList
  if !config.zeroAtFree then node.freeChunks.chunks
  else if pageSize * npages.toNat ≤ total zeroed then zeroed
  else
    match node.toZeroList.find? fun chunk => decide (shiftedSize npages ≤ chunk.size) with
    | some chunk => if npages ≤ toInt (chunk.size / pageSize) then zeroed ++ [chunk] else zeroed
    | none => zeroed

theorem Accounts.nrFreePages_lt_iff (accounts : Accounts node live added) (pos : 0 < npages)
    (inRange : npages < 2 ^ 31) :
    node.nrFreePages < toULong npages ↔
      total node.freeChunks.chunks < pageSize * npages.toNat := by
  have pages : (toULong npages : Int) = npages := toULong_of_range (by omega) (by omega)
  have counted := accounts.nrFree
  simp only [pageSize] at counted ⊢
  omega

/-- The last round of the loop: nothing waits to be merged and there are enough pages. -/
theorem retryLoop_of_enough (accounts : Accounts node live added) (pos : 0 < npages)
    (inRange : npages < 2 ^ 31) (zeroAtFree : config.zeroAtFree)
    (enough : pageSize * npages.toNat ≤ total (node.freeChunks.chunks ++ node.zeroedList))
    (refills : retryLoop config npages fuel node = some refilled) :
    refilled = freeZeroed node node.zeroedList := by
  obtain ⟨-, size⟩ := coverage_freeZeroed accounts
  have drained : Accounts (freeZeroed node node.zeroedList) live added := accounts.freeZeroed
  rw [total_append, ← size] at enough
  have notFewer := mt (drained.nrFreePages_lt_iff pos inRange).mp (by omega)
  cases fuel with
  | zero => cases refills
  | succ fuel =>
    simp only [retryLoop, zeroAtFree, if_neg notFewer] at refills
    cases refills
    rfl

theorem coverage_retryLoop (accounts : Accounts node live added) (pos : 0 < npages)
    (inRange : npages < 2 ^ 31) (refills : retryLoop config npages fuel node = some refilled)
    (p : Nat) :
    coverage refilled.freeChunks.chunks p = coverage (considered config node npages) p := by
  cases zeroAtFree : config.zeroAtFree with
  | false =>
    cases fuel with
    | zero => cases refills
    | succ fuel =>
      simp only [retryLoop, zeroAtFree] at refills
      cases refills
      simp [considered, zeroAtFree]
  | true =>
    obtain ⟨covered, size⟩ := coverage_freeZeroed accounts
    have drained : Accounts (freeZeroed node node.zeroedList) live added := accounts.freeZeroed
    rw [considered, if_neg (by simp [zeroAtFree])]
    by_cases enough :
        pageSize * npages.toNat ≤ total (node.freeChunks.chunks ++ node.zeroedList)
    · rw [retryLoop_of_enough accounts pos inRange zeroAtFree enough refills, if_pos enough,
        covered, coverage_append]
    rw [if_neg enough]
    have fewer := (drained.nrFreePages_lt_iff pos inRange).mpr
      (by rw [size, ← total_append]; omega)
    cases fuel with
    | zero => cases refills
    | succ fuel =>
      rw [retryLoop, if_neg (by simp [zeroAtFree])] at refills
      simp only [if_pos fewer] at refills
      rw [← freeZeroed_toZeroList node node.zeroedList]
      cases found : (freeZeroed node node.zeroedList).toZeroList.find?
          fun chunk => decide (shiftedSize npages ≤ chunk.size) with
      | none =>
        obtain ⟨mem, result, -⟩ := ihkNumaZeroFreePages_of_not_found zeroAtFree (by omega) found
        have notEnough : ¬ (0 : Int) ≥ npages := by omega
        simp only [result, if_neg notEnough] at refills
        cases refills
        exact (covered p).trans (coverage_append _ _ _).symm
      | some c =>
        obtain ⟨node', front, back, result, step⟩ :=
          ihkNumaZeroFreePages_of_found zeroAtFree (by omega) found
        have chunks : node'.freeChunks.chunks =
            (freeZeroed node node.zeroedList).freeChunks.chunks := by
          rw [step.result]
          rfl
        have list : node'.zeroedList = [c] := by
          rw [step.result]
          simp [freeZeroed_zeroedList]
        simp only [result] at refills
        by_cases big : npages ≤ toInt (c.size / pageSize)
        · -- The entry alone has enough pages, so the next round is the last one.
          have after := drained.zeroStep step
          have enough' :
              pageSize * npages.toNat ≤ total (node'.freeChunks.chunks ++ node'.zeroedList) := by
            have pages := toInt_le_self (v := (c.size / pageSize : Nat)) (Int.natCast_nonneg _)
            simp only [list, total_append, total_cons, total_nil, lo_freeChunk, hi_freeChunk]
            simp only [pageSize, Int.natCast_ediv] at pages big ⊢
            omega
          rw [if_pos big] at refills
          obtain ⟨moved, -⟩ := coverage_freeZeroed after
          rw [retryLoop_of_enough after pos inRange zeroAtFree enough' refills, moved, chunks,
            covered, list]
          simp only [if_pos big, coverage_append]
        · rw [if_neg big] at refills
          cases refills
          rw [chunks, covered]
          simp only [if_neg big, coverage_append]

theorem size_le_total {chunks : List FreeChunk} (mem : c ∈ chunks) :
    c.size ≤ total chunks := by
  induction mem with
  | head rest => simp
  | tail o _ ih =>
    rw [total_cons]
    omega

theorem no_run_of_failure
    (refills : retryLoop config npages (node.toZeroList.length + 1) node = some refilled)
    (accounts : Accounts refilled live added) (pos : 0 < npages)
    (inRange : npages < 2 ^ 31) (small : p2align ≤ 51)
    (res : ihkNumaAllocPages config node npages p2align = some (node', 0)) {start : Nat}
    (aligned : start % (pageSize * 2 ^ p2align) = 0) :
    ∃ p, start ≤ p ∧ p < start + pageSize * npages.toNat ∧
      coverage refilled.freeChunks.chunks p = 0 := by
  by_contra covered
  obtain ⟨c, mem, within⟩ := accounts.separated.exists_container
    (fun _ _ => Nat.le_add_right _ _)
    (show start < start + pageSize * npages.toNat by simp only [pageSize]; omega)
    fun p above below => coverage_pos.mp
      (Nat.pos_of_ne_zero fun free => covered ⟨p, above, below, free⟩)
  simp only [ihkNumaAllocPages, refills, bind_eq_bind, bind_some] at res
  have pages : (toULong npages : Int) = npages := toULong_of_range (by omega) (by omega)
  have enough : ¬ refilled.nrFreePages < toULong npages := by
    have counted := accounts.nrFree
    have room := size_le_total mem
    simp only [lo_freeChunk, hi_freeChunk, pageSize] at within counted
    omega
  rw [if_neg enough] at res
  rcases allocPages_lowest accounts.separated accounts.treeValid pos inRange small with
    ⟨-, none⟩ | ⟨arena, addr, taken, nonnull, -⟩
  · exact none start ⟨aligned, c, mem, within⟩
  · rw [taken] at res
    simp [nonnull] at res

/-- The chunks hold a run of `npages` pages that starts at a multiple of the alignment. -/
def HasRun (chunks : List FreeChunk) (npages : Int) (p2align : Nat) : Prop :=
  ∃ start, start % (pageSize * 2 ^ p2align) = 0 ∧
    ∀ point, start ≤ point → point < start + pageSize * npages.toNat → 0 < coverage chunks point

theorem ihkNumaAllocPages_isSome (config : Config) (node : NumaNode) (pos : 0 < npages)
    (p2align : Nat) :
    ∃ refilled result, retryLoop config npages (node.toZeroList.length + 1) node = some refilled ∧
      ihkNumaAllocPages config node npages p2align = some result := by
  obtain ⟨refilled, refills⟩ : ∃ refilled,
      retryLoop config npages (node.toZeroList.length + 1) node = some refilled :=
    isSome_iff_exists.mp (retryLoop_isSome pos (Nat.lt_succ_self _))
  simp only [ihkNumaAllocPages, refills, bind_eq_bind, bind_some]
  split_ifs <;> exact ⟨_, _, rfl, rfl⟩

/-- A block that was handed out is aligned, and was covered by the memory looked at. -/
theorem ihkNumaAllocPages_run (accounts : Accounts node live added) (pos : 0 < npages)
    (inRange : npages < 2 ^ 31) (small : p2align ≤ 51)
    (result : ihkNumaAllocPages config node npages p2align = some (node', addr))
    (success : addr ≠ 0) :
    addr % (pageSize * 2 ^ p2align) = 0 ∧ ∀ p, addr ≤ p → p < addr + pageSize * npages.toNat →
      0 < coverage (considered config node npages) p := by
  obtain ⟨refilled, _, refills, -⟩ := ihkNumaAllocPages_isSome config node pos p2align
  have after := accounts.retryLoop refills
  simp only [ihkNumaAllocPages, refills, bind_eq_bind, bind_some] at result
  rcases @allocPages_lowest config.zeroAtFree _ _ _ after.separated after.treeValid pos
    inRange small with
    ⟨none, -⟩ | ⟨arena, start, taken, nonnull, ⟨aligned, c, mem, within⟩, -⟩
  · split at result <;> simp_all
  · have sameAddr : addr = start := by
      simp only [taken, if_pos nonnull] at result
      split at result <;> simp_all
    subst sameAddr
    refine ⟨aligned, fun p above below => ?_⟩
    rw [← coverage_retryLoop accounts pos inRange refills]
    refine one_le_coverage mem ?_
    simp only [Within, FreeChunk.limit, freedBlock] at within
    simp only [Covers, lo_freeChunk, hi_freeChunk]
    omega

/-- An allocation returns, and succeeds if and only if there is a run in the memory it looks
at. -/
theorem ihkNumaAllocPages_succeeds_iff (config : Config) (accounts : Accounts node live added)
    (pos : 0 < npages) (inRange : npages < 2 ^ 31) (small : p2align ≤ 51) :
    ∃ node' addr, ihkNumaAllocPages config node npages p2align = some (node', addr) ∧
      (addr ≠ 0 ↔ HasRun (considered config node npages) npages p2align) := by
  obtain ⟨refilled, ⟨node', addr⟩, refills, result⟩ :=
    ihkNumaAllocPages_isSome config node pos p2align
  refine ⟨node', addr, result, fun success =>
    ⟨addr, ihkNumaAllocPages_run accounts pos inRange small result success⟩, ?_⟩
  rintro ⟨start, aligned, run⟩ rfl
  obtain ⟨p, above, below, free⟩ := no_run_of_failure refills (accounts.retryLoop refills) pos
    inRange small result aligned
  have := run p above below
  rw [← coverage_retryLoop accounts pos inRange refills, free] at this
  exact Nat.lt_irrefl _ this

/-- An allocation returns, and fails only if the free memory of the node has no run, if and
only if a run in the free memory means a run in the memory it looks at. -/
theorem allocation_complete {p2align : Nat} (accounts : Accounts node live added)
    (positive : 0 < npages) (inRange : npages < 2 ^ 31) (small : p2align ≤ 51) :
    (∃ node' addr, ihkNumaAllocPages config node npages p2align = some (node', addr) ∧
      (addr = 0 → ¬ HasRun (heldFree node) npages p2align)) ↔
    (HasRun (heldFree node) npages p2align →
      HasRun (considered config node npages) npages p2align) := by
  obtain ⟨node', addr, result, succeeds⟩ :=
    ihkNumaAllocPages_succeeds_iff config accounts positive inRange small
  constructor
  · rintro ⟨node₁, addr₁, result₁, complete⟩ run
    rw [result] at result₁
    cases result₁
    exact succeeds.mp fun failed => complete failed run
  · intro looked
    exact ⟨node', addr, result, fun failed run => succeeds.mpr (looked run) failed⟩

/-- All pages have been handed out and two of them freed: they are zeroed on demand. -/
theorem allocation_complete_on_demand :
    ∃ system, (machine ⟨true, true⟩).Reachable system ∧
      system.node.toZeroList = [⟨0x12000, 0x2000⟩] ∧ system.node.nrFreePages = 0 ∧
      ∃ node' addr, ihkNumaAllocPages ⟨true, true⟩ system.node 2 1 = some (node', addr) ∧
        (addr = 0 → ¬ HasRun (heldFree system.node) 2 1) := by
  obtain ⟨system, reached, waiting, none, looked⟩ :
      ∃ system, (machine ⟨true, true⟩).Reachable system ∧
        system.node.toZeroList = [⟨0x12000, 0x2000⟩] ∧ system.node.nrFreePages = 0 ∧
        considered ⟨true, true⟩ system.node 2 = heldFree system.node :=
    exists_run (fun _ => 0) [.add 0x10000 0x4000, .alloc 2 1, .alloc 2 1, .free 0x12000 2]
      (by decide +kernel)
  refine ⟨system, reached, waiting, none, (allocation_complete (accounts_of_reachable reached)
    (by decide) (by decide) (by decide)).mpr ?_⟩
  rw [looked]
  exact id

/-- Two free pages that are not neighbours are enough for the counter: two neighbouring pages
on `to_zero_list` are not looked at. -/
theorem allocation_incomplete :
    (Machine.run (fun system op => decide (Admissible system op)) (exec ⟨true, true⟩)
      (System.boot fun _ => 0)
      [.add 0x10000 0x6000, .alloc 1 0, .alloc 1 0, .alloc 1 0, .alloc 1 0, .alloc 2 0,
        .free 0x10000 1, .free 0x12000 1, .zero 0, .alloc 2 0, .free 0x14000 2]).any fun system =>
      (ihkNumaAllocPages ⟨true, true⟩ system.node 2 0).any (fun (_, addr) => addr = 0) &&
        system.node.toZeroList = [⟨0x14000, 0x2000⟩] := by
  decide +kernel

end McKernel.PageAlloc
