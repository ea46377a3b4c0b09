import McKernel.PageAlloc.Conservation

/-!
# Zeroed memory

With `zero_at_free` set, free memory is kept zeroed apart from the headers linked in
the tree, so that callers get zeroed blocks.  A chunk that comes from `zeroed_list`
still carries its header.  When it is appended to a chunk that ends where it starts,
that header is neither linked nor cleared.
-/

namespace McKernel.PageAlloc

open Mem Extent CInt Option

variable {config : Config} {c r : FreeChunk} {npages : Int}
  {chunks chunks' : List FreeChunk} {mem mem' : Mem} {p : Nat} {node' : NumaNode}
  {system : System}

/-- The chunk is zero behind its header. -/
def BodyZero (mem : Mem) (chunk : FreeChunk) : Prop :=
  ∀ point, chunk.addr + headerSize ≤ point → point < chunk.limit → mem point = 0

/-- Everything that is free and has been zeroed is zero behind its header. -/
structure Clean (node : NumaNode) : Prop where
  tree : ∀ chunk ∈ node.freeChunks.chunks, BodyZero node.mem chunk
  zeroed : ∀ chunk ∈ node.zeroedList, BodyZero node.mem chunk

/-! ## Headers and coverage -/

theorem FreeChunk.Valid.pageSize_le (valid : c.Valid) :
    pageSize ≤ c.size :=
  Nat.le_of_dvd valid.nonempty (Nat.dvd_of_mod_eq_zero valid.sizeAligned)

theorem coverage_pos_of_inHeader (valid : ∀ c ∈ chunks, c.Valid)
    (inside : InHeader chunks p) :
    0 < coverage chunks p := by
  obtain ⟨c, mem, lower, upper⟩ := inside
  have large := (valid c mem).pageSize_le
  refine coverage_pos.mpr ⟨c, mem, ?_⟩
  simp only [Covers, lo_freeChunk, hi_freeChunk, headerSize, pageSize] at *
  omega

theorem not_inHeader_of_coverage (valid : ∀ c ∈ chunks, c.Valid)
    (untouched : coverage chunks p = 0) :
    ¬ InHeader chunks p := by
  intro inside
  have := coverage_pos_of_inHeader valid inside
  omega

theorem covers_of_body (lower : c.addr + headerSize ≤ p) (upper : p < c.limit) :
    Covers c p := by
  simp only [Covers, lo_freeChunk, hi_freeChunk, headerSize, FreeChunk.limit] at *
  omega

theorem not_inHeader_of_body (valid : ∀ c ∈ chunks, c.Valid)
    (single : coverage chunks p ≤ 1) (mem : c ∈ chunks)
    (lower : c.addr + headerSize ≤ p) (upper : p < c.limit) :
    ¬ InHeader chunks p := by
  obtain ⟨front, back, rfl⟩ := List.append_of_mem mem
  have covers := covers_of_body lower upper
  simp only [coverage_append, coverage_cons, if_pos covers] at single
  simp only [List.forall_mem_append, List.forall_mem_cons] at valid
  rw [inHeader_append, inHeader_cons, not_or, not_or]
  exact ⟨not_inHeader_of_coverage valid.1 (by omega), by omega,
    not_inHeader_of_coverage valid.2.2 (by omega)⟩

theorem exists_body_of_coverage (covered : 0 < coverage chunks p)
    (outside : ¬ InHeader chunks p) :
    ∃ c ∈ chunks, c.addr + headerSize ≤ p ∧ p < c.limit := by
  obtain ⟨c, mem, covers⟩ := coverage_pos.mp covered
  refine ⟨c, mem, ?_, covers.2⟩
  by_contra before
  exact outside ⟨c, mem, covers.1, by omega⟩

theorem BodyZero.of_memory (zero : BodyZero mem c)
    (quiet : ∀ p, Covers c p → mem' p = mem p ∨ mem' p = 0) :
    BodyZero mem' c := by
  intro p lower upper
  rcases quiet p (covers_of_body lower upper) with same | cleared
  · rw [same]
    exact zero p lower upper
  · exact cleared

/-- Overwriting nothing but memory that is neither free nor zeroed, or storing zeros,
keeps a node clean. -/
theorem Clean.of_memory {node : NumaNode} (clean : Clean node)
    (sameTree : node'.freeChunks.chunks = node.freeChunks.chunks)
    (sameList : node'.zeroedList = node.zeroedList)
    (quiet : ∀ p, 0 < coverage node.freeChunks.chunks p + coverage node.zeroedList p →
      node'.mem p = node.mem p ∨ node'.mem p = 0) : Clean node' := by
  constructor
  · rw [sameTree]
    refine fun c membership => (clean.tree c membership).of_memory fun p covers => ?_
    exact quiet p (Nat.add_pos_left (one_le_coverage membership covers) _)
  · rw [sameList]
    refine fun c membership => (clean.zeroed c membership).of_memory fun p covers => ?_
    exact quiet p (Nat.add_pos_right _ (one_le_coverage membership covers))

/-! ## Joining the tree -/

/-- A zeroed range joins zeroed chunks. Its own header must be zero too, unless it
becomes the front of a chunk. -/
theorem Clean.join (joins : Coalesces r chunks node'.freeChunks.chunks)
    (effect : HeaderEffect chunks node'.freeChunks.chunks mem node'.mem)
    (valid : ∀ c ∈ chunks, c.Valid) (rangeValid : r.Valid)
    (single : ∀ p, coverage chunks p + coverage [r] p +
      coverage node'.zeroedList p ≤ 1)
    (clean : ∀ c ∈ chunks, BodyZero mem c) (rangeClean : BodyZero mem r)
    (listed : ∀ entry ∈ node'.zeroedList, BodyZero mem entry)
    (header : (∀ p, InHeader [r] p → mem p = 0) ∨
      ∀ c ∈ chunks, c.limit ≠ r.addr) :
    Clean node' := by
  have valid' := joins.valid rangeValid valid
  constructor
  · intro c membership p lower upper
    have covered := joins.coverage_eq p
    have bound := single p
    have pos := one_le_coverage membership (covers_of_body lower upper)
    have outside := not_inHeader_of_body valid' (by omega) membership lower upper
    by_cases before : InHeader chunks p
    · exact effect.cleared p before outside
    · rw [effect.kept p before outside]
      rcases Nat.eq_zero_or_pos (coverage chunks p) with untouched | inChunks
      · by_cases inHeader : InHeader [r] p
        · rcases header with zero | notTouched
          · exact zero p inHeader
          · obtain ⟨front, frontMembership, atFront⟩ := joins.exists_front notTouched
            simp only [inHeader_cons, not_inHeader_nil, or_false] at inHeader
            exact absurd ⟨front, frontMembership, by rw [atFront]; exact inHeader⟩ outside
        · obtain ⟨o, inRange, bodyLower, bodyUpper⟩ :=
            exists_body_of_coverage (by omega) inHeader
          obtain rfl := List.mem_singleton.mp inRange
          exact rangeClean p bodyLower bodyUpper
      · obtain ⟨o, otherMembership, bodyLower, bodyUpper⟩ :=
          exists_body_of_coverage inChunks before
        exact clean o otherMembership p bodyLower bodyUpper
  · refine fun entry membership => (listed entry membership).of_memory fun p covers => .inl ?_
    have here := one_le_coverage membership covers
    have bound := single p
    have grown := joins.coverage_eq p
    exact effect.kept p (not_inHeader_of_coverage valid (by omega))
      (not_inHeader_of_coverage valid' (by omega))

/-! ## Moving zeroed chunks into the tree -/

/-- No entry of `drained` starts where a chunk or an earlier entry ends. -/
def Untouched (chunks drained : List FreeChunk) : Prop :=
  (∀ entry ∈ drained, ∀ chunk ∈ chunks, chunk.limit ≠ entry.addr) ∧
    drained.Pairwise fun earlier later => earlier.limit ≠ later.addr

variable {arena : Arena} {rest : List FreeChunk}

theorem Untouched.tail (untouched : Untouched chunks (r :: rest))
    (joins : Coalesces r chunks chunks') :
    Untouched chunks' rest := by
  obtain ⟨fromChunks, fromEntries⟩ := untouched
  rw [List.pairwise_cons] at fromEntries
  refine ⟨fun entry mem c inChunks => ?_, fromEntries.2⟩
  rcases joins.limit_eq inChunks with ofRange | ⟨old, oldMembership, sameLimit⟩
  · rw [ofRange]
    exact fromEntries.1 entry mem
  · rw [sameLimit]
    exact fromChunks entry (List.mem_cons_of_mem _ mem) old oldMembership

section

variable {node : NumaNode} {live added : List FreeChunk}

theorem Clean.drainOne (accounts : Accounts { node with zeroedList := c :: rest } live added)
    (clean : Clean { node with zeroedList := c :: rest })
    (joins : Coalesces c node.freeChunks.chunks arena.chunks)
    (effect : HeaderEffect node.freeChunks.chunks arena.chunks node.mem arena.mem)
    (untouched : ∀ o ∈ node.freeChunks.chunks, o.limit ≠ c.addr) :
    Clean { node with
      freeChunks := arena
      zeroedList := rest
      nrFreePages := node.nrFreePages + c.size / pageSize } := by
  have chunkValid : c.Valid := accounts.valid c (by simp [owned])
  refine Clean.join joins effect accounts.treeValid chunkValid (fun p => ?_) clean.tree
    (clean.zeroed c (by simp))
    (fun entry membership => clean.zeroed entry (List.mem_cons_of_mem _ membership))
    (.inr untouched)
  have bound := accounts.atMostOne p
  simp only [coverage_cons, coverage_nil] at bound ⊢
  omega

theorem freeZeroed_spec (accounts : Accounts { node with zeroedList := list } live added)
    (clean : Clean { node with zeroedList := list }) {later : List FreeChunk}
    (untouched : Untouched node.freeChunks.chunks (list ++ later)) :
    (freeZeroed node list).zeroedList = [] ∧
      (freeZeroed node list).nrFreePages = node.nrFreePages + total list / pageSize ∧
      Clean (freeZeroed node list) ∧
      Untouched (freeZeroed node list).freeChunks.chunks later := by
  induction list generalizing node with
  | nil => exact ⟨rfl, by simp [freeZeroed], clean, untouched⟩
  | cons c rest ih =>
    obtain ⟨arena, freed, joins, effect, books⟩ := accounts.drainOne
    have chunkValid : c.Valid := accounts.valid c (by simp [owned])
    have cleaned := clean.drainOne accounts joins effect (untouched.1 c (by simp))
    obtain ⟨drained, pages, rest⟩ := @ih
      { node with
        freeChunks := arena
        nrFreePages := node.nrFreePages + c.size / pageSize }
      books cleaned (untouched.tail joins)
    simp only [freeZeroed, freed]
    refine ⟨drained, ?_, rest⟩
    rw [pages]
    have whole := chunkValid.mul_div
    simp only [total_cons, lo_freeChunk, hi_freeChunk, pageSize] at whole ⊢
    omega

theorem Accounts.not_inHeader_toZeroList (accounts : Accounts node live added)
    (covered : 0 < coverage node.freeChunks.chunks p + coverage node.zeroedList p) :
    ¬ InHeader node.toZeroList p := by
  refine not_inHeader_of_coverage
    (fun entry mem => accounts.valid entry (by simp [owned, mem])) ?_
  have bound := accounts.atMostOne p
  omega

theorem Clean.zeroStep (clean : Clean node)
    (accounts : Accounts node live added) (step : ZeroStep node node' front back c) :
    Clean node' := by
  obtain ⟨taken, res, memory⟩ := step
  have kept : Clean (node.setMem node'.mem) := by
    refine clean.of_memory rfl rfl fun p covered => ?_
    change node'.mem p = _ ∨ node'.mem p = 0
    rw [memory p (accounts.not_inHeader_toZeroList covered)]
    split
    · exact .inr rfl
    · exact .inl rfl
  have zeroedNow : BodyZero node'.mem c := by
    intro p lower upper
    have bound := accounts.atMostOne p
    have outside : ¬ InHeader node.toZeroList p :=
      not_inHeader_of_body
        (fun entry membership => accounts.valid entry (by simp [owned, membership]))
        (by omega) (by simp [taken]) lower upper
    rw [memory p outside, if_pos ⟨lower, upper⟩]
  have sameTree : node'.freeChunks.chunks = node.freeChunks.chunks := by
    rw [res]
    rfl
  have grown : node'.zeroedList = c :: node.zeroedList := by rw [res]
  constructor
  · rw [sameTree]
    exact kept.tree
  · rw [grown]
    exact List.forall_mem_cons.mpr ⟨zeroedNow, kept.zeroed⟩

theorem Clean.zeroes (clean : Clean node) (accounts : Accounts node live added)
    (moves : Zeroes node node') : Clean node' := by
  induction moves with
  | idle quiet =>
    exact clean.of_memory rfl rfl fun p covered =>
      .inl (quiet p (accounts.not_inHeader_toZeroList covered))
  | step first _ ih => exact ih (clean.zeroStep accounts first) (accounts.zeroStep first)

/-! ## Allocating -/

/-- The entries an allocation moves into the tree: all of `zeroed_list` and, when that is
not enough, the first entry of `to_zero_list` that satisfies the request. -/
def drainedByAlloc (node : NumaNode) (npages : Int) : List FreeChunk :=
  node.zeroedList ++
    if node.nrFreePages + total node.zeroedList / pageSize < toULong npages then
      (node.toZeroList.find? fun chunk => decide (shiftedSize npages ≤ chunk.size)).toList.filter
        fun chunk => decide (npages ≤ toInt (chunk.size / pageSize))
    else []

theorem drainedByAlloc_of_enough (list : node.zeroedList = [c]) (pos : 0 < npages)
    (inRange : npages < 2 ^ 31) (enough : npages ≤ toInt (c.size / pageSize)) :
    drainedByAlloc node npages = [c] := by
  have notShort : ¬ node.nrFreePages + total [c] / pageSize < toULong npages := by
    have pages := toInt_le_self (show (0 : Int) ≤ c.size / pageSize by
      simp only [pageSize]
      omega)
    have request : (toULong npages : Int) = npages := toULong_of_range (by omega) (by omega)
    simp only [total_cons, total_nil, lo_freeChunk, hi_freeChunk, pageSize] at enough pages ⊢
    omega
  rw [drainedByAlloc, list, if_neg notShort]
  rfl

theorem Clean.retryLoop (clean : Clean node) (accounts : Accounts node live added)
    (zeroAtFree : config.zeroAtFree = true) (pos : 0 < npages) (inRange : npages < 2 ^ 31)
    (untouched : Untouched node.freeChunks.chunks (drainedByAlloc node npages))
    (res : retryLoop config npages fuel node = some node') : Clean node' := by
  induction fuel generalizing node with
  | zero => simp [PageAlloc.retryLoop] at res
  | succ fuel ih =>
    obtain ⟨emptied, pages, drained, rest⟩ := freeZeroed_spec accounts clean untouched
    have books : Accounts (freeZeroed node node.zeroedList) live added := accounts.freeZeroed
    simp only [PageAlloc.retryLoop, zeroAtFree, Bool.not_true, Bool.false_eq_true,
      if_false] at res
    split at res
    next short =>
      cases found : node.toZeroList.find?
          fun c => decide (shiftedSize npages ≤ c.size) with
      | none =>
        have missing := found
        rw [← freeZeroed_toZeroList node node.zeroedList] at missing
        obtain ⟨mem, zeroed, -⟩ :=
          ihkNumaZeroFreePages_of_not_found zeroAtFree (by omega) missing
        have cleaned := drained.zeroes books (zeroes_ihkNumaZeroFreePages config _ npages)
        rw [zeroed] at res cleaned
        rw [if_neg (by simp only; omega)] at res
        cases res
        exact cleaned
      | some c =>
        have available := found
        rw [← freeZeroed_toZeroList node node.zeroedList] at available
        obtain ⟨next, front, back, zeroed, step⟩ :=
          ihkNumaZeroFreePages_of_found zeroAtFree (by omega) available
        have cleaned := drained.zeroStep books step
        rw [zeroed] at res
        split at res
        next enough =>
          simp only [ge_iff_le] at enough
          refine ih cleaned (books.zeroStep step) ?_ res
          have sameTree : next.freeChunks.chunks =
              (freeZeroed node node.zeroedList).freeChunks.chunks := by
            rw [step.result]
            rfl
          have list : next.zeroedList = [c] := by rw [step.result, emptied]
          rw [sameTree, drainedByAlloc_of_enough list pos inRange enough]
          rw [pages] at short
          rw [if_pos short, found] at rest
          simpa [enough] using rest
        · cases res
          exact cleaned
    · cases res
      exact drained

theorem bodyZero_of_carves {b : FreeChunk} (carves : Carves b chunks chunks')
    (effect : AllocEffect true b chunks chunks' mem mem')
    (valid : ∀ c ∈ chunks, c.Valid) (blockValid : b.Valid)
    (single : ∀ p, coverage chunks p ≤ 1) (clean : ∀ c ∈ chunks, BodyZero mem c) :
    (∀ c ∈ chunks', BodyZero mem' c) ∧ ∀ p, Covers b p → mem' p = 0 := by
  have zero : ∀ p, 0 < coverage chunks p → ¬ InHeader chunks' p →
      mem' p = 0 := by
    intro p covered outside
    by_cases before : InHeader chunks p ∨ InHeader [b] p
    · exact effect.cleared rfl p before outside
    · rw [not_or] at before
      rw [effect.kept p before.1 outside before.2]
      obtain ⟨c, membership, lower, upper⟩ := exists_body_of_coverage covered before.1
      exact clean c membership p lower upper
  have valid' := carves.valid blockValid valid
  constructor
  · intro c membership p lower upper
    have here := one_le_coverage membership (covers_of_body lower upper)
    have split := carves.coverage_eq p
    have bound := single p
    exact zero p (by omega)
      (not_inHeader_of_body valid' (by omega) membership lower upper)
  · intro p covers
    have split := carves.coverage_eq p
    have bound := single p
    simp only [coverage_cons, coverage_nil, if_pos covers] at split
    exact zero p (by omega) (not_inHeader_of_coverage valid' (by omega))

theorem Clean.alloc (clean : Clean node)
    (accounts : Accounts node live added) (zeroAtFree : config.zeroAtFree = true)
    (pos : 0 < npages) (inRange : npages < 2 ^ 31) (small : p2align ≤ 51)
    (untouched : Untouched node.freeChunks.chunks (drainedByAlloc node npages))
    (res : ihkNumaAllocPages config node npages p2align = some (node', addr)) :
    Clean node' ∧ (addr ≠ 0 →
      ∀ p, addr ≤ p → p < addr + allocSize npages → node'.mem p = 0) := by
  obtain ⟨refilled, refills⟩ : ∃ refilled,
      PageAlloc.retryLoop config npages (node.toZeroList.length + 1) node = some refilled :=
    isSome_iff_exists.mp (retryLoop_isSome pos (Nat.lt_succ_self _))
  have books := accounts.retryLoop refills
  have cleaned := clean.retryLoop accounts zeroAtFree pos inRange untouched refills
  rcases ihkNumaAllocPages_cases refills books pos inRange small res with
    ⟨rfl, rfl⟩ | ⟨arena, b, rfl, size, valid, carves, effect, rfl⟩
  · exact ⟨cleaned, fun nonnull => absurd rfl nonnull⟩
  · rw [zeroAtFree] at effect
    have single : ∀ p, coverage refilled.freeChunks.chunks p +
        coverage refilled.zeroedList p ≤ 1 := by
      intro p
      have bound := books.atMostOne p
      omega
    obtain ⟨treeZero, blockZero⟩ := bodyZero_of_carves carves effect books.treeValid valid
      (fun p => by have := single p; omega) cleaned.tree
    refine ⟨⟨treeZero, fun entry membership p lower upper => ?_⟩,
      fun _ p lower upper => blockZero p ⟨lower, ?_⟩⟩
    · have here : 1 ≤ coverage refilled.zeroedList p :=
        one_le_coverage membership (covers_of_body lower upper)
      have bound := single p
      have split := carves.coverage_eq p
      change arena.mem p = 0
      rw [effect.kept p (not_inHeader_of_coverage books.treeValid (by omega))
        (not_inHeader_of_coverage (carves.valid valid books.treeValid) (by omega))
        (not_inHeader_of_coverage (by simpa using valid) (by omega))]
      exact cleaned.zeroed entry membership p lower upper
    · rw [hi_freeChunk, size]
      exact upper

/-! ## Adding, freeing and writing -/

theorem Clean.joinCleared (clean : Clean node) (zeroAtFree : config.zeroAtFree = true)
    (valid : ∀ c ∈ node.freeChunks.chunks, c.Valid) (rangeValid : r.Valid)
    (single : ∀ p, coverage node.freeChunks.chunks p + coverage [r] p +
      coverage node.zeroedList p ≤ 1)
    (joins : Coalesces r node.freeChunks.chunks arena.chunks)
    (effect : HeaderEffect node.freeChunks.chunks arena.chunks
      (clearedMem config node.mem r) arena.mem) (tree : node'.freeChunks = arena)
    (list : node'.zeroedList = node.zeroedList) :
    Clean node' := by
  have cleared : ∀ p, clearedMem config node.mem r p =
      if r.addr ≤ p ∧ p < r.addr + r.size then 0 else node.mem p := by
    intro p
    rw [clearedMem, if_pos zeroAtFree]
    rfl
  have kept : ∀ c, BodyZero node.mem c →
      BodyZero (clearedMem config node.mem r) c := by
    refine fun c zero => zero.of_memory fun p _ => ?_
    rw [cleared]
    exact (ite_eq_or_eq _ _ _).symm
  have rangeZero : ∀ p, Covers r p →
      clearedMem config node.mem r p = 0 := by
    intro p covers
    rw [cleared]
    exact if_pos covers
  subst tree
  rw [← list] at single
  refine Clean.join joins effect valid rangeValid single
    (fun c membership => kept c (clean.tree c membership))
    (fun p lower upper => rangeZero p (covers_of_body lower upper))
    (fun entry membership => kept entry (clean.zeroed entry (list ▸ membership)))
    (.inl fun p inHeader => rangeZero p ?_)
  have covered := coverage_pos_of_inHeader (by simpa using rangeValid) inHeader
  simpa using coverage_pos.mp covered

/-- An allocation moves no entry into the tree that starts where a chunk of the tree, or
an entry moved before it, ends. -/
def NoStaleHeader (system : System) : Op → Prop
  | .alloc npages _ =>
    Untouched system.node.freeChunks.chunks (drainedByAlloc system.node npages)
  | _ => True

theorem Clean.exec (clean : Clean system.node)
    (accounts : Accounts system.node system.live system.added)
    (zeroAtFree : config.zeroAtFree = true) (admissible : Admissible system op)
    (noStale : NoStaleHeader system op) (ran : exec config system op = some next) :
    Clean next.node := by
  cases op with
  | add addr size =>
    obtain ⟨valid, fresh⟩ := admissible
    obtain ⟨arena, res, joins, effect⟩ :=
      ihkNumaAddFreePages_spec config accounts valid fresh
    simp only [PageAlloc.exec, res, some.injEq] at ran
    subst ran
    refine clean.joinCleared zeroAtFree accounts.treeValid valid (fun p => ?_) joins effect
      rfl rfl
    have single := coverage_fresh (accounts.disjoint p) fresh
    have tiled := accounts.partition p
    simp only [owned, coverage_append, coverage_cons, coverage_nil] at single tiled ⊢
    omega
  | alloc npages p2align =>
    obtain ⟨pos, inRange, small⟩ := admissible
    simp only [PageAlloc.exec, map_eq_some_iff] at ran
    obtain ⟨⟨node, addr⟩, res, rfl⟩ := ran
    have cleaned :=
      (clean.alloc accounts zeroAtFree pos inRange small noStale res).1
    split <;> exact cleaned
  | free addr npages =>
    obtain ⟨aligned, pos, small, b, held, within⟩ := admissible
    cases ran
    have surrendered := coverage_surrender ⟨b, held, within⟩
    have pieceValid := freedBlock_valid aligned pos
      (accounts.valid b (by simp [owned, held])) within
    rcases ihkNumaFreePages_spec config accounts aligned pos small held within with
      ⟨-, mem, res, quiet⟩ | ⟨arena, res, joins, effect⟩
    · simp only [res]
      refine clean.of_memory rfl rfl fun p covered => .inl (quiet p ?_)
      refine not_inHeader_of_coverage (by simpa using pieceValid) ?_
      have split := surrendered p
      have bound := accounts.atMostOne p
      omega
    · simp only [res]
      refine clean.joinCleared zeroAtFree accounts.treeValid pieceValid (fun p => ?_) joins
        effect rfl rfl
      have split := surrendered p
      have bound := accounts.atMostOne p
      omega
  | zero nrPages =>
    cases ran
    exact clean.zeroes accounts (zeroes_ihkNumaZeroFreePages config _ nrPages)
  | write addr v =>
    obtain ⟨b, held, covers⟩ := admissible
    cases ran
    refine clean.of_memory rfl rfl fun p covered => .inl ?_
    have elsewhere : p ≠ addr := by
      rintro rfl
      have here := one_le_coverage held covers
      have bound := accounts.atMostOne p
      omega
    exact Function.update_of_ne elsewhere _ _

end

/-! ## Runs -/

theorem clean_of_reachable (zeroAtFree : config.zeroAtFree = true)
    (reached : ((machine config).restrict NoStaleHeader).Reachable system) :
    Clean system.node := by
  refine reached.invariant (fun system => Clean system.node) ?_ ?_
  · rintro _ ⟨mem, rfl⟩
    constructor <;> simp [System.boot, NumaNode.init, Arena.chunks]
  · rintro state op next reached clean ⟨noStale, admissible, ran⟩
    exact clean.exec (accounts_of_reachable reached.of_restrict) zeroAtFree admissible noStale
      ran

/-- In every run in which no allocation leaves a header behind, free memory is zero
outside the linked headers and every block that is handed out is zero. -/
theorem free_memory_zero {config : Config} {system : System} (zeroAtFree : config.zeroAtFree = true)
    (reached : ((machine config).restrict NoStaleHeader).Reachable system) :
    (∀ point, 0 < coverage system.node.freeChunks.chunks point →
        ¬ InHeader system.node.freeChunks.chunks point → system.node.mem point = 0) ∧
      ∀ npages p2align node addr, Admissible system (.alloc npages p2align) →
        NoStaleHeader system (.alloc npages p2align) →
        ihkNumaAllocPages config system.node npages p2align = some (node, addr) → addr ≠ 0 →
        ∀ point, addr ≤ point → point < addr + allocSize npages → node.mem point = 0 := by
  have clean := clean_of_reachable zeroAtFree reached
  have accounts := accounts_of_reachable reached.of_restrict
  constructor
  · intro point covered outside
    obtain ⟨chunk, membership, lower, upper⟩ := exists_body_of_coverage covered outside
    exact clean.tree chunk membership point lower upper
  · rintro npages p2align node addr ⟨positive, inRange, small⟩ noStale result
    exact (clean.alloc accounts zeroAtFree positive inRange small noStale result).2

instance (chunks drained : List FreeChunk) : Decidable (Untouched chunks drained) :=
  inferInstanceAs (Decidable (_ ∧ _))

instance (chunks : List FreeChunk) (point : Nat) : Decidable (InHeader chunks point) :=
  inferInstanceAs (Decidable (∃ chunk ∈ chunks, _))

instance (system : System) : (op : Op) → Decidable (NoStaleHeader system op)
  | .alloc .. => inferInstanceAs (Decidable (Untouched _ _))
  | .add .. | .free .. | .zero .. | .write .. => instDecidableTrue

theorem reachable_of_cleanRun
    (reached : ((machine config).restrict NoStaleHeader).Reachable system) (res : Machine.run
      (fun system op => decide (NoStaleHeader system op ∧ Admissible system op)) (exec config)
      system ops = some final) :
    ((machine config).restrict NoStaleHeader).Reachable final := by
  refine Machine.reachable_of_run ?_ reached res
  intro state op next passed ran
  obtain ⟨noStale, admissible⟩ := of_decide_eq_true passed
  exact ⟨noStale, admissible, ran⟩

/-- Two neighbouring pages, freed from the top down, come back as one zeroed block. -/
theorem free_memory_zero_after_merge :
    ∃ system node, Machine.run
        (fun system op => decide (NoStaleHeader system op ∧ Admissible system op))
        (exec ⟨true, true⟩) (System.boot fun _ => 7)
        [.add 0x10000 0x2000, .alloc 1 0, .alloc 1 0, .write 0x11008 1, .free 0x11000 1,
          .free 0x10000 1, .zero 0] = some system ∧
      ihkNumaAllocPages ⟨true, true⟩ system.node 2 0 = some (node, 0x10000) ∧
      ∀ point, 0x10000 ≤ point → point < 0x10000 + allocSize 2 → node.mem point = 0 := by
  have result : (Machine.run
      (fun system op => decide (NoStaleHeader system op ∧ Admissible system op))
      (exec ⟨true, true⟩) (System.boot fun _ => 7)
      [.add 0x10000 0x2000, .alloc 1 0, .alloc 1 0, .write 0x11008 1, .free 0x11000 1,
        .free 0x10000 1, .zero 0]).map (fun system =>
          (decide (NoStaleHeader system (.alloc 2 0)),
            (ihkNumaAllocPages ⟨true, true⟩ system.node 2 0).map Prod.snd)) =
      some (true, some 0x10000) := by
    decide +kernel
  obtain ⟨system, executed, facts⟩ := map_eq_some_iff.mp result
  rw [Prod.mk.injEq, map_eq_some_iff] at facts
  obtain ⟨noStale, ⟨node, addr⟩, allocated, rfl⟩ := facts
  refine ⟨system, node, executed, allocated, ?_⟩
  exact (free_memory_zero rfl (reachable_of_cleanRun (.init ⟨_, rfl⟩) executed)).2 2 0 node _
    ⟨by decide, by decide, by decide⟩ (of_decide_eq_true noStale) allocated (by decide)

/-- The header of a page that is freed after its lower neighbour stays in the middle of
the merged chunk: the tree holds a chunk with a non-zero byte outside all headers, and
the byte is handed out. -/
theorem stale_header_is_handed_out :
    (∃ system, (machine ⟨true, true⟩).Reachable system ∧
      0 < coverage system.node.freeChunks.chunks 0x11001 ∧
      ¬ InHeader system.node.freeChunks.chunks 0x11001 ∧ system.node.mem 0x11001 = 0x10) ∧
    ∃ system node, (machine ⟨true, true⟩).Reachable system ∧
      Admissible system (.alloc 2 0) ∧
      ihkNumaAllocPages ⟨true, true⟩ system.node 2 0 = some (node, 0x10000) ∧
      node.mem 0x11001 = 0x10 := by
  refine ⟨exists_run (fun _ => 0) [.add 0x10000 0x2000, .alloc 1 0, .alloc 1 0, .free 0x10000 1,
    .free 0x11000 1, .zero 0, .alloc 3 0] (by decide +kernel), ?_⟩
  obtain ⟨system, reached, facts⟩ : ∃ system, (machine ⟨true, true⟩).Reachable system ∧
      (ihkNumaAllocPages ⟨true, true⟩ system.node 2 0).map
        (fun result => (result.2, result.1.mem 0x11001)) = some (0x10000, 0x10) :=
    exists_run (fun _ => 0) [.add 0x10000 0x2000, .alloc 1 0, .alloc 1 0, .free 0x10000 1,
      .free 0x11000 1, .zero 0] (by decide +kernel)
  obtain ⟨⟨node, addr⟩, allocated, contents⟩ := map_eq_some_iff.mp facts
  simp only [Prod.mk.injEq] at contents
  obtain ⟨rfl, byte⟩ := contents
  exact ⟨system, node, reached, ⟨by decide, by decide, by decide⟩, allocated, byte⟩

end McKernel.PageAlloc
