import McKernel.PageAlloc.Zeroes

/-!
# Conservation of memory

The chunks of the tree, the entries of both lists and the blocks held by callers tile
the memory the node was given, in every state of every run.
-/

namespace McKernel.PageAlloc

open Mem Extent CInt Option Nat

variable {arena : Arena} {c r b piece : FreeChunk} {npages : Int} {addr : Nat}
  {node' : NumaNode} {system : System}

def owned (node : NumaNode) (live : List FreeChunk) : List FreeChunk :=
  node.freeChunks.chunks ++ (node.zeroedList ++ (node.toZeroList ++ live))

/-- The books of a node: what it owns tiles what it was given, the tree is ordered and
coalesced, and the counters agree with the lists. -/
structure Accounts (node : NumaNode) (live added : List FreeChunk) : Prop where
  partition : ∀ point, coverage (owned node live) point = coverage added point
  disjoint : ∀ point, coverage added point ≤ 1
  valid : ∀ chunk ∈ owned node live, chunk.Valid
  separated : Separated node.freeChunks.chunks
  nrFree : node.nrFreePages * pageSize = total node.freeChunks.chunks
  nrToZero : node.nrToZeroPages = toInt (total node.toZeroList / pageSize)
  bounds : ∀ chunk ∈ added, node.minAddr ≤ chunk.addr ∧ chunk.limit ≤ node.maxAddr

theorem FreeChunk.Valid.mul_div (valid : c.Valid) :
    c.size / pageSize * pageSize = c.size :=
  Nat.div_mul_cancel (Nat.dvd_of_mod_eq_zero valid.sizeAligned)

theorem FreeChunk.Valid.lo_lt_hi (valid : c.Valid) :
    lo c < hi c := by
  have := valid.nonempty
  simp only [lo_freeChunk, hi_freeChunk]
  omega

theorem freeRange_of_disjoint (gaps : Separated arena.chunks)
    (valid : ∀ c ∈ arena.chunks, c.Valid) (rangeValid : r.Valid)
    (disjoint : ∀ p, coverage arena.chunks p + coverage [r] p ≤ 1) :
    ∃ arena', pageAllocRbtreeFreeRange arena r.addr r.size = .ok arena' ∧
      Coalesces r arena.chunks arena'.chunks ∧
      HeaderEffect arena.chunks arena'.chunks arena.mem arena'.mem :=
  pageAllocRbtreeFreeRange_spec gaps
    (fun c membership => apart_of_coverage disjoint membership (List.mem_singleton.mpr rfl)
      (valid c membership).lo_lt_hi rangeValid.lo_lt_hi)
    rangeValid.nonempty

namespace Accounts

variable {node : NumaNode} {live added : List FreeChunk}

section

variable (accounts : Accounts node live added)
include accounts

theorem treeValid :
    ∀ c ∈ node.freeChunks.chunks, c.Valid :=
  fun c mem => accounts.valid c (by simp [owned, mem])

theorem atMostOne (p : Nat) :
    coverage node.freeChunks.chunks p + (coverage node.zeroedList p +
      (coverage node.toZeroList p + coverage live p)) ≤ 1 := by
  have covered := accounts.partition p
  have bound := accounts.disjoint p
  simp only [owned, coverage_append] at covered
  omega

theorem join
    (joins : Coalesces r node.freeChunks.chunks arena.chunks) (rangeValid : r.Valid)
    (moved : ∀ p, coverage node.zeroedList p +
      (coverage node.toZeroList p + coverage live p) =
      coverage node'.zeroedList p + (coverage node'.toZeroList p +
        coverage live' p) + coverage [r] p)
    (restValid : ∀ c ∈ node'.zeroedList ++ (node'.toZeroList ++ live'), c.Valid)
    (tree : node'.freeChunks = arena)
    (nrFree : node'.nrFreePages = node.nrFreePages + r.size / pageSize)
    (nrToZero : node'.nrToZeroPages = toInt (total node'.toZeroList / pageSize))
    (sameMin : node'.minAddr = node.minAddr) (sameMax : node'.maxAddr = node.maxAddr) :
    Accounts node' live' added where
  partition p := by
    rw [← accounts.partition p]
    have grown := joins.coverage_eq p
    have kept := moved p
    simp only [owned, coverage_append, tree]
    omega
  disjoint := accounts.disjoint
  valid := by
    rw [owned, tree]
    exact List.forall_mem_append.mpr
      ⟨joins.valid rangeValid accounts.treeValid, restValid⟩
  separated := by
    rw [tree]
    exact joins.separated accounts.separated
  nrFree := by
    rw [tree, joins.total_eq, nrFree, add_mul, accounts.nrFree, rangeValid.mul_div]
  nrToZero := nrToZero
  bounds := by
    rw [sameMin, sameMax]
    exact accounts.bounds

theorem setMem (mem : Mem) :
    Accounts (node.setMem mem) live added :=
  ⟨accounts.partition, accounts.disjoint, accounts.valid, accounts.separated,
    accounts.nrFree, accounts.nrToZero, accounts.bounds⟩

end

theorem drainOne (accounts : Accounts { node with zeroedList := c :: rest } live added) :
    ∃ arena, pageAllocRbtreeFreeRange node.freeChunks c.addr c.size = .ok arena ∧
      Coalesces c node.freeChunks.chunks arena.chunks ∧
      HeaderEffect node.freeChunks.chunks arena.chunks node.mem arena.mem ∧
      Accounts { node with
        freeChunks := arena
        zeroedList := rest
        nrFreePages := node.nrFreePages + c.size / pageSize } live added := by
  have chunkValid : c.Valid := accounts.valid c (by simp [owned])
  have disjoint : ∀ p,
      coverage node.freeChunks.chunks p + coverage [c] p ≤ 1 := by
    intro p
    have bound := accounts.atMostOne p
    simp only [coverage_cons, coverage_nil] at bound ⊢
    omega
  obtain ⟨arena, freed, joins, effect⟩ := freeRange_of_disjoint accounts.separated
    accounts.treeValid chunkValid disjoint
  refine ⟨arena, freed, joins, effect,
    accounts.join joins chunkValid ?_ ?_ rfl rfl accounts.nrToZero rfl rfl⟩
  · intro p
    simp only [coverage_cons, coverage_nil]
    omega
  · intro o membership
    refine accounts.valid o ?_
    simp only [owned, List.mem_append, List.mem_cons] at membership ⊢
    tauto

theorem freeZeroed (accounts : Accounts { node with zeroedList := list } live added) :
    Accounts (freeZeroed node list) live added := by
  induction list generalizing node with
  | nil => exact accounts
  | cons c rest ih =>
    obtain ⟨arena, freed, -, -, books⟩ := accounts.drainOne
    simp only [PageAlloc.freeZeroed, freed]
    exact ih books

theorem zeroStep (accounts : Accounts node live added)
    (step : ZeroStep node node' front back c) :
    Accounts node' live added := by
  obtain ⟨taken, res, -⟩ := step
  have chunkValid : c.Valid := accounts.valid c (by simp [owned, taken])
  rw [res]
  refine ⟨fun p => ?_, accounts.disjoint, fun o mem => ?_, accounts.separated,
    accounts.nrFree, ?_, accounts.bounds⟩
  · rw [← accounts.partition p]
    simp only [owned, NumaNode.setMem, NumaNode.setToZeroList, taken, coverage_append,
      coverage_cons, Arena.chunks]
    omega
  · refine accounts.valid o ?_
    simp only [owned, NumaNode.setMem, NumaNode.setToZeroList, taken, List.mem_append,
      List.mem_cons, Arena.chunks] at mem ⊢
    tauto
  · change toInt (node.nrToZeroPages - toInt (c.size / pageSize)) =
      toInt (total (front ++ back) / pageSize)
    rw [accounts.nrToZero, toInt_sub_toInt, taken]
    have pages := chunkValid.mul_div
    simp only [total_append, total_cons, lo_freeChunk, hi_freeChunk, pageSize] at pages ⊢
    congr 1
    omega

theorem zeroes (accounts : Accounts node live added) (moves : Zeroes node node') :
    Accounts node' live added := by
  induction moves with
  | idle => exact accounts.setMem _
  | step first _ ih => exact ih (accounts.zeroStep first)

theorem retryLoop (accounts : Accounts node live added)
    (res : retryLoop config npages fuel node = some node') :
    Accounts node' live added := by
  induction fuel generalizing node with
  | zero => simp [PageAlloc.retryLoop] at res
  | succ fuel ih =>
    simp only [PageAlloc.retryLoop] at res
    have drained : Accounts (PageAlloc.freeZeroed node node.zeroedList) live added :=
      accounts.freeZeroed
    have zeroed := drained.zeroes (zeroes_ihkNumaZeroFreePages config _ npages)
    split at res
    · cases res
      exact accounts
    · split at res
      · split at res
        · exact ih zeroed res
        · cases res
          exact zeroed
      · cases res
        exact drained

end Accounts

variable {config : Config} {node : NumaNode}

theorem length_ihkNumaZeroFreePages_lt
    (pos : 0 < npages) (enough : (ihkNumaZeroFreePages config node npages).2 ≥ npages) :
    (ihkNumaZeroFreePages config node npages).1.toZeroList.length <
      node.toZeroList.length := by
  have somePages : npages ≠ 0 := by omega
  cases zeroAtFree : config.zeroAtFree with
  | false =>
    simp [ihkNumaZeroFreePages, zeroAtFree] at enough
    omega
  | true =>
    cases found : node.toZeroList.find?
        fun c => decide (shiftedSize npages ≤ c.size) with
    | none =>
      obtain ⟨mem, res, -⟩ :=
        ihkNumaZeroFreePages_of_not_found zeroAtFree somePages found
      rw [res] at enough
      omega
    | some c =>
      obtain ⟨node', front, back, res, taken, moved, -⟩ :=
        ihkNumaZeroFreePages_of_found zeroAtFree somePages found
      rw [res, moved, taken]
      simp [NumaNode.setToZeroList]

theorem freeZeroed_toZeroList (node : NumaNode) (list : List FreeChunk) :
    (freeZeroed node list).toZeroList = node.toZeroList := by
  induction list generalizing node with
  | nil => rfl
  | cons c rest ih =>
    simp only [freeZeroed]
    split <;> exact ih _

theorem retryLoop_isSome (pos : 0 < npages) (enough : node.toZeroList.length < fuel) :
    (retryLoop config npages fuel node).isSome := by
  induction fuel generalizing node with
  | zero => omega
  | succ fuel ih =>
    simp only [retryLoop]
    split
    · rfl
    · split
      · split
        next more =>
          refine ih ?_
          have fewer := length_ihkNumaZeroFreePages_lt pos more
          rw [freeZeroed_toZeroList] at fewer
          omega
        · rfl
      · rfl

/-- What an allocation does after the `retry` loop: it fails and changes nothing, or a
block leaves the tree. -/
theorem ihkNumaAllocPages_cases
    (refills : retryLoop config npages (node.toZeroList.length + 1) node = some refilled)
    (accounts : Accounts refilled live added) (pos : 0 < npages) (inRange : npages < 2 ^ 31)
    (small : p2align ≤ 51)
    (res : ihkNumaAllocPages config node npages p2align = some (node', addr)) :
    (addr = 0 ∧ node' = refilled) ∨
      ∃ arena b, addr = b.addr ∧ b.size = allocSize npages ∧ b.Valid ∧
        Carves b refilled.freeChunks.chunks arena.chunks ∧
        AllocEffect config.zeroAtFree b refilled.freeChunks.chunks arena.chunks
          refilled.mem arena.mem ∧
        node' = { refilled with
          freeChunks := arena
          nrFreePages := refilled.nrFreePages - toULong npages } := by
  simp only [ihkNumaAllocPages, refills, bind_eq_bind, bind_some] at res
  split at res
  · exact .inl (by cases res; exact ⟨rfl, rfl⟩)
  · rcases pageAllocRbtreeAllocPages_spec accounts.separated accounts.treeValid pos
      inRange small with none | ⟨arena, b, found, size, valid, carves, effect⟩
    · rw [none] at res
      exact .inl (by cases res; exact ⟨rfl, rfl⟩)
    · rw [found] at res
      have nonnull : b.addr ≠ 0 := pos_iff_ne_zero.mp valid.nonnull
      simp only [nonnull, ne_eq, not_false_eq_true, if_true] at res
      cases res
      exact .inr ⟨arena, b, rfl, size, valid, carves, effect, rfl⟩

namespace Accounts

variable {node : NumaNode} {live added : List FreeChunk}

theorem carve {npages : Nat} (accounts : Accounts node live added)
    (carves : Carves b node.freeChunks.chunks arena.chunks) (valid : b.Valid)
    (size : b.size = pageSize * npages) :
    Accounts { node with freeChunks := arena, nrFreePages := node.nrFreePages - npages }
      (b :: live) added where
  partition p := by
    rw [← accounts.partition p]
    have shrunk := carves.coverage_eq p
    simp only [owned, coverage_append, coverage_cons, coverage_nil] at shrunk ⊢
    omega
  disjoint := accounts.disjoint
  valid := by
    have restValid : ∀ c ∈ node.zeroedList ++ (node.toZeroList ++ live), c.Valid :=
      fun c mem => accounts.valid c (List.mem_append_right _ mem)
    simp only [owned, List.forall_mem_append, List.forall_mem_cons] at restValid ⊢
    exact ⟨carves.valid valid accounts.treeValid, restValid.1, restValid.2.1, valid,
      restValid.2.2⟩
  separated := carves.separated accounts.separated
  nrFree := by
    have before := accounts.nrFree
    rw [carves.total_eq, size] at before
    simp only [Nat.sub_mul]
    rw [before, Nat.mul_comm npages, Nat.add_sub_cancel]
  nrToZero := accounts.nrToZero
  bounds := accounts.bounds

theorem alloc (accounts : Accounts node live added)
    (pos : 0 < npages) (inRange : npages < 2 ^ 31) (small : p2align ≤ 51)
    (res : ihkNumaAllocPages config node npages p2align = some (node', addr)) :
    Accounts node' (if addr ≠ 0 then ⟨addr, allocSize npages⟩ :: live else live) added := by
  obtain ⟨refilled, refills⟩ : ∃ refilled,
      PageAlloc.retryLoop config npages (node.toZeroList.length + 1) node = some refilled :=
    isSome_iff_exists.mp (retryLoop_isSome pos (lt_succ_self _))
  have afterRefill := accounts.retryLoop refills
  rcases ihkNumaAllocPages_cases refills afterRefill pos inRange small res with
    ⟨rfl, rfl⟩ | ⟨arena, b, rfl, size, valid, carves, -, rfl⟩
  · simpa using afterRefill
  · have nonnull : b.addr ≠ 0 := pos_iff_ne_zero.mp valid.nonnull
    rw [if_pos nonnull, ← size]
    refine afterRefill.carve carves valid ?_
    have bytes := allocSize_eq pos inRange
    have pages : (toULong npages : Int) = npages := toULong_of_range (by omega) (by omega)
    simp only [pageSize] at bytes ⊢
    omega

end Accounts

/-! ## Returning blocks -/

theorem coverage_remainder (within : Within piece b) (p : Nat) :
    coverage [b] p = coverage (remainder b piece) p + coverage [piece] p := by
  obtain ⟨starts, ends⟩ := within
  by_cases left : 0 < piece.addr - b.addr <;>
    by_cases right : 0 < b.limit - piece.limit <;>
    simp only [remainder, List.filter_cons, left, right, decide_true, decide_false,
      Bool.false_eq_true, if_true, if_false, List.filter_nil, coverage_cons,
      coverage_nil] <;>
    split_ifs <;>
    simp only [Covers, lo_freeChunk, hi_freeChunk, FreeChunk.limit] at * <;> omega

theorem valid_remainder (blockValid : b.Valid)
    (pieceValid : piece.Valid) :
    ∀ rest ∈ remainder b piece, rest.Valid := by
  obtain ⟨_, _, _, _, _⟩ := blockValid
  obtain ⟨_, _, _, _, _⟩ := pieceValid
  intro rest mem
  simp only [remainder, List.mem_filter, List.mem_cons, List.not_mem_nil, or_false,
    decide_eq_true_eq] at mem
  obtain ⟨rfl | rfl, nonempty⟩ := mem <;>
    constructor <;> simp only [FreeChunk.limit, pageSize] at * <;> omega

theorem coverage_surrender (held : ∃ b ∈ live, Within piece b) (p : Nat) :
    coverage live p = coverage (surrender piece live) p + coverage [piece] p := by
  induction live with
  | nil => simp at held
  | cons b rest ih =>
    simp only [surrender]
    split
    next within =>
      have split := coverage_remainder within p
      simp only [coverage_append, coverage_cons, coverage_nil] at split ⊢
      omega
    next outside =>
      have inRest := ih (by simpa [outside] using held)
      simp only [coverage_cons, coverage_nil] at inRest ⊢
      omega

theorem valid_surrender (pieceValid : piece.Valid) (valid : ∀ b ∈ live, b.Valid) :
    ∀ b ∈ surrender piece live, b.Valid := by
  induction live with
  | nil => simp [surrender]
  | cons b rest ih =>
    simp only [List.forall_mem_cons] at valid
    simp only [surrender]
    split
    next within =>
      exact List.forall_mem_append.mpr
        ⟨valid_remainder valid.1 pieceValid, valid.2⟩
    · exact List.forall_mem_cons.mpr ⟨valid.1, ih valid.2⟩

theorem shiftedSize_eq (pos : 0 < npages) (small : npages * pageSize < 2 ^ 31) :
    shiftedSize npages = pageSize * npages.toNat := by
  simp only [pageSize] at *
  have wrapped : toInt (npages * pageSize) = npages * pageSize := by
    simp only [pageSize]
    exact toInt_of_range (by omega) (by omega)
  have converted : (toULong (npages * pageSize) : Int) = npages * pageSize := by
    simp only [pageSize]
    exact toULong_of_range (by omega) (by omega)
  unfold shiftedSize
  rw [wrapped]
  simp only [pageSize] at converted ⊢
  omega

/-! ## Adding and freeing -/

section

variable (config : Config) {node : NumaNode} {live added : List FreeChunk}

/-- The memory that is freed directly, cleared first when `zero_at_free` is set. -/
def clearedMem (config : Config) (mem : Mem) (range : FreeChunk) : Mem :=
  if config.zeroAtFree then memset mem range.addr range.size else mem

theorem coverage_fresh (single : coverage added p ≤ 1)
    (fresh : ∀ o ∈ added, Apart o r) : coverage (r :: added) p ≤ 1 := by
  rw [coverage_cons]
  split
  next covers =>
    have untouched : coverage added p = 0 := by
      refine coverage_eq_zero.mpr fun o mem otherCovers => ?_
      have apart := fresh o mem
      simp only [Apart, Covers] at apart covers otherCovers
      omega
    omega
  · omega

theorem ihkNumaAddFreePages_spec (accounts : Accounts node live added) (valid : r.Valid)
    (fresh : ∀ o ∈ added, Apart o r) :
    ∃ arena, ihkNumaAddFreePages config node r.addr r.size =
        ({ node with
            freeChunks := arena
            minAddr := if r.addr < node.minAddr then r.addr else node.minAddr
            maxAddr := if r.addr + r.size > node.maxAddr then r.addr + r.size
              else node.maxAddr
            nrPages := node.nrPages + r.size / pageSize
            nrFreePages := node.nrFreePages + r.size / pageSize }, none) ∧
      Coalesces r node.freeChunks.chunks arena.chunks ∧
      HeaderEffect node.freeChunks.chunks arena.chunks (clearedMem config node.mem r)
        arena.mem := by
  have disjoint : ∀ p,
      coverage node.freeChunks.chunks p + coverage [r] p ≤ 1 := by
    intro p
    have single := coverage_fresh (accounts.disjoint p) fresh
    have tiled := accounts.partition p
    simp only [owned, coverage_append, coverage_cons, coverage_nil] at single tiled ⊢
    omega
  have gaps : Separated
      (⟨node.freeChunks.root, clearedMem config node.mem r⟩ : Arena).chunks :=
    accounts.separated
  have sameArena : (if config.zeroAtFree then
      { node.freeChunks with mem := memset node.mem r.addr r.size }
      else node.freeChunks) = (⟨node.freeChunks.root, clearedMem config node.mem r⟩ : Arena) := by
    unfold clearedMem
    split <;> rfl
  obtain ⟨arena, freed, joins, effect⟩ :=
    freeRange_of_disjoint gaps accounts.treeValid valid disjoint
  refine ⟨arena, ?_, joins, effect⟩
  simp only [ihkNumaAddFreePages, sameArena, freed]

theorem Accounts.add (accounts : Accounts node live added) (valid : r.Valid)
    (fresh : ∀ o ∈ added, Apart o r) :
    (ihkNumaAddFreePages config node r.addr r.size).2 = none ∧
      Accounts (ihkNumaAddFreePages config node r.addr r.size).1 live
        (r :: added) := by
  obtain ⟨arena, res, joins, -⟩ :=
    ihkNumaAddFreePages_spec config accounts valid fresh
  rw [res]
  refine ⟨rfl, fun p => ?_, fun p => coverage_fresh (accounts.disjoint p) fresh,
    ?_, joins.separated accounts.separated, ?_, accounts.nrToZero, ?_⟩
  · have grown := joins.coverage_eq p
    have tiled := accounts.partition p
    simp only [owned, coverage_append, coverage_cons, coverage_nil] at grown tiled ⊢
    omega
  · exact List.forall_mem_append.mpr ⟨joins.valid valid accounts.treeValid,
      fun c mem => accounts.valid c (List.mem_append_right _ mem)⟩
  · simp only
    rw [joins.total_eq, add_mul, accounts.nrFree, valid.mul_div]
  · simp only [List.forall_mem_cons]
    refine ⟨⟨by split <;> omega, by simp only [FreeChunk.limit]; split <;> omega⟩,
      fun o mem => ?_⟩
    have bounds := accounts.bounds o mem
    exact ⟨by split <;> omega, by split <;> omega⟩

theorem Accounts.bounds_of_held (accounts : Accounts node live added) (held : b ∈ live)
    (within : Within piece b) (nonempty : 0 < piece.size) :
    node.minAddr ≤ piece.addr ∧ piece.limit ≤ node.maxAddr := by
  obtain ⟨starts, ends⟩ := within
  simp only [FreeChunk.limit] at starts ends ⊢
  have covered : ∀ p, Covers b p → ∃ o ∈ added, Covers o p := by
    intro p covers
    refine coverage_pos.mp ?_
    rw [← accounts.partition p]
    exact coverage_pos.mpr ⟨b, by simp [owned, held], covers⟩
  obtain ⟨first, firstAdded, firstCovers⟩ := covered piece.addr (by
    simp only [Covers, lo_freeChunk, hi_freeChunk]
    omega)
  obtain ⟨last, lastAdded, lastCovers⟩ := covered (piece.addr + piece.size - 1) (by
    simp only [Covers, lo_freeChunk, hi_freeChunk]
    omega)
  have lower := (accounts.bounds first firstAdded).1
  have upper := (accounts.bounds last lastAdded).2
  simp only [Covers, lo_freeChunk, hi_freeChunk, FreeChunk.limit] at *
  omega

theorem freedBlock_valid (aligned : addr % pageSize = 0) (pos : 0 < npages)
    (blockValid : b.Valid) (within : Within (freedBlock addr npages) b) :
    (freedBlock addr npages).Valid := by
  obtain ⟨starts, ends⟩ := within
  obtain ⟨_, _, _, _, _⟩ := blockValid
  constructor <;> simp only [freedBlock, FreeChunk.limit, pageSize] at * <;> omega

/-- What freeing a part of a held block does: with deferred zeroing the part is put on
`to_zero_list`, otherwise it joins the tree. -/
theorem ihkNumaFreePages_spec (accounts : Accounts node live added)
    (aligned : addr % pageSize = 0) (pos : 0 < npages) (small : npages * pageSize < 2 ^ 31)
    (held : b ∈ live) (within : Within (freedBlock addr npages) b) :
    (config.zeroAtFree = true ∧ ∃ mem, ihkNumaFreePages config node addr npages =
        { node.setMem mem with
          toZeroList := freedBlock addr npages :: node.toZeroList
          nrToZeroPages := toInt (node.nrToZeroPages + npages) } ∧
      ∀ p, ¬ InHeader [freedBlock addr npages] p → mem p = node.mem p) ∨
    ∃ arena, ihkNumaFreePages config node addr npages =
        { node with
          freeChunks := arena
          nrFreePages := node.nrFreePages + npages.toNat } ∧
      Coalesces (freedBlock addr npages) node.freeChunks.chunks arena.chunks ∧
      HeaderEffect node.freeChunks.chunks arena.chunks
        (clearedMem config node.mem (freedBlock addr npages)) arena.mem := by
  have blockValid := accounts.valid b (by simp [owned, held])
  have pieceValid := freedBlock_valid aligned pos blockValid within
  obtain ⟨lower, upper⟩ := accounts.bounds_of_held held within pieceValid.nonempty
  have bounded := pieceValid.bounded
  have size := shiftedSize_eq pos small
  have inBounds : ¬ (addr < node.minAddr ∨
      (addr + pageSize * npages.toNat) % 2 ^ 64 > node.maxAddr) := by
    simp only [freedBlock, FreeChunk.limit] at lower upper bounded
    omega
  have notEmpty : ¬ npages ≤ 0 := by omega
  simp only [ihkNumaFreePages, size]
  rw [if_neg inBounds, if_neg notEmpty]
  by_cases deferred : config.zeroAtFree = true ∧ config.deferredZeroAtFree = true
  · refine .inl ⟨deferred.1, (llistAdd (writeHeader node.mem (freedBlock addr npages))
      (freedBlock addr npages) node.toZeroList).1, ?_, fun p outside => ?_⟩
    · rw [if_neg (by simp [deferred])]
      rfl
    · simp only [inHeader_cons, not_inHeader_nil, or_false] at outside
      rw [llistAdd_of_not_inHeader outside, writeHeader_of_outside outside]
  · have disjoint : ∀ p,
        coverage node.freeChunks.chunks p + coverage [freedBlock addr npages] p ≤ 1 := by
      intro p
      have bound := accounts.atMostOne p
      have split := coverage_surrender ⟨b, held, within⟩ p
      omega
    have gaps : Separated
        (⟨node.freeChunks.root, clearedMem config node.mem (freedBlock addr npages)⟩ :
          Arena).chunks := accounts.separated
    obtain ⟨arena, freed, joins, effect⟩ :=
      freeRange_of_disjoint gaps accounts.treeValid pieceValid disjoint
    refine .inr ⟨arena, ?_, joins, effect⟩
    have sameArena : (if config.zeroAtFree then
        { node.freeChunks with mem := memset node.mem addr (pageSize * npages.toNat) }
        else node.freeChunks) =
        (⟨node.freeChunks.root, clearedMem config node.mem (freedBlock addr npages)⟩ :
          Arena) := by
      unfold clearedMem
      split <;> rfl
    have direct : (!config.zeroAtFree || !config.deferredZeroAtFree) = true := by
      cases zero : config.zeroAtFree <;> cases defer : config.deferredZeroAtFree <;> simp_all
    rw [if_pos direct, sameArena]
    simp only [freedBlock] at freed
    simp only [freedBlock, freed]

theorem Accounts.free (accounts : Accounts node live added) (aligned : addr % pageSize = 0)
    (pos : 0 < npages) (small : npages * pageSize < 2 ^ 31) (held : b ∈ live)
    (within : Within (freedBlock addr npages) b) :
    Accounts (ihkNumaFreePages config node addr npages)
      (surrender (freedBlock addr npages) live) added := by
  have pieceValid := freedBlock_valid aligned pos
    (accounts.valid b (by simp [owned, held])) within
  have listsValid : ∀ c ∈ node.zeroedList ++ node.toZeroList, c.Valid :=
    fun c membership => accounts.valid c (by
      simp only [owned, List.mem_append] at membership ⊢
      tauto)
  have liveValid : ∀ c ∈ surrender (freedBlock addr npages) live, c.Valid :=
    valid_surrender pieceValid fun o membership =>
      accounts.valid o (by simp [owned, membership])
  have pages : ((freedBlock addr npages).size : Int) = npages * pageSize := by
    simp only [freedBlock, pageSize]
    omega
  rcases ihkNumaFreePages_spec config accounts aligned pos small held within with
    ⟨-, mem, res, -⟩ | ⟨arena, res, joins, -⟩
  · rw [res]
    refine ⟨fun p => ?_, accounts.disjoint, ?_, accounts.separated, accounts.nrFree, ?_,
      accounts.bounds⟩
    · have tiled := accounts.partition p
      have split := coverage_surrender ⟨b, held, within⟩ p
      simp only [owned, NumaNode.setMem, Arena.chunks, coverage_append, coverage_cons,
        coverage_nil] at tiled split ⊢
      omega
    · simp only [owned, List.forall_mem_append, List.forall_mem_cons] at listsValid ⊢
      exact ⟨accounts.treeValid, listsValid.1, ⟨pieceValid, listsValid.2⟩, liveValid⟩
    · simp only [total_cons, lo_freeChunk, hi_freeChunk]
      rw [accounts.nrToZero, toInt_add_toInt]
      simp only [pageSize] at pages ⊢
      congr 1
      omega
  · rw [res]
    refine accounts.join joins pieceValid (fun p => ?_) ?_ rfl ?_ accounts.nrToZero rfl rfl
    · have split := coverage_surrender ⟨b, held, within⟩ p
      simp only
      omega
    · simp only [List.forall_mem_append] at listsValid ⊢
      exact ⟨listsValid.1, listsValid.2, liveValid⟩
    · simp only [pageSize] at pages ⊢
      omega

end

/-! ## Runs -/

theorem Accounts.boot (mem : Mem) : Accounts (NumaNode.init mem) [] [] where
  partition _ := rfl
  disjoint _ := zero_le 1
  valid := by simp [owned, NumaNode.init, Arena.chunks]
  separated := .nil
  nrFree := by simp [NumaNode.init, Arena.chunks]
  nrToZero := by simp [NumaNode.init, toInt]
  bounds := by simp

variable {config : Config}

theorem exec_isSome (admissible : Admissible system op) : (exec config system op).isSome := by
  cases op with
  | add addr size =>
    simp only [exec]
    split <;> exact isSome_some
  | alloc npages p2align =>
    obtain ⟨refilled, refills⟩ : ∃ refilled, retryLoop config npages
        (system.node.toZeroList.length + 1) system.node = some refilled :=
      isSome_iff_exists.mp (retryLoop_isSome admissible.1 (lt_succ_self _))
    simp only [exec, isSome_map, ihkNumaAllocPages, refills, bind_eq_bind,
      bind_some]
    split
    · exact isSome_some
    · split <;> exact isSome_some
  | free => exact isSome_some
  | zero => exact isSome_some
  | write => exact isSome_some

theorem Accounts.exec (accounts : Accounts system.node system.live system.added)
    (admissible : Admissible system op) (ran : exec config system op = some next) :
    Accounts next.node next.live next.added := by
  cases op with
  | add addr size =>
    obtain ⟨added, books⟩ := accounts.add config admissible.1 admissible.2
    simp only [PageAlloc.exec] at ran
    split at ran
    next node res =>
      cases ran
      rw [res] at books
      exact books
    next node errno res =>
      rw [res] at added
      cases added
  | alloc npages p2align =>
    obtain ⟨pos, inRange, small⟩ := admissible
    simp only [PageAlloc.exec, map_eq_some_iff] at ran
    obtain ⟨⟨node, addr⟩, res, rfl⟩ := ran
    have books := accounts.alloc pos inRange small res
    split at books <;> simp_all
  | free addr npages =>
    obtain ⟨aligned, pos, small, b, held, within⟩ := admissible
    cases ran
    exact accounts.free config aligned pos small held within
  | zero nrPages =>
    cases ran
    exact accounts.zeroes (zeroes_ihkNumaZeroFreePages config _ nrPages)
  | write addr v =>
    cases ran
    exact accounts.setMem _

theorem accounts_of_reachable (reached : (machine config).Reachable system) :
    Accounts system.node system.live system.added := by
  refine reached.invariant (fun system => Accounts system.node system.live system.added) ?_ ?_
  · rintro _ ⟨mem, rfl⟩
    exact Accounts.boot mem
  · rintro state op next - accounts ⟨admissible, ran⟩
    exact accounts.exec admissible ran

/-- The tree chunks, the entries of both lists and the blocks held by callers tile the
memory added to the node; the tree chunks are in address order with gaps between them;
the counters agree; and every operation returns. -/
theorem numaNode_conserves_memory {config : Config} {system : System}
    (reached : (machine config).Reachable system) :
    (∀ point, coverage system.node.freeChunks.chunks point +
        coverage system.node.zeroedList point + coverage system.node.toZeroList point +
        coverage system.live point = coverage system.added point) ∧
      (∀ point, coverage system.added point ≤ 1) ∧
      Separated system.node.freeChunks.chunks ∧
      system.node.nrFreePages * pageSize = total system.node.freeChunks.chunks ∧
      system.node.nrToZeroPages = toInt (total system.node.toZeroList / pageSize) ∧
      (total system.node.toZeroList / pageSize < 2 ^ 31 →
        system.node.nrToZeroPages = (total system.node.toZeroList / pageSize : Nat)) ∧
      ∀ op, Admissible system op → (exec config system op).isSome := by
  have accounts := accounts_of_reachable reached
  refine ⟨fun point => ?_, accounts.disjoint, accounts.separated, accounts.nrFree,
    accounts.nrToZero, fun fits => ?_, fun op => exec_isSome⟩
  · rw [← accounts.partition point]
    simp only [owned, coverage_append, add_assoc]
  · simp only [accounts.nrToZero, pageSize] at fits ⊢
    rw [toInt_of_range] <;> omega

theorem numaNode_conserves_memory_after_free :
    ∃ system, Machine.run (fun system op => decide (Admissible system op))
        (exec ⟨true, true⟩) (System.boot fun _ => 0)
        [.add 0x10000 0x4000, .alloc 2 0, .free 0x11000 1] = some system ∧
      system.node.toZeroList = [⟨0x11000, 0x1000⟩] ∧
      system.live = [⟨0x10000, 0x1000⟩] ∧
      system.node.nrFreePages * pageSize = total system.node.freeChunks.chunks ∧
      Separated system.node.freeChunks.chunks := by
  have result : (Machine.run (fun system op => decide (Admissible system op))
      (exec ⟨true, true⟩) (System.boot fun _ => 0)
      [.add 0x10000 0x4000, .alloc 2 0, .free 0x11000 1]).map
        (fun system => (system.node.toZeroList, system.live)) =
      some ([⟨0x11000, 0x1000⟩], [⟨0x10000, 0x1000⟩]) := by
    decide +kernel
  obtain ⟨system, executed, lists⟩ := map_eq_some_iff.mp result
  have conserved := numaNode_conserves_memory (reachable_of_run (.init ⟨_, rfl⟩) executed)
  exact ⟨system, executed, congrArg Prod.fst lists, congrArg Prod.snd lists,
    conserved.2.2.2.1, conserved.2.2.1⟩

end McKernel.PageAlloc
