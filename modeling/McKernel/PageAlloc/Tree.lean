import McKernel.PageAlloc.Chunks

/-!
# The tree operations refine the chunk lists

The operations on the red-black tree are compared with `Coalesces` and `Carves`,
together with what they do to memory: only the headers of linked chunks change, and
a header that is no longer linked has been cleared.
-/

namespace McKernel.PageAlloc

open RbTree Mem Extent Arena List Function Nat

variable {arena : Arena} {npages : Int} {p addr p2align : Nat}

/-! ## Headers in memory -/

def InHeader (chunks : List FreeChunk) (point : Nat) : Prop :=
  ∃ chunk ∈ chunks, chunk.addr ≤ point ∧ point < chunk.addr + headerSize

/-- What an operation that takes the linked chunks from `chunks` to `chunks'` does to
memory. -/
structure HeaderEffect (chunks chunks' : List FreeChunk) (mem mem' : Mem) : Prop where
  kept : ∀ point, ¬ InHeader chunks point → ¬ InHeader chunks' point →
    mem' point = mem point
  cleared : ∀ point, InHeader chunks point → ¬ InHeader chunks' point → mem' point = 0

@[simp] theorem inHeader_append (front back : List FreeChunk) (p : Nat) :
    InHeader (front ++ back) p ↔ InHeader front p ∨ InHeader back p := by
  simp only [InHeader, mem_append, or_and_right, exists_or]

@[simp] theorem inHeader_cons (c : FreeChunk) (chunks : List FreeChunk) (p : Nat) :
    InHeader (c :: chunks) p ↔
      (c.addr ≤ p ∧ p < c.addr + headerSize) ∨ InHeader chunks p := by
  simp [InHeader]

@[simp] theorem not_inHeader_nil (p : Nat) : ¬ InHeader [] p := by
  simp [InHeader]

variable {c : FreeChunk} {mem : Mem}

theorem writeLinks_of_not_inHeader (outside : ¬ InHeader tree.toList p) :
    writeLinks parent tree mem p = mem p := by
  induction tree generalizing parent mem with
  | nil => rfl
  | node color left c right ihLeft ihRight =>
    simp only [ColorTree.toList_node, inHeader_append, inHeader_cons, not_or,
      headerSize] at outside
    obtain ⟨notLeft, notHere, notRight⟩ := outside
    simp only [writeLinks]
    rw [ihRight notRight, ihLeft notLeft, storeWord_of_outside (by omega),
      storeWord_of_outside (by omega), storeWord_of_outside (by omega)]

theorem writeHeader_of_outside
    (outside : ¬ (c.addr ≤ p ∧ p < c.addr + headerSize)) :
    writeHeader mem c p = mem p := by
  simp only [headerSize] at outside
  rw [writeHeader, storeWord_of_outside (by omega), storeWord_of_outside (by omega)]

theorem writeSize_of_outside (outside : ¬ (c.addr ≤ p ∧ p < c.addr + headerSize)) :
    writeSize mem c p = mem p := by
  simp only [headerSize] at outside
  rw [writeSize, storeWord_of_outside (by omega)]

variable {chunks : List FreeChunk} {left old size : Nat}

theorem moveToFront_of_inside (inside : old ≤ p ∧ p < old + headerSize) :
    moveToFront mem old c p = 0 :=
  memset_of_inside inside

theorem moveToFront_of_outside (notOld : ¬ (old ≤ p ∧ p < old + headerSize))
    (notNew : ¬ (c.addr ≤ p ∧ p < c.addr + headerSize)) :
    moveToFront mem old c p = mem p := by
  have notWords := notOld
  simp only [headerSize] at notWords
  rw [moveToFront, memset_of_outside notOld, copy_of_outside notNew,
    storeWord_of_outside (by omega), storeWord_of_outside (by omega)]

/-- Relinking writes the headers of the new tree only, so it is enough to look at the
other bytes. -/
theorem HeaderEffect.of_relink {root : ColorTree FreeChunk} {mem' : Mem}
    (others : ∀ p, ¬ InHeader root.toList p →
      (¬ InHeader chunks p → mem' p = mem p) ∧
        (InHeader chunks p → mem' p = 0)) :
    HeaderEffect chunks (relink root mem').chunks mem (relink root mem').mem where
  kept p before after := by
    rw [← (others p after).1 before]
    exact writeLinks_of_not_inHeader after
  cleared p before after := by
    rw [← (others p after).2 before]
    exact writeLinks_of_not_inHeader after

/-! ## Freeing -/

theorem headerEffect_set (mem : Mem) (node : Zipper FreeChunk) (c : FreeChunk)
    (sameAddr : c.addr = node.value.addr) :
    HeaderEffect node.tree.toList (relink (node.set c).tree (writeSize mem c)).chunks
      mem (relink (node.set c).tree (writeSize mem c)).mem := by
  refine HeaderEffect.of_relink fun p after => ?_
  simp only [Zipper.toList_tree, Zipper.set_value, Zipper.set_before, Zipper.set_after,
    inHeader_append, inHeader_cons, ← sameAddr] at after ⊢
  exact ⟨fun before => writeSize_of_outside (by tauto), fun before => absurd before after⟩

theorem headerEffect_move (mem : Mem) (node : Zipper FreeChunk) (c : FreeChunk) :
    HeaderEffect node.tree.toList
      (relink (node.set c).tree (moveToFront mem node.value.addr c)).chunks
      mem (relink (node.set c).tree (moveToFront mem node.value.addr c)).mem := by
  refine HeaderEffect.of_relink fun p after => ?_
  simp only [Zipper.toList_tree, Zipper.set_value, Zipper.set_before, Zipper.set_after,
    inHeader_append, inHeader_cons, not_or] at after ⊢
  exact ⟨fun before => moveToFront_of_outside before.2.1 after.2.1,
    fun before => moveToFront_of_inside (by tauto)⟩

section FreeRange

variable {mem : Mem} {ichunk : Zipper FreeChunk} {r : FreeChunk}
variable (gaps : Separated ichunk.tree.toList)
  (apart : ∀ c ∈ ichunk.tree.toList, Apart c r)
include gaps apart

theorem extendToRight_spec (touches : ichunk.value.limit = r.addr) :
    Coalesces r ichunk.tree.toList (extendToRight mem ichunk r.size).chunks ∧
      HeaderEffect ichunk.tree.toList (extendToRight mem ichunk r.size).chunks mem
        (extendToRight mem ichunk r.size).mem := by
  unfold extendToRight
  rw [Zipper.nextValue?_eq]
  rw [Zipper.toList_tree] at gaps apart
  cases behind : ichunk.after with
  | nil =>
    refine ⟨?_, headerEffect_set mem ichunk _ rfl⟩
    simpa [Arena.chunks, relink, behind] using
      Coalesces.toRight ichunk.before [] ichunk.value touches (by simp)
  | cons right rest =>
    rw [behind] at gaps apart
    have gapRight := (separated_split gaps).2 right (by simp)
    have gapsRest : ∀ o ∈ rest, right.limit < o.addr :=
      (separated_split (show Separated ((ichunk.before ++ [ichunk.value]) ++ right :: rest)
        by simpa using gaps)).2
    have rightApart : Apart right r := apart right (by simp)
    simp only [Apart, lo_freeChunk, hi_freeChunk] at rightApart
    simp only [head?_cons]
    split
    next contiguous =>
      simp only [FreeChunk.limit] at contiguous touches
      refine ⟨?_, HeaderEffect.of_relink fun p after => ?_⟩
      · simpa [Arena.chunks, relink, behind] using
          Coalesces.bridge ichunk.before rest ichunk.value right touches
            (show r.limit = right.addr by simp only [FreeChunk.limit]; omega)
      · simp only [Zipper.toList_tree, Zipper.toList_eraseNext, Zipper.set_before,
          Zipper.set_after, behind, Zipper.set_value, tail_cons, inHeader_append,
          inHeader_cons, not_or] at after ⊢
        refine ⟨fun before => ?_, fun before => memset_of_inside (by tauto)⟩
        rw [memset_of_outside before.2.2.1]
        exact writeSize_of_outside after.2.1
    next notContiguous =>
      refine ⟨?_, headerEffect_set mem ichunk _ rfl⟩
      have beforeBack : ∀ o ∈ right :: rest, r.limit < o.addr := by
        simp only [mem_cons, forall_eq_or_imp, FreeChunk.limit] at *
        refine ⟨by omega, fun o membership => ?_⟩
        have := gapsRest o membership
        omega
      simpa [Arena.chunks, relink, behind] using
        Coalesces.toRight ichunk.before (right :: rest) ichunk.value touches beforeBack

theorem extendToLeft_spec (touches : r.limit = ichunk.value.addr) :
    Coalesces r ichunk.tree.toList (extendToLeft mem ichunk r.size).chunks ∧
      HeaderEffect ichunk.tree.toList (extendToLeft mem ichunk r.size).chunks mem
        (extendToLeft mem ichunk r.size).mem := by
  unfold extendToLeft
  rw [Zipper.prevValue?_eq]
  rw [Zipper.toList_tree] at gaps apart
  have front : ichunk.value.addr - r.size = r.addr := by
    simp only [FreeChunk.limit] at touches
    omega
  simp only [front]
  rcases eq_nil_or_concat ichunk.before with ahead | ⟨rest, left, ahead⟩
  · rw [ahead]
    refine ⟨?_, headerEffect_move mem ichunk _⟩
    simpa [Arena.chunks, relink, ahead] using
      Coalesces.toLeft [] ichunk.after ichunk.value touches (by simp)
  · rw [concat_eq_append] at ahead
    rw [ahead] at gaps apart ⊢
    have gapLeft := (separated_split gaps).1 left (by simp)
    have gapsRest : ∀ o ∈ rest, o.limit < left.addr :=
      (separated_split (show Separated (rest ++ left :: ichunk.value :: ichunk.after)
        by simpa using gaps)).1
    have leftApart : Apart left r := apart left (by simp)
    simp only [Apart, lo_freeChunk, hi_freeChunk] at leftApart
    simp only [getLast?_concat]
    split
    next contiguous =>
      have newFront : r.addr - left.size = left.addr := by
        simp only [FreeChunk.limit] at contiguous
        omega
      simp only [newFront]
      refine ⟨?_, HeaderEffect.of_relink fun p after => ?_⟩
      · have step := Coalesces.bridge rest ichunk.after left ichunk.value contiguous touches
        have sizes : left.size + r.size + ichunk.value.size =
            ichunk.value.size + r.size + left.size := by omega
        rw [sizes] at step
        simpa [Arena.chunks, relink, ahead] using step
      · simp only [Zipper.toList_tree, Zipper.toList_erasePrev, Zipper.set_before,
          Zipper.set_after, ahead, Zipper.set_value, dropLast_concat, inHeader_append,
          inHeader_cons, not_inHeader_nil, or_false, not_or] at after ⊢
        refine ⟨fun before => ?_, fun before => moveToFront_of_inside (by tauto)⟩
        rw [moveToFront_of_outside before.2.1 (by exact after.2.1)]
        exact memset_of_outside after.2.1
    next notContiguous =>
      refine ⟨?_, headerEffect_move mem ichunk _⟩
      have afterFront : ∀ o ∈ rest ++ [left], o.limit < r.addr := by
        simp only [mem_append, mem_singleton, FreeChunk.limit] at *
        rintro o (inRest | rfl)
        · have := gapsRest o inRest
          omega
        · omega
      simpa [Arena.chunks, relink, ahead] using
        Coalesces.toLeft (rest ++ [left]) ichunk.after ichunk.value touches afterFront

end FreeRange

theorem freeRangeTurn_eq_left :
    freeRangeTurn addr size c = .left ↔
      ¬ (c.addr ≤ addr ∧ addr < c.limit) ∧ c.limit ≠ addr ∧
        addr + size ≠ c.addr ∧ addr < c.addr := by
  unfold freeRangeTurn
  repeat' split
  all_goals simp_all

theorem freeRangeTurn_eq_right :
    freeRangeTurn addr size c = .right ↔
      ¬ (c.addr ≤ addr ∧ addr < c.limit) ∧ c.limit ≠ addr ∧
        addr + size ≠ c.addr ∧ ¬ addr < c.addr := by
  unfold freeRangeTurn
  repeat' split
  all_goals simp_all

theorem freeRangeTurn_monotone {r : FreeChunk} (gaps : Separated chunks)
    (apart : ∀ c ∈ chunks, Apart c r) :
    chunks.Pairwise fun x y =>
      (freeRangeTurn r.addr r.size x = .left →
        freeRangeTurn r.addr r.size y = .left) ∧
      (freeRangeTurn r.addr r.size y = .right →
        freeRangeTurn r.addr r.size x = .right) := by
  refine gaps.imp_of_mem fun {x y} inX inY gap => ?_
  have apartX := apart x inX
  have apartY := apart y inY
  simp only [Apart, lo_freeChunk, hi_freeChunk] at apartX apartY gap
  simp only [freeRangeTurn_eq_left, freeRangeTurn_eq_right, FreeChunk.limit]
  omega

/-- Freeing a range that shares no address with a free chunk succeeds and joins the
range with its neighbours. -/
theorem pageAllocRbtreeFreeRange_spec {r : FreeChunk} (gaps : Separated arena.chunks)
    (apart : ∀ c ∈ arena.chunks, Apart c r) (rangeNonempty : 0 < r.size) :
    ∃ arena', pageAllocRbtreeFreeRange arena r.addr r.size = .ok arena' ∧
      Coalesces r arena.chunks arena'.chunks ∧
      HeaderEffect arena.chunks arena'.chunks arena.mem arena'.mem := by
  unfold pageAllocRbtreeFreeRange
  cases landed : descend (freeRangeTurn r.addr r.size) arena.root [] with
  | found ichunk =>
    obtain ⟨stopped, sameChunks⟩ := descend_found landed
    change ichunk.tree.toList = arena.chunks at sameChunks
    rw [← sameChunks] at gaps apart ⊢
    have apartHere := apart ichunk.value (by simp)
    simp only [Apart, lo_freeChunk, hi_freeChunk] at apartHere
    have noOverlap :
        ¬ (ichunk.value.addr ≤ r.addr ∧ r.addr < ichunk.value.limit) := by
      simp only [FreeChunk.limit]
      omega
    simp only [if_neg noOverlap]
    by_cases touches : ichunk.value.limit = r.addr
    · exact ⟨_, if_pos touches, extendToRight_spec gaps apart touches⟩
    · refine ⟨_, if_neg touches, extendToLeft_spec gaps apart ?_⟩
      simp only [freeRangeTurn, if_neg noOverlap, if_neg touches] at stopped
      split_ifs at stopped with reaches
      exact reaches
  | hole iter =>
    obtain ⟨sameChunks, passedLeft, passedRight⟩ := descend_hole landed
      (freeRangeTurn_monotone gaps apart) (by simp [Spine.before])
      (by simp [Spine.after])
    change arena.chunks = iter.before ++ iter.after at sameChunks
    have afterFront : ∀ c ∈ iter.before, c.limit < r.addr := by
      intro c membership
      have turn := freeRangeTurn_eq_right.mp (passedLeft c membership)
      omega
    have beforeBack : ∀ c ∈ iter.after, r.limit < c.addr := by
      intro c membership
      have turn := freeRangeTurn_eq_left.mp (passedRight c membership)
      have apartHere := apart c (by simp [sameChunks, membership])
      simp only [Apart, lo_freeChunk, hi_freeChunk, FreeChunk.limit] at *
      omega
    refine ⟨_, rfl, ?_, HeaderEffect.of_relink fun p after => ?_⟩
    · rw [sameChunks]
      simpa [Arena.chunks, relink] using
        Coalesces.fresh iter.before iter.after afterFront beforeBack
    · simp only [sameChunks, toList_link, inHeader_append, inHeader_cons, not_or] at after ⊢
      exact ⟨fun _ => writeHeader_of_outside after.2.1, fun before => by tauto⟩

/-! ## Allocating -/

theorem alignedAddr_spec (small : p2align ≤ 51) (bounded : addr ≤ 2 ^ 52) :
    addr ≤ alignedAddr p2align addr ∧
      alignedAddr p2align addr < addr + pageSize * 2 ^ p2align ∧
      alignedAddr p2align addr % (pageSize * 2 ^ p2align) = 0 := by
  have power : pageSize * 2 ^ p2align = 2 ^ (12 + p2align) := by
    rw [pow_add]
    rfl
  have pos : 0 < 2 ^ (12 + p2align) := Nat.two_pow_pos _
  have largest : 2 ^ (12 + p2align) ≤ 2 ^ 63 :=
    Nat.pow_le_pow_right (by decide) (by omega)
  have size : alignSize p2align = 2 ^ (12 + p2align) := by
    rw [alignSize, power, Nat.mod_eq_of_lt (by omega)]
  have lowBits :
      (alignSize p2align + (2 ^ 64 - 1)) % 2 ^ 64 = 2 ^ (12 + p2align) - 1 := by
    omega
  have rounded : alignedAddr p2align addr =
      (addr + (2 ^ (12 + p2align) - 1)) / 2 ^ (12 + p2align) * 2 ^ (12 + p2align) := by
    simp only [alignedAddr, lowBits]
    rw [mod_eq_of_lt (by omega), CInt.and_highMask (by omega) (by omega)]
  rw [power, rounded]
  have division := div_add_mod (addr + (2 ^ (12 + p2align) - 1)) (2 ^ (12 + p2align))
  rw [mul_comm] at division
  refine ⟨by omega, by omega, mul_mod_left _ _⟩

/-- What marking a block allocated does to memory. The header of a chunk that starts
with the block is left behind in the block. -/
structure MarkEffect (block : FreeChunk) (chunks chunks' : List FreeChunk)
    (mem mem' : Mem) : Prop where
  kept : ∀ point, ¬ InHeader chunks point → ¬ InHeader chunks' point →
    mem' point = mem point
  cleared : ∀ point, InHeader chunks point → ¬ InHeader chunks' point →
    mem' point = 0 ∨ InHeader [block] point

section MarkRange

variable {mem : Mem} {c : Zipper FreeChunk} {b : FreeChunk}

theorem markRange_whole (same : c.value = b) :
    Carves b c.tree.toList
        (relink c.erase (writeSize mem ⟨b.addr, 0⟩)).chunks ∧
      MarkEffect b c.tree.toList
        (relink c.erase (writeSize mem ⟨b.addr, 0⟩)).chunks mem
        (relink c.erase (writeSize mem ⟨b.addr, 0⟩)).mem := by
  refine ⟨?_, ?_, ?_⟩
  · simpa [Arena.chunks, relink, same] using
      (Carves.whole c.before c.after : Carves b _ _)
  · intro p before after
    rw [Zipper.toList_tree, inHeader_append, inHeader_cons, not_or, not_or, same] at before
    exact (writeLinks_of_not_inHeader after).trans (writeSize_of_outside before.2.1)
  · intro p before after
    rw [Arena.chunks, relink, Zipper.toList_erase, inHeader_append] at after
    rw [Zipper.toList_tree, inHeader_append, inHeader_cons, same] at before
    simp only [inHeader_cons, not_inHeader_nil, or_false]
    tauto

theorem markRange_keepRight (restNonempty : 0 < rest)
    (same : c.value = ⟨b.addr, b.size + rest⟩)
    (res : arena = relink (c.set ⟨b.limit, rest⟩).tree
      (writeSize (writeHeader mem ⟨b.limit, rest⟩) ⟨b.addr, 0⟩)) :
    Carves b c.tree.toList arena.chunks ∧
      MarkEffect b c.tree.toList arena.chunks mem arena.mem := by
  subst res
  refine ⟨?_, ?_, ?_⟩
  · simpa [Arena.chunks, relink, same] using
      Carves.keepRight c.before c.after rest restNonempty
  · intro p before after
    have notRight := after
    rw [Zipper.toList_tree, inHeader_append, inHeader_cons, not_or, not_or, same] at before
    rw [Arena.chunks, relink, Zipper.toList_tree, inHeader_append, inHeader_cons, not_or,
      not_or] at notRight
    refine (writeLinks_of_not_inHeader after).trans ?_
    rw [writeSize_of_outside (by exact before.2.1)]
    exact writeHeader_of_outside notRight.2.1
  · intro p before after
    rw [Arena.chunks, relink, Zipper.toList_tree, inHeader_append, inHeader_cons] at after
    rw [Zipper.toList_tree, inHeader_append, inHeader_cons, same] at before
    simp only [inHeader_cons, not_inHeader_nil, or_false]
    tauto

theorem markRange_keepLeft (leftNonempty : 0 < left)
    (touches : addr + left = b.addr) (same : c.value = ⟨addr, left + b.size⟩)
    (res : arena = relink (c.set ⟨addr, left⟩).tree (writeSize mem ⟨addr, left⟩)) :
    Carves b c.tree.toList arena.chunks ∧
      MarkEffect b c.tree.toList arena.chunks mem arena.mem := by
  subst res
  have effect := headerEffect_set mem c ⟨addr, left⟩ (by rw [same])
  refine ⟨?_, effect.kept, fun p before after => .inl (effect.cleared p before after)⟩
  simpa [Arena.chunks, relink, same] using
    Carves.keepLeft c.before c.after addr left leftNonempty touches

theorem markRange_keepBoth (gaps : Separated c.tree.toList)
    (blockNonempty : 0 < b.size) (leftNonempty : 0 < left) (rightNonempty : 0 < right)
    (touches : addr + left = b.addr) (same : c.value = ⟨addr, left + b.size + right⟩)
    (shrunk : arena = relink (c.set ⟨addr, left⟩).tree
      (writeSize (writeHeader mem ⟨b.limit, right⟩) ⟨addr, left⟩)) :
    ∃ arena', pageAllocRbtreeFreeRange arena b.limit right = .ok arena' ∧
      Carves b c.tree.toList arena'.chunks ∧
      MarkEffect b c.tree.toList arena'.chunks mem arena'.mem := by
  rw [Zipper.toList_tree, same] at gaps
  obtain ⟨gapsFront, gapsBack⟩ := separated_split gaps
  have chunks : arena.chunks = c.before ++ ⟨addr, left⟩ :: c.after := by
    simp [shrunk, Arena.chunks, relink]
  have untouched : ∀ o ∈ arena.chunks,
      o.limit < b.limit ∨ b.limit + right < o.addr := by
    simp only [FreeChunk.limit] at gapsFront gapsBack ⊢
    rw [chunks]
    simp only [mem_append, mem_cons]
    rintro o (inFront | rfl | inBack)
    · have := gapsFront o inFront
      omega
    · simp only
      omega
    · have := gapsBack o inBack
      omega
  have shrunkGaps : Separated arena.chunks := by
    rw [chunks]
    simp only [Separated, pairwise_append, pairwise_cons, mem_cons,
      forall_eq_or_imp, lo_freeChunk, hi_freeChunk] at gaps ⊢
    grind
  have apart : ∀ o ∈ arena.chunks, Apart o (⟨b.limit, right⟩ : FreeChunk) := by
    intro o membership
    have := untouched o membership
    simp only [Apart, lo_freeChunk, hi_freeChunk, FreeChunk.limit] at *
    omega
  obtain ⟨arena', freed, joins, effect⟩ :=
    pageAllocRbtreeFreeRange_spec shrunkGaps apart rightNonempty
  have sameHeaders : ∀ p,
      InHeader arena.chunks p ↔ InHeader c.tree.toList p := by
    intro p
    rw [chunks, Zipper.toList_tree, same]
    simp only [inHeader_append, inHeader_cons]
  refine ⟨arena', freed, ?_, fun p before after => ?_, fun p before after => ?_⟩
  · rw [Zipper.toList_tree, same]
    rw [chunks] at joins
    exact Carves.keepBoth _ _ _ _ _ _ leftNonempty rightNonempty touches joins
  · obtain ⟨front, membership, atFront⟩ := joins.exists_front fun o membership => by
      have := untouched o membership
      simp only [FreeChunk.limit] at *
      omega
    have notRight : ¬ (b.limit ≤ p ∧ p < b.limit + headerSize) := by
      intro inside
      exact after ⟨front, membership, by rw [atFront]; exact inside⟩
    have notShrunk : ¬ InHeader arena.chunks p := mt (sameHeaders p).mp before
    rw [effect.kept p notShrunk after]
    subst shrunk
    refine (writeLinks_of_not_inHeader notShrunk).trans ?_
    rw [chunks, inHeader_append, inHeader_cons, not_or, not_or] at notShrunk
    rw [writeSize_of_outside notShrunk.2.1]
    exact writeHeader_of_outside notRight
  · exact .inl (effect.cleared p ((sameHeaders p).mpr before) after)

theorem pageAllocRbtreeMarkRangeAllocated_spec (mem : Mem) (gaps : Separated c.tree.toList)
    (blockNonempty : 0 < b.size) (starts : c.value.addr ≤ b.addr)
    (ends : b.limit ≤ c.value.limit) :
    ∃ arena, pageAllocRbtreeMarkRangeAllocated mem c b.addr b.size =
        (arena, none) ∧
      Carves b c.tree.toList arena.chunks ∧
      MarkEffect b c.tree.toList arena.chunks mem arena.mem := by
  obtain ⟨left, startsAt⟩ := Nat.exists_eq_add_of_le starts
  obtain ⟨right, endsAt⟩ := Nat.exists_eq_add_of_le ends
  have limit : c.value.limit = b.addr + b.size + right := endsAt
  have size : c.value.size = left + b.size + right := by
    simp only [FreeChunk.limit] at limit
    omega
  unfold pageAllocRbtreeMarkRangeAllocated
  rcases Nat.eq_zero_or_pos left with rfl | leftNonempty <;>
    rcases Nat.eq_zero_or_pos right with rfl | rightNonempty
  · have same : c.value = b := by ext <;> omega
    refine ⟨_, ?_, markRange_whole same⟩
    simp [same, FreeChunk.limit]
  · have same : c.value = ⟨b.addr, b.size + right⟩ := by
      ext <;> simp only <;> omega
    refine ⟨_, ?_, markRange_keepRight rightNonempty same rfl⟩
    have more : b.addr + b.size < b.addr + (b.size + right) := by omega
    have rest : b.addr + (b.size + right) - (b.addr + b.size) = right := by
      omega
    simp [same, FreeChunk.limit, more, rest]
  · have same : c.value = ⟨c.value.addr, left + b.size⟩ := by
      ext <;> simp only
      omega
    refine ⟨_, ?_, markRange_keepLeft leftNonempty startsAt.symm same rfl⟩
    have apart : b.addr ≠ c.value.addr := by omega
    have kept : b.addr - c.value.addr = left := by omega
    simp [limit, apart, kept]
  · have same : c.value = ⟨c.value.addr, left + b.size + right⟩ := by
      ext <;> simp only
      omega
    obtain ⟨arena, freed, spec⟩ := markRange_keepBoth gaps blockNonempty leftNonempty rightNonempty
      startsAt.symm same rfl
    refine ⟨arena, ?_, spec⟩
    have apart : b.addr ≠ c.value.addr := by omega
    have kept : b.addr - c.value.addr = left := by omega
    simp only [FreeChunk.limit] at freed
    simp [limit, apart, kept, rightNonempty, freed]

end MarkRange

/-- What an allocation does to memory: as marking, and the front of the block is
cleared. -/
structure AllocEffect (zeroAtFree : Bool) (block : FreeChunk)
    (chunks chunks' : List FreeChunk) (mem mem' : Mem) : Prop where
  kept : ∀ point, ¬ InHeader chunks point → ¬ InHeader chunks' point →
    ¬ InHeader [block] point → mem' point = mem point
  cleared : zeroAtFree = true → ∀ point, InHeader chunks point ∨ InHeader [block] point →
    ¬ InHeader chunks' point → mem' point = 0

theorem takeFromChunk_spec (zeroAtFree : Bool) (mem : Mem) {c : Zipper FreeChunk}
    {b : FreeChunk} (gaps : Separated c.tree.toList)
    (blockNonempty : 0 < b.size) (starts : c.value.addr ≤ b.addr)
    (ends : b.limit ≤ c.value.limit) :
    ∃ arena, takeFromChunk zeroAtFree mem c b.addr b.size =
        (arena, b.addr) ∧
      Carves b c.tree.toList arena.chunks ∧
      AllocEffect zeroAtFree b c.tree.toList arena.chunks mem arena.mem := by
  obtain ⟨marked, res, carves, kept, cleared⟩ :=
    pageAllocRbtreeMarkRangeAllocated_spec mem gaps blockNonempty starts ends
  simp only [takeFromChunk, res]
  cases zeroAtFree with
  | false =>
    exact ⟨marked, rfl, carves, fun p before after _ => kept p before after,
      by simp⟩
  | true =>
    refine ⟨{ marked with mem := memset marked.mem b.addr headerSize }, rfl, carves,
      fun p before after notFront => ?_, fun _ p before after => ?_⟩
    · simp only [inHeader_cons, not_inHeader_nil, or_false] at notFront
      exact (memset_of_outside notFront).trans (kept p before after)
    · by_cases front : InHeader [b] p
      · simp only [inHeader_cons, not_inHeader_nil, or_false] at front
        exact memset_of_inside front
      · have abandoned := cleared p (before.resolve_right front) after
        simp only [inHeader_cons, not_inHeader_nil, or_false] at front abandoned
        exact (memset_of_outside front).trans (abandoned.resolve_right front)

theorem allocSize_eq (pos : 0 < npages) (inRange : npages < 2 ^ 31) :
    (allocSize npages : Int) = pageSize * npages := by
  unfold allocSize
  rw [CInt.toULong_of_range] <;> simp only [pageSize] <;> omega

theorem block_of_chunkFits (valid : c.Valid) (pos : 0 < npages)
    (inRange : npages < 2 ^ 31) (small : p2align ≤ 51)
    (fits : chunkFits npages p2align c = true) :
    ∃ b : FreeChunk, alignedAddr p2align c.addr = b.addr ∧
      allocSize npages = b.size ∧ b.Valid ∧ c.addr ≤ b.addr ∧
      b.limit ≤ c.limit := by
  obtain ⟨-, -, nonnull, -, bounded⟩ := valid
  have addrBounded : c.addr ≤ 2 ^ 52 := by
    simp only [FreeChunk.limit] at bounded
    omega
  obtain ⟨above, below, aligned⟩ := alignedAddr_spec small addrBounded
  have size := allocSize_eq pos inRange
  have largest : pageSize * 2 ^ p2align ≤ pageSize * 2 ^ 51 :=
    Nat.mul_le_mul_left _ (Nat.pow_le_pow_right (by decide) small)
  have pageAligned : alignedAddr p2align c.addr % pageSize = 0 :=
    Nat.mod_eq_zero_of_dvd ((Nat.dvd_mul_right _ _).trans (Nat.dvd_of_mod_eq_zero aligned))
  simp only [chunkFits, decide_eq_true_eq] at fits
  simp only [pageSize] at *
  rw [mod_eq_of_lt (by omega)] at fits
  generalize alignedAddr p2align c.addr = addr at *
  generalize allocSize npages = bytes at *
  refine ⟨⟨addr, bytes⟩, rfl, rfl, ⟨pageAligned, ?_, ?_, ?_, ?_⟩, above, fits⟩ <;>
    simp only [FreeChunk.limit, pageSize] at * <;> omega

/-- An allocation either finds no chunk and changes nothing, or carves an aligned block
of the requested size out of a chunk. -/
theorem pageAllocRbtreeAllocPages_spec {zeroAtFree : Bool} (gaps : Separated arena.chunks)
    (valid : ∀ c ∈ arena.chunks, c.Valid) (pos : 0 < npages)
    (inRange : npages < 2 ^ 31) (small : p2align ≤ 51) :
    pageAllocRbtreeAllocPages zeroAtFree arena npages p2align = (arena, 0) ∨
      ∃ arena' b, pageAllocRbtreeAllocPages zeroAtFree arena npages p2align =
          (arena', b.addr) ∧
        b.size = allocSize npages ∧ b.Valid ∧
        Carves b arena.chunks arena'.chunks ∧
        AllocEffect zeroAtFree b arena.chunks arena'.chunks arena.mem arena'.mem := by
  unfold pageAllocRbtreeAllocPages
  cases found : search (chunkFits npages p2align) arena.root [] with
  | none => exact .inl rfl
  | some c =>
    right
    obtain ⟨fits, sameChunks⟩ := search_some found
    change c.tree.toList = arena.chunks at sameChunks
    rw [← sameChunks] at gaps valid ⊢
    obtain ⟨b, atAddr, ofSize, blockValid, starts, ends⟩ :=
      block_of_chunkFits (valid c.value (by simp)) pos inRange small fits
    obtain ⟨arena', res, carves, effect⟩ := takeFromChunk_spec zeroAtFree arena.mem gaps
      blockValid.nonempty starts ends
    refine ⟨arena', b, ?_, ofSize.symm, blockValid, carves, effect⟩
    rw [← atAddr, ← ofSize] at res
    rw [← atAddr]
    exact res

end McKernel.PageAlloc
