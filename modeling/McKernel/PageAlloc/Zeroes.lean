import McKernel.PageAlloc.Node

/-!
# Zeroing freed memory

`__ihk_numa_zero_free_pages` moves entries from `to_zero_list` to `zeroed_list`, one
after the other, and clears each of them behind its header.  All other memory keeps
its contents, apart from the list links in the headers of the entries.
-/

namespace McKernel.PageAlloc

open Mem Extent CInt List

/-- One entry of `to_zero_list` is cleared and moves to `zeroed_list`. -/
structure ZeroStep (node node' : NumaNode) (front back : List FreeChunk)
    (chunk : FreeChunk) : Prop where
  taken : node.toZeroList = front ++ chunk :: back
  result : node' = { (node.setMem node'.mem).setToZeroList (front ++ back) with
    zeroedList := chunk :: node.zeroedList
    nrToZeroPages := toInt (node.nrToZeroPages - toInt (chunk.size / pageSize)) }
  memory : ∀ point, ¬ InHeader node.toZeroList point →
    node'.mem point =
      if chunk.addr + headerSize ≤ point ∧ point < chunk.limit then 0 else node.mem point

/-- Any number of entries of `to_zero_list` is zeroed. -/
inductive Zeroes : NumaNode → NumaNode → Prop where
  | idle {node : NumaNode} {mem : Mem}
      (quiet : ∀ point, ¬ InHeader node.toZeroList point → mem point = node.mem point) :
      Zeroes node (node.setMem mem)
  | step {node node' final : NumaNode} {front back : List FreeChunk} {chunk : FreeChunk}
      (first : ZeroStep node node' front back chunk) (rest : Zeroes node' final) :
      Zeroes node final

variable {c : FreeChunk} {p : Nat}

theorem llistAdd_of_not_inHeader {mem : Mem} {list : List FreeChunk}
    (outside : ¬ (c.addr ≤ p ∧ p < c.addr + headerSize)) :
    (llistAdd mem c list).1 p = mem p := by
  simp only [headerSize] at outside
  exact storeWord_of_outside (by omega)

theorem takeBigEnough_spec (need : Nat) (mem : Mem) (tmp list : List FreeChunk) :
    ∃ mem' skipped rest, takeBigEnough need mem tmp list =
        (mem', list.find? (fun c => decide (need ≤ c.size)),
          skipped.reverse ++ tmp, rest) ∧
      list = skipped ++
        ((list.find? fun c => decide (need ≤ c.size)).toList ++ rest) ∧
      ∀ p, ¬ InHeader list p → mem' p = mem p := by
  induction list generalizing mem tmp with
  | nil => exact ⟨mem, [], [], rfl, rfl, fun _ _ => rfl⟩
  | cons c list ih =>
    by_cases small : c.size < need
    · have notEnough : decide (need ≤ c.size) = false := by simpa using small
      obtain ⟨mem', skipped, rest, res, split, quiet⟩ :=
        ih (llistAdd mem c tmp).1 (llistAdd mem c tmp).2
      refine ⟨mem', c :: skipped, rest, ?_, ?_, fun p outside => ?_⟩
      · simp only [takeBigEnough, if_pos small, find?_cons, notEnough]
        rw [res]
        simp [llistAdd]
      · simp only [find?_cons, notEnough, cons_append]
        rw [← split]
      · simp only [inHeader_cons, not_or] at outside
        rw [quiet p outside.2, llistAdd_of_not_inHeader outside.1]
    · have enough : decide (need ≤ c.size) = true := by simpa using small
      refine ⟨mem, [], list, ?_, ?_, fun _ _ => rfl⟩
      · simp [takeBigEnough, small, enough]
      · simp [enough]

theorem addBack_spec (mem : Mem) (tmp list : List FreeChunk) :
    (addBack mem tmp list).2 = tmp.reverse ++ list ∧
      ∀ p, ¬ InHeader tmp p → (addBack mem tmp list).1 p = mem p := by
  induction tmp generalizing mem list with
  | nil => exact ⟨rfl, fun _ _ => rfl⟩
  | cons c tmp ih =>
    obtain ⟨restored, quiet⟩ :=
      ih (llistAdd mem c list).1 (llistAdd mem c list).2
    refine ⟨?_, fun p outside => ?_⟩
    · simp only [addBack]
      rw [restored]
      simp [llistAdd]
    · simp only [inHeader_cons, not_or] at outside
      simp only [addBack]
      rw [quiet p outside.2, llistAdd_of_not_inHeader outside.1]

theorem putBack_spec (node : NumaNode) (tmp : List FreeChunk) :
    ∃ mem, putBack node tmp = (node.setMem mem).setToZeroList (tmp.reverse ++ node.toZeroList) ∧
      ∀ p, ¬ InHeader tmp p → mem p = node.mem p := by
  obtain ⟨restored, quiet⟩ := addBack_spec node.mem tmp node.toZeroList
  refine ⟨_, ?_, quiet⟩
  simp only [putBack, restored]

theorem zeroChunk_mem {node : NumaNode}
    (outside : ¬ (c.addr ≤ p ∧ p < c.addr + headerSize)) :
    (zeroChunk node c).mem p =
      if c.addr + headerSize ≤ p ∧ p < c.limit then 0
      else node.mem p := by
  change (llistAdd _ c node.zeroedList).1 p = _
  rw [llistAdd_of_not_inHeader outside]
  have sameRange : (c.addr + headerSize ≤ p ∧
      p < c.addr + headerSize + (c.size - headerSize)) ↔
      c.addr + headerSize ≤ p ∧ p < c.limit := by
    simp only [headerSize, FreeChunk.limit]
    omega
  simp only [memset, sameRange]

theorem zeroes_zeroAll (node : NumaNode) (zeroed : Int) (list : List FreeChunk) :
    Zeroes (node.setToZeroList list) (zeroAll node zeroed list).1 := by
  induction list generalizing node zeroed with
  | nil => exact (.idle fun _ _ => rfl : Zeroes _ ((node.setToZeroList []).setMem node.mem))
  | cons c rest ih =>
    have first : ZeroStep (node.setToZeroList (c :: rest))
        ((zeroChunk node c).setToZeroList rest) [] rest c := by
      refine ⟨rfl, rfl, fun p outside => ?_⟩
      change ¬ InHeader (c :: rest) p at outside
      rw [inHeader_cons, not_or] at outside
      exact zeroChunk_mem outside.1
    exact .step first (ih (zeroChunk node c) _)

section

variable {config : Config} {node : NumaNode} {nrPages : Int}

theorem ihkNumaZeroFreePages_of_found (zeroAtFree : config.zeroAtFree) (somePages : nrPages ≠ 0)
    (found : node.toZeroList.find? (fun c => decide (shiftedSize nrPages ≤ c.size)) =
      some c) :
    ∃ node' front back, ihkNumaZeroFreePages config node nrPages =
        (node', toInt (c.size / pageSize)) ∧
      ZeroStep node node' front back c := by
  obtain ⟨mem, skipped, rest, taken, split, quiet⟩ :=
    takeBigEnough_spec (shiftedSize nrPages) node.mem [] node.toZeroList
  rw [found] at taken split
  rw [append_nil] at taken
  obtain ⟨mem', restored, quietBack⟩ := putBack_spec
    (zeroChunk ((node.setMem mem).setToZeroList rest) c) skipped.reverse
  rw [reverse_reverse] at restored
  refine ⟨putBack (zeroChunk ((node.setMem mem).setToZeroList rest) c) skipped.reverse,
    skipped, rest, ?_, split, ?_, fun p outside => ?_⟩
  · simp only [ihkNumaZeroFreePages, zeroAtFree, taken]
    rw [if_neg (by simp), if_pos somePages]
  · rw [restored]
    rfl
  · rw [restored]
    change mem' p = _
    have notTaken := outside
    rw [split] at notTaken
    simp only [inHeader_append, Option.toList_some, cons_append, nil_append,
      inHeader_cons, not_or] at notTaken
    rw [quietBack p (by simpa [InHeader] using notTaken.1), zeroChunk_mem notTaken.2.1]
    change (if _ then _ else mem p) = _
    rw [quiet p outside]

theorem ihkNumaZeroFreePages_of_not_found (zeroAtFree : config.zeroAtFree) (somePages : nrPages ≠ 0)
    (missing : node.toZeroList.find? (fun c => decide (shiftedSize nrPages ≤ c.size)) =
      none) :
    ∃ mem, ihkNumaZeroFreePages config node nrPages = (node.setMem mem, 0) ∧
      ∀ p, ¬ InHeader node.toZeroList p → mem p = node.mem p := by
  obtain ⟨mem, skipped, rest, taken, split, quiet⟩ :=
    takeBigEnough_spec (shiftedSize nrPages) node.mem [] node.toZeroList
  rw [missing] at taken split
  rw [append_nil] at taken
  simp only [Option.toList_none, nil_append] at split
  obtain ⟨mem', restored, quietBack⟩ :=
    putBack_spec ((node.setMem mem).setToZeroList rest) skipped.reverse
  refine ⟨mem', ?_, fun p outside => ?_⟩
  · simp only [ihkNumaZeroFreePages, zeroAtFree, taken]
    rw [if_neg (by simp), if_pos somePages, restored, reverse_reverse]
    change (NumaNode.setToZeroList _ (skipped ++ rest), (0 : Int)) = _
    rw [← split]
    rfl
  · have notSkipped := outside
    rw [split, inHeader_append, not_or] at notSkipped
    rw [quietBack p (by simpa [InHeader] using notSkipped.1)]
    exact quiet p outside

theorem zeroes_ihkNumaZeroFreePages (config : Config) (node : NumaNode) (nrPages : Int) :
    Zeroes node (ihkNumaZeroFreePages config node nrPages).1 := by
  cases zeroAtFree : config.zeroAtFree with
  | false =>
    simp only [ihkNumaZeroFreePages, zeroAtFree]
    exact (.idle fun _ _ => rfl : Zeroes node (node.setMem node.mem))
  | true =>
    by_cases somePages : nrPages = 0
    · simp only [ihkNumaZeroFreePages, zeroAtFree, somePages]
      exact zeroes_zeroAll node 0 node.toZeroList
    · cases found : node.toZeroList.find?
          fun c => decide (shiftedSize nrPages ≤ c.size) with
      | none =>
        obtain ⟨mem, res, quiet⟩ :=
          ihkNumaZeroFreePages_of_not_found zeroAtFree somePages found
        rw [res]
        exact .idle quiet
      | some c =>
        obtain ⟨node', front, back, res, first⟩ :=
          ihkNumaZeroFreePages_of_found zeroAtFree somePages found
        rw [res]
        exact .step first (.idle fun _ _ => rfl : Zeroes node' (node'.setMem node'.mem))

end

end McKernel.PageAlloc
