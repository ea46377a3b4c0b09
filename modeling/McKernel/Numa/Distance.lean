import McKernel.Lib.CInt

/-!
# Nodes in the order of their distance

`numa_distances_init` and `ihk_mc_get_numa_node_by_distance` of `kernel/mem.c`.  The pages of
`nodes_by_distance` have room for more entries than there are nodes, which are not written.
-/

namespace McKernel.Numa.Distance

open List Bool

/-- `struct node_distance`. -/
structure NodeDistance where
  id : BitVec 32
  distance : BitVec 32
  deriving DecidableEq

/-- Three assignments `^=`. -/
def xorSwap (x y : BitVec 32) : BitVec 32 × BitVec 32 :=
  let x' := x ^^^ y
  let y' := y ^^^ x'
  (x' ^^^ y', y')

def swap (left right : NodeDistance) : NodeDistance × NodeDistance :=
  let ids := xorSwap left.id right.id
  let distances := xorSwap left.distance right.distance
  (⟨ids.1, distances.1⟩, ⟨ids.2, distances.2⟩)

/-- The condition of a swap. -/
def after (left right : NodeDistance) : Bool :=
  right.distance.toInt < left.distance.toInt ||
    left.distance = right.distance && right.id.toInt < left.id.toInt

/-- The loop over `j`, with entry `j - 1` and those behind it, and `swapped`. -/
def pass (left : NodeDistance) : List NodeDistance → List NodeDistance × Bool
  | [] => ([left], false)
  | right :: rest =>
    if after left right then
      let pair := swap left right
      (pair.1 :: (pass pair.2 rest).1, true)
    else
      let tail := pass right rest
      (left :: tail.1, tail.2)

def passAll : List NodeDistance → List NodeDistance × Bool
  | [] => ([], false)
  | left :: rest => pass left rest

/-- The loop over `swapped`, unless `fuel` passes are not enough. -/
def sort : Nat → List NodeDistance → Option (List NodeDistance)
  | 0, _ => none
  | fuel + 1, entries =>
    let next := passAll entries
    if next.2 then sort fuel next.1 else some next.1

def decimal (value : BitVec 32) : String := toString value.toInt

/-- The texts that are written into `buf`, one after another. -/
def texts (node : BitVec 32) (entries : List NodeDistance) : List String :=
  ("NUMA " ++ decimal node ++ " distances: ") ::
    entries.map fun entry => decimal entry.id ++ " (" ++ decimal entry.distance ++ "), "

/-- The offset and the number of the bytes of `buf` that each `snprintf` writes, with the
terminator.  A negative size is rejected, with 0 characters. -/
def logWrites (pos : Nat) : List String → List (Nat × Nat)
  | [] => []
  | text :: rest =>
    if CInt.toInt (1024 - pos) < 0 then logWrites pos rest
    else (pos, min (text.length + 1) (1024 - pos)) :: logWrites (pos + text.length) rest

def entry (distance : Nat → BitVec 32) (j : Nat) : NodeDistance := ⟨.ofNat 32 j, distance j⟩

/-- `numa_distances_init` for one node, whose pages hold `slack` behind the entries, and what it
writes into `buf`. -/
def initNode (fuel nr : Nat) (distance : Nat → BitVec 32) (node : BitVec 32)
    (slack : List NodeDistance) : Option (List NodeDistance × List (Nat × Nat)) :=
  (sort fuel ((range nr).map (entry distance))).map fun entries =>
    (entries ++ slack, logWrites 0 (texts node entries))

/-- `ihk_mc_get_numa_node_by_distance` with the entries of the node of the processor, if there are
any: the id of the node it returns, unless it returns `NULL` or reads outside of the pages. -/
def getNumaNodeByDistance (initialized : Bool) (nr : Nat) (entries : Option (List NodeDistance))
    (i : Int) : Option (Option (BitVec 32)) :=
  if !initialized || i < 0 || nr < i then some none
  else
    match entries with
    | none => some none
    | some entries => (entries[i.toNat]?).map fun entry => some entry.id

theorem xorSwap_eq (x y : BitVec 32) : xorSwap x y = (y, x) := by
  have back : y ^^^ (x ^^^ y) = x := by rw [BitVec.xor_comm x, ← BitVec.xor_assoc]; simp
  simp only [xorSwap, back]
  rw [BitVec.xor_comm x, BitVec.xor_assoc]
  simp

@[simp] theorem swap_eq (left right : NodeDistance) : swap left right = (right, left) := by
  simp [swap, xorSwap_eq]

variable {left : NodeDistance} {rest : List NodeDistance}

/-! ## Sorting -/

/-- The order of the entries, by distance and node ID. -/
def Nearer (left right : NodeDistance) : Prop :=
  left.distance.toInt < right.distance.toInt ∨
    left.distance = right.distance ∧ left.id.toInt ≤ right.id.toInt

theorem nearer_iff {right : NodeDistance} : Nearer left right ↔ after left right = false := by
  simp only [Nearer, after, or_eq_false_iff, and_eq_false_iff, decide_eq_false_iff_not,
    ← BitVec.toInt_inj]
  omega

theorem not_after {right : NodeDistance} (swapped : after left right) :
    after right left = false := by
  rw [← nearer_iff, Nearer, ← BitVec.toInt_inj]
  simp only [after, or_eq_true, and_eq_true, decide_eq_true_eq, ← BitVec.toInt_inj]
    at swapped
  omega

theorem Nearer.trans {middle right : NodeDistance} (first : Nearer left middle)
    (second : Nearer middle right) : Nearer left right := by
  rw [Nearer, ← BitVec.toInt_inj] at *
  omega

theorem pass_perm : (pass left rest).1.Perm (left :: rest) := by
  induction rest generalizing left with
  | nil => exact .refl _
  | cons right rest ih =>
    rw [pass]
    split
    · simp only [swap_eq]
      exact (ih.cons right).trans (.swap left right rest)
    · exact ih.cons left

/-- The pairs of entries in the wrong order. -/
def inversions : List NodeDistance → Nat
  | [] => 0
  | entry :: rest => rest.countP (after entry) + inversions rest

/-- A pass with a swap leaves fewer inversions. -/
theorem inversions_pass (left : NodeDistance) (rest : List NodeDistance) :
    inversions (pass left rest).1 + (pass left rest).2.toNat ≤ inversions (left :: rest) := by
  induction rest generalizing left with
  | nil => rfl
  | cons right rest ih =>
    rw [pass]
    split
    · next swapped =>
      have earlier := not_after swapped
      have fewer := ih left
      simp only [swap_eq, inversions, pass_perm.countP_eq, countP_cons, earlier, swapped] at *
      simp
      omega
    · have fewer := ih right
      simp only [inversions, pass_perm.countP_eq] at *
      omega

/-- A pass without a swap has found all entries in order. -/
theorem pass_sorted (stable : (pass left rest).2 = false) :
    (pass left rest).1 = left :: rest ∧ (left :: rest).Pairwise Nearer := by
  induction rest generalizing left with
  | nil => exact ⟨rfl, pairwise_singleton _ _⟩
  | cons right rest ih =>
    rw [pass] at stable ⊢
    split at stable
    · cases stable
    · next ordered =>
      obtain ⟨same, sorted⟩ := ih stable
      have first : Nearer left right := nearer_iff.mpr (eq_false_of_not_eq_true ordered)
      simp only [if_neg ordered, same]
      refine ⟨trivial, .cons (fun entry isEntry => ?_) sorted⟩
      obtain rfl | isRest := mem_cons.mp isEntry
      · exact first
      · exact first.trans (rel_of_pairwise_cons sorted isRest)

theorem sort_spec (entries : List NodeDistance) (fuel : Nat) (enough : inversions entries < fuel) :
    ∃ sorted, sort fuel entries = some sorted ∧ sorted.Perm entries ∧
      sorted.Pairwise Nearer := by
  induction fuel generalizing entries with
  | zero => omega
  | succ fuel ih =>
    rw [sort]
    rcases entries with _ | ⟨left, rest⟩
    · exact ⟨[], rfl, .refl _, .nil⟩
    · have fewer := inversions_pass left rest
      cases swapped : (pass left rest).2 with
      | false =>
        obtain ⟨same, ordered⟩ := pass_sorted swapped
        exact ⟨_, by simp [passAll, swapped, same], .refl _, ordered⟩
      | true =>
        rw [swapped, toNat_true] at fewer
        obtain ⟨sorted, isSorted, perm, ordered⟩ := ih (pass left rest).1 (by omega)
        exact ⟨sorted, by simp [passAll, swapped, isSorted], perm.trans pass_perm, ordered⟩

theorem logWrites_inside {pos : Nat} {texts : List String}
    (short : ∀ text ∈ texts, text.length < 2 ^ 30) (early : pos < 2 ^ 31) :
    ∀ write ∈ logWrites pos texts, write.1 + write.2 ≤ 1024 := by
  induction texts generalizing pos with
  | nil => exact fun _ impossible => nomatch impossible
  | cons text rest ih =>
    obtain ⟨shortText, shortRest⟩ := forall_mem_cons.mp short
    have size : CInt.toInt (1024 - pos) = 1024 - pos := CInt.toInt_of_range (by omega) (by omega)
    rw [logWrites, size]
    split
    · exact ih shortRest early
    · refine forall_mem_cons.mpr ⟨?_, ih shortRest (by omega)⟩
      dsimp only
      omega

theorem length_decimal (v : BitVec 32) : (decimal v).length ≤ 11 := by
  have bound := BitVec.two_mul_toInt_lt (x := v)
  have low := BitVec.le_two_mul_toInt (x := v)
  unfold decimal
  change (Int.repr v.toInt).length ≤ 11
  generalize v.toInt = number at *
  unfold Int.repr
  split
  · next digits =>
    rw [Int.ofNat_eq_natCast] at bound
    exact Nat.le_succ_of_le (Nat.repr_length digits 10 (by decide) (by omega))
  · next digits =>
    rw [String.length_append]
    exact Nat.add_le_add_left (Nat.repr_length digits.succ 10 (by decide) (by omega)) 1

theorem texts_short (node : BitVec 32) (entries : List NodeDistance) :
    ∀ text ∈ texts node entries, text.length < 2 ^ 30 := by
  unfold texts
  refine forall_mem_cons.mpr ⟨?_, forall_mem_map.mpr fun entry _ => ?_⟩
  · have := length_decimal node
    simp only [String.length_append]
    have : "NUMA ".length = 5 := rfl
    have : " distances: ".length = 12 := rfl
    omega
  · have := length_decimal entry.id
    have := length_decimal entry.distance
    simp only [String.length_append]
    have : " (".length = 2 := rfl
    have : "), ".length = 3 := rfl
    omega

/-- The entries are sorted, the log stays in its buffer, and an index gives the node at this place,
or `NULL`, exactly if it is not `nr`. -/
theorem order_right (nr : Nat) (distance : Nat → BitVec 32) (node : BitVec 32)
    (slack : List NodeDistance) :
    ∃ fuel sorted writes, initNode fuel nr distance node slack = some (sorted ++ slack, writes) ∧
      sorted.Perm ((range nr).map (entry distance)) ∧ sorted.Pairwise Nearer ∧
      (∀ write ∈ writes, write.1 + write.2 ≤ 1024) ∧
      ∀ i : Int, getNumaNodeByDistance true nr (some (sorted ++ slack)) i =
        some (if 0 ≤ i ∧ i < nr then (sorted[i.toNat]?).map (·.id) else none) ↔ i ≠ nr := by
  obtain ⟨sorted, isSorted, perm, ordered⟩ :=
    sort_spec ((range nr).map (entry distance)) _ (Nat.lt_succ_self _)
  have length : sorted.length = nr := by rw [perm.length_eq, length_map, length_range]
  refine ⟨_, sorted, _, by rw [initNode, isSorted, Option.map_some], perm, ordered,
    logWrites_inside (texts_short node _) (by decide), fun i => ⟨?_, fun other => ?_⟩⟩
  · rintro right rfl
    have checked : (!true || decide ((nr : Int) < 0) || decide ((nr : Int) < nr)) = false := by simp
    rw [getNumaNodeByDistance, checked, if_neg Bool.false_ne_true, if_neg (by omega)] at right
    obtain ⟨_, -, impossible⟩ := Option.map_eq_some_iff.mp right
    cases impossible
  by_cases inside : 0 ≤ i ∧ i < nr
  · have index : i.toNat < sorted.length := by omega
    have checked : (!true || decide (i < 0) || decide (nr < i)) = false := by simp; omega
    rw [getNumaNodeByDistance, checked, if_neg Bool.false_ne_true, if_pos inside]
    simp [getElem?_append_left index, index]
  · have checked : (!true || decide (i < 0) || decide (nr < i)) = true := by simp; omega
    simp only [getNumaNodeByDistance, checked, if_neg inside, if_true]

theorem order_right_nearest : ∃ sorted : List NodeDistance,
    sorted.Perm ((range 2).map (entry fun j => if j = 0 then 20 else 10)) ∧
      sorted.Pairwise Nearer ∧ getNumaNodeByDistance true 2 (some (sorted ++ [])) 0 =
        some ((sorted[0]?).map (·.id)) := by
  obtain ⟨_, sorted, _, _, perm, ordered, _, found⟩ :=
    order_right 2 (fun j => if j = 0 then 20 else 10) 0 []
  exact ⟨sorted, perm, ordered, (found 0).mpr (by decide)⟩

/-- For the number of nodes itself, the entry behind the last one is used. -/
theorem order_wrong : ∃ sorted writes,
    initNode 3 2 (fun j => if j = 0 then 20 else 10) 0 [⟨7, 0⟩] =
        some (sorted ++ [⟨7, 0⟩], writes) ∧
      getNumaNodeByDistance true 2 (some (sorted ++ [⟨7, 0⟩])) 2 = some (some 7) :=
  ⟨[⟨1, 10⟩, ⟨0, 20⟩], logWrites 0 (texts 0 [⟨1, 10⟩, ⟨0, 20⟩]), by decide +kernel,
    by decide +kernel⟩

end McKernel.Numa.Distance
