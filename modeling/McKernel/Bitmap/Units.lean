import McKernel.Bitmap.Model

/-!
# The units of a bitmap

What each operation does to the set of units whose bit is set.  Words and masks do not appear
any more after this module.
-/

namespace McKernel.Bitmap

open CInt List Function

variable {map : Map} {desc : Desc} {unit npages p2align : Nat}

/-! ## Bits of words -/

theorem getLsbD_mask (inWord : i < 64) :
    (mask bits).getLsbD i = decide (i < bits) := by
  rw [mask, BitVec.getLsbD_ofNat, Nat.testBit_two_pow_sub_one]
  simp [inWord]

theorem getLsbD_mask_shiftLeft (inWord : i < 64) :
    (mask bits <<< j).getLsbD i = decide (j ≤ i ∧ i < j + bits) := by
  rw [BitVec.getLsbD_shiftLeft, getLsbD_mask (by omega), Bool.eq_iff_iff]
  simp only [Bool.and_eq_true, Bool.not_eq_true', decide_eq_true_eq, decide_eq_false_iff_not]
  omega

theorem getLsbD_one_shiftLeft (inWord : i < 64) :
    (1#64 <<< j).getLsbD i = decide (i = j) := by
  have one : 1#64 = mask 1 := rfl
  rw [one, getLsbD_mask_shiftLeft inWord, decide_eq_decide]
  omega

theorem and_eq_zero_iff {word bits : BitVec 64} :
    word &&& bits = 0 ↔ ∀ i < 64, bits.getLsbD i = true → word.getLsbD i = false := by
  rw [BitVec.eq_of_getLsbD_eq_iff]
  refine forall₂_congr fun i _ => ?_
  simp

theorem bit_setWord (i : Nat) (bits : BitVec 64) :
    bit (setWord map i bits) unit =
      (bit map unit || decide (unit / 64 = i) && bits.getLsbD (unit % 64)) := by
  by_cases here : unit / 64 = i
  · subst here
    simp [bit, setWord]
  · simp [bit, setWord, here]

theorem bit_setBit (o : Nat) :
    bit (setBit map o) unit = (bit map unit || decide (unit = o)) := by
  rw [setBit, bit_setWord, getLsbD_one_shiftLeft (Nat.mod_lt _ (by decide)), ← Bool.decide_and]
  congr 2
  rw [eq_iff_iff]
  omega

theorem bit_clearBit (o : Nat) :
    bit (clearBit map o) unit = (bit map unit && decide (unit ≠ o)) := by
  have inWord : unit % 64 < 64 := Nat.mod_lt _ (by decide)
  by_cases here : unit / 64 = o / 64
  · simp only [bit, clearBit, here, update_self, BitVec.getLsbD_and, BitVec.getLsbD_not,
      getLsbD_one_shiftLeft inWord, inWord]
    have same : unit % 64 = o % 64 ↔ unit = o := by omega
    simp [same]
  · have ne : unit ≠ o := fun same => here (by rw [same])
    simp [bit, clearBit, here, ne]

theorem bit_fill (i : Nat) :
    bit (Function.update map i (BitVec.allOnes 64)) unit =
      (bit map unit || decide (unit / 64 = i)) := by
  have inWord : unit % 64 < 64 := Nat.mod_lt _ (by decide)
  by_cases here : unit / 64 = i
  · subst here
    simp only [bit, update_self, BitVec.getLsbD_allOnes, inWord]
    simp
  · simp [bit, here]

/-! ## Loops -/

theorem bit_foldl {step : Map → Nat → Map} {sets : Nat → Prop} [DecidablePred sets]
    (steps : ∀ map k, bit (step map k) unit = (bit map unit || decide (sets k)))
    (list : List Nat) :
    bit (list.foldl step map) unit = (bit map unit || decide (∃ k ∈ list, sets k)) := by
  induction list generalizing map with
  | nil => simp
  | cons k list ih =>
    rw [foldl_cons, ih, steps, Bool.or_assoc, ← Bool.decide_or]
    simp

theorem bit_init (start size shift : Nat)
    (inside : unit < (ihkPageallocInit start size shift).count * 64) :
    bit (ihkPageallocInit start size shift).map unit = decide (size / 2 ^ shift ≤ unit) := by
  have steps : ∀ map k, bit (setBit map (size / 2 ^ shift + k)) unit =
      (bit map unit || decide (unit = size / 2 ^ shift + k)) := fun _ _ => bit_setBit _
  simp only [ihkPageallocInit] at inside ⊢
  rw [bit_foldl steps]
  simp only [bit, BitVec.ofNat_eq_ofNat, BitVec.getLsbD_zero, Bool.false_or, decide_eq_decide,
    mem_range]
  exact ⟨fun ⟨k, _, same⟩ => by omega,
    fun above => ⟨unit - size / 2 ^ shift, by omega, by omega⟩⟩

theorem bit_reserveLoop (n fuel i : Nat) (enough : n ≤ i + fuel) :
    bit (reserveLoop n fuel i map) unit = (bit map unit || decide (i ≤ unit ∧ unit < n)) := by
  induction fuel generalizing i map with
  | zero =>
    have none : ¬(i ≤ unit ∧ unit < n) := by omega
    simp [reserveLoop, none]
  | succ fuel ih =>
    rw [reserveLoop]
    split_ifs with more whole
    · rw [ih _ (by omega), bit_fill, Bool.or_assoc, ← Bool.decide_or]
      congr 2
      rw [eq_iff_iff]
      omega
    · rw [ih _ (by omega), bit_setBit, Bool.or_assoc, ← Bool.decide_or]
      congr 2
      rw [eq_iff_iff]
      omega
    · have none : ¬(i ≤ unit ∧ unit < n) := by omega
      simp [none]

theorem freeUnits_spec (first : Nat) (used : ∀ unit, first ≤ unit → unit < first + npages →
      bit map unit = true) :
    ∃ map', freeUnits npages first map = some map' ∧
      ∀ unit, bit map' unit =
        (bit map unit && decide (¬(first ≤ unit ∧ unit < first + npages))) := by
  induction npages generalizing first map with
  | zero =>
    exact ⟨map, rfl, fun unit => by simp⟩
  | succ npages ih =>
    have stillUsed : ∀ unit, first + 1 ≤ unit → unit < first + 1 + npages →
        bit (clearBit map first) unit = true := fun unit above below => by
      rw [bit_clearBit, used unit (by omega) (by omega)]
      simp
      omega
    obtain ⟨map', res, cleared⟩ := ih (first + 1) stillUsed
    refine ⟨map', ?_, fun unit => ?_⟩
    · rw [freeUnits, if_pos (used first (Nat.le_refl _) (by omega)), res]
    · rw [cleared, bit_clearBit, Bool.and_assoc, ← Bool.decide_and]
      congr 2
      rw [eq_iff_iff]
      omega

end McKernel.Bitmap
