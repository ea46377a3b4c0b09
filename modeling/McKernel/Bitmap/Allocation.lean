import McKernel.Bitmap.Units

/-!
# Allocating from a bitmap

Both search strategies find runs of free units: inside one word, or from the start of a word
on.  The second never looks at a run that ends in the last word, and the first aligns runs
relative to the start of the area.
-/

namespace McKernel.Bitmap

open List Function Nat

variable {map : Map} {desc : Desc} {unit npages p2align : Nat}

/-- The units from `first` on are free. -/
def FreeRun (map : Map) (first npages : Nat) : Prop :=
  ∀ unit, first ≤ unit → unit < first + npages → bit map unit = false

theorem bit_inWord {mi i : Nat} (inWord : i < 64) : bit map (mi * 64 + i) = (map mi).getLsbD i := by
  have index : (mi * 64 + i) / 64 = mi := by omega
  have off : (mi * 64 + i) % 64 = i := by omega
  simp only [bit, index, off]

theorem freeRun_word {mi j : Nat} (fits : j + npages ≤ 64) :
    FreeRun map (mi * 64 + j) npages ↔ map mi &&& (mask npages <<< j) = 0 := by
  rw [and_eq_zero_iff]
  constructor
  · intro free i inWord set
    rw [getLsbD_mask_shiftLeft inWord, decide_eq_true_eq] at set
    rw [← bit_inWord inWord]
    exact free _ (by omega) (by omega)
  · intro clear unit above below
    obtain ⟨i, rfl⟩ : ∃ i, unit = mi * 64 + i := ⟨unit - mi * 64, by omega⟩
    have inWord : i < 64 := by omega
    rw [bit_inWord inWord]
    refine clear i inWord ?_
    rw [getLsbD_mask_shiftLeft inWord, decide_eq_true_eq]
    omega

/-! ## Large blocks -/

/-- The pages in the last word of a large block. -/
def tail (npages : Nat) : Nat := if npages % 64 = 0 then 64 else npages % 64

theorem nblocks_tail (pos : 1 ≤ npages) :
    npages = (nblocks npages - 1) * 64 + tail npages ∧ 1 ≤ nblocks npages ∧
      1 ≤ tail npages ∧ tail npages ≤ 64 := by
  unfold nblocks tail
  split <;> omega

theorem mask_word : mask 64 <<< 0 = BitVec.allOnes 64 := by decide

theorem lastMask_eq : lastMask npages = mask (tail npages) <<< 0 := by
  unfold lastMask tail
  split
  · exact mask_word.symm
  · simp

theorem word_eq_zero_iff {mi : Nat} : FreeRun map (mi * 64) 64 ↔ map mi = 0 := by
  have word := @freeRun_word map 64 mi 0 (by decide)
  rwa [mask_word, BitVec.and_allOnes, add_zero] at word

theorem freeRun_words {mi : Nat} (pos : 1 ≤ npages) :
    FreeRun map (mi * 64) npages ↔ (∀ k < nblocks npages - 1, map (mi + k) = 0) ∧
      map (mi + nblocks npages - 1) &&& lastMask npages = 0 := by
  obtain ⟨total, some, _, small⟩ := nblocks_tail pos
  have last : mi + nblocks npages - 1 = mi + (nblocks npages - 1) := by omega
  have word := @freeRun_word map (tail npages) (mi + (nblocks npages - 1)) 0 (by omega)
  rw [lastMask_eq, last, ← word]
  constructor
  · refine fun free => ⟨fun k earlier => word_eq_zero_iff.mp ?_, ?_⟩ <;>
      exact fun unit above below => free unit (by omega) (by omega)
  · rintro ⟨whole, rest⟩ unit above below
    by_cases inLast : (mi + (nblocks npages - 1)) * 64 ≤ unit
    · exact rest unit (by omega) (by omega)
    · exact word_eq_zero_iff.mpr (whole (unit / 64 - mi) (by omega)) unit (by omega) (by omega)

theorem bit_markLarge (mi : Nat) (pos : 1 ≤ npages) :
    bit (markLarge map mi npages) unit =
      (bit map unit || decide (mi * 64 ≤ unit ∧ unit < mi * 64 + npages)) := by
  obtain ⟨total, some, _, _⟩ := nblocks_tail pos
  have inWord : unit % 64 < 64 := mod_lt _ (by decide)
  have steps : ∀ map k, bit (Function.update map (mi + k) (BitVec.allOnes 64)) unit =
      (bit map unit || decide (unit / 64 = mi + k)) := fun _ _ => bit_fill _
  rw [markLarge, bit_setWord, bit_foldl steps, lastMask_eq, getLsbD_mask_shiftLeft inWord,
    ← Bool.decide_and, Bool.or_assoc, ← Bool.decide_or]
  congr 2
  rw [eq_iff_iff]
  constructor
  · rintro (⟨k, earlier, here⟩ | ⟨here, below⟩)
    · have := mem_range.mp earlier
      omega
    · omega
  · intro inside
    by_cases inLast : unit / 64 = mi + nblocks npages - 1
    · exact .inr ⟨inLast, by omega⟩
    · exact .inl ⟨unit / 64 - mi, mem_range.mpr (by omega), by omega⟩

theorem largePlace_spec {mi : Nat} (pos : 1 ≤ npages)
    (found : largePlace desc npages p2align = some mi) :
    mi + nblocks npages < desc.count ∧ desc.address mi 0 % (4096 * 2 ^ p2align) = 0 ∧
      FreeRun desc.map (mi * 64) npages := by
  have accepted := find?_some found
  simp only [Bool.and_eq_true, Bool.not_eq_true', Bool.or_eq_false_iff, decide_eq_false_iff_not,
    bne_eq_false_iff_eq, all_eq_true, mem_range, beq_iff_eq] at accepted
  exact ⟨by omega, accepted.1.1.2, (freeRun_words pos).mpr ⟨accepted.1.2, accepted.2⟩⟩

theorem smallPlace_spec {mi j : Nat}
    (found : smallPlace desc npages p2align = some (mi, j)) :
    mi < desc.count ∧ j + npages ≤ 64 ∧ j % 2 ^ p2align = 0 ∧
      FreeRun desc.map (mi * 64 + j) npages := by
  obtain ⟨i, isIndex, chosen⟩ := exists_of_findSome?_eq_some found
  split at chosen
  · cases chosen
  · obtain ⟨place, isPlace, same⟩ := Option.map_eq_some_iff.mp chosen
    cases same
    have accepted := find?_some isPlace
    have inWord := mem_range.mp (mem_of_find?_eq_some isPlace)
    simp only [Bool.and_eq_true, beq_iff_eq] at accepted
    have fits : j + npages ≤ 64 := by omega
    exact ⟨mem_range.mp isIndex, fits, accepted.1, (freeRun_word fits).mpr accepted.2⟩

theorem alloc_spec {address : Nat} {desc' : Desc} (pos : 1 ≤ npages)
    (res : ihkPageallocAlloc desc npages p2align = some (address, desc')) :
    ∃ first, address = desc.start + first * 2 ^ desc.shift ∧ first + npages ≤ desc.count * 64 ∧
      FreeRun desc.map first npages ∧ desc' = { desc with map := desc'.map } ∧
      ∀ unit, bit desc'.map unit =
        (bit desc.map unit || decide (first ≤ unit ∧ unit < first + npages)) := by
  unfold ihkPageallocAlloc at res
  split at res
  · obtain ⟨mi, found, same⟩ := Option.map_eq_some_iff.mp res
    cases same
    obtain ⟨fits, -, free⟩ := largePlace_spec pos found
    obtain ⟨total, _, _, _⟩ := nblocks_tail pos
    exact ⟨mi * 64, rfl, by omega, free, rfl, fun unit => bit_markLarge mi pos⟩
  next small =>
    obtain ⟨⟨mi, j⟩, found, same⟩ := Option.map_eq_some_iff.mp res
    cases same
    obtain ⟨isIndex, fits, -, free⟩ := smallPlace_spec found
    refine ⟨mi * 64 + j, rfl, by omega, free, rfl, fun unit => ?_⟩
    rw [bit_setWord, getLsbD_mask_shiftLeft (mod_lt _ (by decide)), ← Bool.decide_and]
    congr 2
    rw [eq_iff_iff]
    omega

/-- The runs the strategy for a request is about: inside one word, or from the start of a word
on up to the end of the bitmap. -/
def Shaped (desc : Desc) (npages p2align first : Nat) : Prop :=
  if npages ≥ 32 ∨ p2align ≥ 5 then first % 64 = 0 ∧ first + npages ≤ desc.count * 64
  else first / 64 < desc.count ∧ first % 64 + npages ≤ 64

/-- The page at a unit is aligned as an address. -/
def Aligned (desc : Desc) (p2align first : Nat) : Prop :=
  (desc.start + first * 4096) % (4096 * 2 ^ p2align) = 0

/-- A large request finds a run that ends before the last word, or there is none that ends in
it; a small one is made of an area that starts aligned, or finds nothing, neither a run whose
number is a multiple of the alignment nor one whose address is. -/
def Fits (desc : Desc) (npages p2align : Nat) : Prop :=
  if npages ≥ 32 ∨ p2align ≥ 5 then
    (∃ first, Shaped desc npages p2align first ∧ Aligned desc p2align first ∧
      FreeRun desc.map first npages ∧ first + npages ≤ (desc.count - 1) * 64) ∨
    ∀ first, Shaped desc npages p2align first → Aligned desc p2align first →
      ¬ FreeRun desc.map first npages
  else Aligned desc p2align 0 ∨ ∀ first, Shaped desc npages p2align first →
    FreeRun desc.map first npages → first % 2 ^ p2align ≠ 0 ∧ ¬ Aligned desc p2align first

end McKernel.Bitmap
