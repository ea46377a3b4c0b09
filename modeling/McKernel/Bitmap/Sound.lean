import McKernel.Bitmap.Allocation
import McKernel.Lib.Machine

/-!
# Runs of the bitmap allocator

Allocations, reservations and frees in any order.  A unit of the area is in use if an allocated
block or a reserved range covers it.
-/

namespace McKernel.Bitmap

open CInt Extent

variable {start size shift : Nat}

/-! ## Reservations -/

/-- A unit intersects a range of addresses. -/
def Meets (desc : Desc) (range : Nat × Nat) (unit : Nat) : Prop :=
  desc.start + unit * 2 ^ desc.shift < range.2 ∧
    range.1 < desc.start + (unit + 1) * 2 ^ desc.shift

instance (desc : Desc) (range : Nat × Nat) (unit : Nat) : Decidable (Meets desc range unit) :=
  inferInstanceAs (Decidable (_ ∧ _))

theorem toInt_units {low high shift : Nat} (ordered : low ≤ high) (fits : high < 2 ^ 64)
    (small : (high - low) / 2 ^ shift < 2 ^ 31) :
    toInt ((toULong ((high : Int) - low) / 2 ^ shift : Nat) : Int) =
      ((high - low) / 2 ^ shift : Nat) := by
  have whole : (toULong ((high : Int) - low) : Int) = (high - low : Nat) := by
    rw [toULong_of_range (by omega) (by omega)]
    omega
  rw [Int.ofNat_inj.mp whole]
  exact toInt_of_range (by have := Int.natCast_nonneg ((high - low) / 2 ^ shift); omega)
    (by exact_mod_cast small)

theorem reserve_spec (inside : desc.start ≤ low)
    (nonempty : low < high) (fits : high + 2 ^ desc.shift ≤ 2 ^ 64)
    (small : (high - desc.start) / 2 ^ desc.shift + 1 < 2 ^ 31) :
    ∃ map, ihkPageallocReserve desc low high = { desc with map } ∧
      ∀ unit, bit map unit = (bit desc.map unit || decide (Meets desc (low, high) unit)) := by
  have pos : 0 < 2 ^ desc.shift := Nat.two_pow_pos _
  have upper : (high + 2 ^ desc.shift - 1 - desc.start) / 2 ^ desc.shift < 2 ^ 31 := by
    refine Nat.lt_of_le_of_lt (Nat.div_le_div_right ?_) (Nat.add_div_right _ pos ▸ small)
    omega
  have lower : (low - desc.start) / 2 ^ desc.shift < 2 ^ 31 :=
    Nat.lt_of_le_of_lt (Nat.div_le_div_right (by omega)) (Nat.lt_of_succ_lt small)
  have last := toInt_units (by omega : desc.start ≤ high + 2 ^ desc.shift - 1) (by omega) upper
  have first := toInt_units inside (by omega) lower
  have cast : ((high + 2 ^ desc.shift - 1 : Nat) : Int) = (high : Int) + 2 ^ desc.shift - 1 := by
    rw [Nat.cast_sub (by omega)]
    rfl
  rw [cast] at last
  refine ⟨_, by
    simp only [ihkPageallocReserve, last, first]
    rw [if_neg (not_or.mpr ⟨Int.not_lt.mpr (Int.natCast_nonneg _),
      Int.not_lt.mpr (Int.natCast_nonneg _)⟩)], fun unit => ?_⟩
  simp only [Int.toNat_natCast]
  rw [bit_reserveLoop _ _ _ (Nat.le_add_left _ _)]
  refine congrArg (bit desc.map unit || ·) (decide_eq_decide.mpr ?_)
  have above : (low - desc.start) / 2 ^ desc.shift ≤ unit ↔
      low - desc.start < unit * 2 ^ desc.shift + 2 ^ desc.shift := by
    rw [← Nat.lt_succ_iff, Nat.div_lt_iff_lt_mul pos, Nat.succ_mul]
  have below : unit < (high + 2 ^ desc.shift - 1 - desc.start) / 2 ^ desc.shift ↔
      unit * 2 ^ desc.shift + 2 ^ desc.shift ≤ high + 2 ^ desc.shift - 1 - desc.start := by
    rw [← Nat.succ_le_iff, Nat.le_div_iff_mul_le pos, Nat.succ_mul]
  rw [above, below, Meets, Nat.succ_mul]
  omega

/-! ## Runs -/

/-- A block that was given out, in units. -/
structure Block where
  first : Nat
  npages : Nat
deriving DecidableEq

instance : Extent Block where
  lo block := block.first
  hi block := block.first + block.npages

/-- An allocator with the blocks it gave out and the ranges that were reserved. -/
structure System where
  desc : Desc
  live : List Block
  reserved : List (Nat × Nat)

inductive Op where
  | alloc (npages p2align : Nat)
  | reserve (low high : Nat)
  | free (block : Block)

def Desc.unitAddress (desc : Desc) (unit : Nat) : Nat := desc.start + unit * 2 ^ desc.shift

def exec (system : System) : Op → Option System
  | .alloc npages p2align =>
    match ihkPageallocAlloc system.desc npages p2align with
    | none => some system
    | some (address, desc) =>
      let first := (address - system.desc.start) / 2 ^ system.desc.shift
      some { system with desc, live := ⟨first, npages⟩ :: system.live }
  | .reserve low high =>
    some { system with
      desc := ihkPageallocReserve system.desc low high
      reserved := (low, high) :: system.reserved }
  | .free block =>
    if block ∈ system.live then
      (ihkPageallocFree system.desc (system.desc.unitAddress block.first) block.npages).map
        fun desc => { system with desc, live := system.live.erase block }
    else none

/-- The runs of an allocator for the area of `size` bytes from `start`. -/
def machine (start size shift : Nat) : Machine System Op where
  init system := system = ⟨ihkPageallocInit start size shift, [], []⟩
  step system op next := exec system op = some next

/-- Allocations ask for pages, and reservations are made inside the area where nothing is
allocated. -/
def regular (system : System) : Op → Bool
  | .alloc npages _ => decide (1 ≤ npages)
  | .reserve low high =>
    decide (system.desc.start ≤ low ∧ low < high ∧ high ≤ system.desc.stop) &&
      system.live.all fun block => (List.range' block.first block.npages).all fun unit =>
        !decide (Meets system.desc (low, high) unit)
  | .free _ => true

/-- A unit that is allocated or reserved. -/
def Taken (system : System) (unit : Nat) : Prop :=
  0 < coverage system.live unit ∨ ∃ range ∈ system.reserved, Meets system.desc range unit

instance (system : System) (unit : Nat) : Decidable (Taken system unit) :=
  inferInstanceAs (Decidable (_ ∨ _))

/-- The map shows what is taken, and blocks share no unit with each other or a reservation. -/
structure Sound (start size shift : Nat) (system : System) : Prop where
  fields : system.desc = { ihkPageallocInit start size shift with map := system.desc.map }
  bits : ∀ unit < system.desc.count * 64,
    bit system.desc.map unit = true ↔ size / 2 ^ shift ≤ unit ∨ Taken system unit
  single : ∀ unit, coverage system.live unit ≤ 1
  apart : ∀ block ∈ system.live, ∀ unit, Covers block unit → unit < size / 2 ^ shift ∧
    ∀ range ∈ system.reserved, ¬ Meets system.desc range unit

namespace Sound

variable {system : System}

theorem units_le (sound : Sound start size shift system) :
    size / 2 ^ shift ≤ system.desc.count * 64 := by
  rw [sound.fields]
  simp only [ihkPageallocInit]
  omega

theorem free (sound : Sound start size shift system)
    (inside : unit < system.desc.count * 64) (clear : bit system.desc.map unit = false) :
    unit < size / 2 ^ shift ∧ coverage system.live unit = 0 ∧
      ∀ r ∈ system.reserved, ¬ Meets system.desc r unit := by
  have unused := mt (sound.bits unit inside).mpr (by rw [clear]; decide)
  simp only [Taken, not_or, not_exists, not_and] at unused
  exact ⟨by omega, by omega, unused.2.2⟩

theorem init : Sound start size shift ⟨ihkPageallocInit start size shift, [], []⟩ where
  fields := rfl
  bits unit inside := by simp [bit_init _ _ _ inside, Taken]
  single := by simp
  apart := by simp

section

variable (sound : Sound start size shift system)
include sound

theorem alloc (pos : 1 ≤ npages)
    (res : ihkPageallocAlloc system.desc npages p2align = some (address, desc)) :
    Sound start size shift { system with
      desc
      live := ⟨(address - system.desc.start) / 2 ^ system.desc.shift, npages⟩ :: system.live } := by
  obtain ⟨first, isAddress, inside, run, same, marked⟩ := alloc_spec pos res
  have isFirst : (address - system.desc.start) / 2 ^ system.desc.shift = first := by
    rw [isAddress, Nat.add_sub_cancel_left, Nat.mul_div_cancel _ (Nat.two_pow_pos _)]
  rw [isFirst]
  generalize desc.map = map at same marked
  subst same
  have unused : ∀ unit, Covers (⟨first, npages⟩ : Block) unit → _ := fun unit covers =>
    sound.free (Nat.lt_of_lt_of_le covers.2 inside) (run unit covers.1 covers.2)
  refine ⟨by rw [sound.fields], fun unit below => ?_, fun unit => ?_, ?_⟩
  · rw [marked, Bool.or_eq_true, sound.bits unit below, decide_eq_true_eq, or_assoc]
    refine or_congr_right ?_
    change _ ↔ 0 < coverage (_ :: system.live) unit ∨
      ∃ r ∈ system.reserved, Meets system.desc r unit
    rw [coverage_cons, Taken, or_right_comm]
    refine or_congr_left ?_
    change _ ∨ Covers (⟨first, npages⟩ : Block) unit ↔ _
    split <;> simp [*]
  · have old := sound.single unit
    rw [coverage_cons]
    split
    next covers => rw [(unused unit covers).2.1]
    · exact old
  · rintro b (_ | ⟨_, older⟩) unit covers
    · exact ⟨(unused unit covers).1, (unused unit covers).2.2⟩
    · exact sound.apart b older unit covers

theorem reserve (small : size / 2 ^ shift + 64 < 2 ^ 31) (fits : start + size + 2 ^ shift ≤ 2 ^ 64)
    (allowed : regular system (.reserve low high) = true) :
    Sound start size shift { system with
      desc := ihkPageallocReserve system.desc low high
      reserved := (low, high) :: system.reserved } := by
  simp only [regular, Bool.and_eq_true, decide_eq_true_eq, List.all_eq_true, Bool.not_eq_true',
    decide_eq_false_iff_not, List.mem_range'_1] at allowed
  obtain ⟨⟨above, nonempty, below⟩, clear⟩ := allowed
  have isStart : system.desc.start = start := by rw [sound.fields]; rfl
  have isStop : system.desc.stop = start + size := by rw [sound.fields]; rfl
  have isShift : system.desc.shift = shift := by rw [sound.fields]; rfl
  have within : (high - system.desc.start) / 2 ^ system.desc.shift ≤ size / 2 ^ shift := by
    rw [isShift]
    exact Nat.div_le_div_right (by omega)
  obtain ⟨map, same, marked⟩ := reserve_spec above nonempty (by rw [isShift]; omega) (by omega)
  rw [same]
  refine ⟨by rw [sound.fields], fun unit inside => ?_, sound.single, fun b isLive unit covers => ?_⟩
  · rw [marked, Bool.or_eq_true, sound.bits unit inside, decide_eq_true_eq, or_assoc]
    refine or_congr_right ?_
    change _ ↔ 0 < coverage system.live unit ∨
      ∃ r ∈ (low, high) :: system.reserved, Meets system.desc r unit
    simp only [List.mem_cons, exists_eq_or_imp, Taken]
    rw [or_assoc, or_comm (a := ∃ _, _)]
  · obtain ⟨belowUnits, older⟩ := sound.apart b isLive unit covers
    refine ⟨belowUnits, ?_⟩
    rintro r (_ | ⟨_, isOld⟩)
    · exact clear b isLive unit covers
    · exact older r isOld

variable {b : Block}

theorem used (isLive : b ∈ system.live)
    (covers : Covers b unit) : bit system.desc.map unit = true :=
  (sound.bits unit (Nat.lt_of_lt_of_le (sound.apart b isLive unit covers).1 sound.units_le)).mpr
    (.inr (.inl (one_le_coverage isLive covers)))

theorem free_spec (isLive : b ∈ system.live) :
    ∃ map, ihkPageallocFree system.desc (system.desc.unitAddress b.first) b.npages =
        some { system.desc with map } ∧
      ∀ unit, bit map unit = (bit system.desc.map unit && decide (¬ Covers b unit)) := by
  obtain ⟨map, freed, cleared⟩ := @freeUnits_spec system.desc.map b.npages b.first
    fun unit above below => sound.used isLive ⟨above, below⟩
  refine ⟨map, ?_, cleared⟩
  rw [ihkPageallocFree, Desc.unitAddress, Nat.add_sub_cancel_left,
    Nat.mul_div_cancel _ (Nat.two_pow_pos _), freed]
  rfl

theorem freeBlock (isLive : b ∈ system.live) (cleared : ∀ unit, bit map unit =
      (bit system.desc.map unit && decide (¬ Covers b unit))) :
    Sound start size shift
      { system with desc := { system.desc with map }, live := system.live.erase b } := by
  have parts : ∀ unit, coverage system.live unit =
      coverage (system.live.erase b) unit + if Covers b unit then 1 else 0 := fun unit => by
    rw [← coverage_cons]
    exact (List.perm_cons_erase isLive).countP_eq _
  refine ⟨by rw [sound.fields], fun unit inside => ?_, fun unit => ?_, fun o isOther => ?_⟩
  · have old := sound.bits unit inside
    have part := parts unit
    have atMost := sound.single unit
    have agree : ∀ r, Meets { system.desc with map } r unit = Meets system.desc r unit :=
      fun _ => rfl
    rw [cleared, Bool.and_eq_true, old, decide_eq_true_eq]
    simp only [Taken, agree]
    by_cases covers : Covers b unit
    · obtain ⟨below, unreserved⟩ := sound.apart b isLive unit covers
      rw [if_pos covers] at part
      simp only [covers, not_true, and_false, false_iff, not_or, not_exists, not_and]
      exact ⟨by omega, by omega, unreserved⟩
    · rw [if_neg covers, Nat.add_zero] at part
      simp only [covers, not_false_eq_true, and_true, part]
  · have part := parts unit
    exact Nat.le_trans (part ▸ Nat.le_add_right _ _) (sound.single unit)
  · exact sound.apart o (List.mem_of_mem_erase isOther)

theorem exec (small : size / 2 ^ shift + 64 < 2 ^ 31) (fits : start + size + 2 ^ shift ≤ 2 ^ 64)
    (allowed : regular system op = true) (ran : exec system op = some next) :
    Sound start size shift next := by
  cases op with
  | alloc npages p2align =>
    simp only [Bitmap.exec] at ran
    split at ran
    · cases ran; exact sound
    next address desc res => cases ran; exact sound.alloc (of_decide_eq_true allowed) res
  | reserve low high =>
    simp only [Bitmap.exec, Option.some.injEq] at ran
    subst ran
    exact sound.reserve small fits allowed
  | free b =>
    simp only [Bitmap.exec] at ran
    split at ran
    next isLive =>
      obtain ⟨map, freed, cleared⟩ := sound.free_spec isLive
      rw [freed] at ran
      cases ran
      exact sound.freeBlock isLive cleared
    · cases ran

end

end Sound

end McKernel.Bitmap
