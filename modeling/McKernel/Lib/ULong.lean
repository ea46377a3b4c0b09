import McKernel.Lib.CInt

/-!
# Arithmetic of `unsigned long`

Addresses and lengths are natural numbers below `2 ^ 64`.  Sums and differences wrap
around, and an address is rounded to a multiple of a power of two by masking its low
bits.  Wrapping and rounding keep divisibility by smaller powers of two, which is what
page alignment is about.
-/

namespace ULong

open Nat

/-- `x + y`. -/
def add (x y : Nat) : Nat := (x + y) % 2 ^ 64

/-- `x - y`, for a `y` that fits. -/
def sub (x y : Nat) : Nat := (x + (2 ^ 64 - y)) % 2 ^ 64

/-- `x & ~((1UL << bits) - 1)`. -/
def roundDown (bits x : Nat) : Nat := x &&& (2 ^ 64 - 1 - (2 ^ bits - 1))

/-- `(x + (1UL << bits) - 1) & ~((1UL << bits) - 1)`. -/
def roundUp (bits x : Nat) : Nat := roundDown bits (add x (2 ^ bits - 1))

theorem add_lt (x y : Nat) : add x y < 2 ^ 64 :=
  Nat.mod_lt _ (Nat.two_pow_pos 64)

variable {x y : Nat}

theorem add_of_lt (fits : x + y < 2 ^ 64) : add x y = x + y :=
  mod_eq_of_lt fits

/-- A sum that is not below its first term has not wrapped around. -/
theorem add_of_le (left : x < 2 ^ 64) (right : y < 2 ^ 64) (ordered : x ≤ add x y) :
    add x y = x + y := by
  unfold add at ordered ⊢
  omega

theorem sub_of_le (ordered : y ≤ x) (fits : x < 2 ^ 64) : sub x y = x - y := by
  unfold sub
  omega

theorem add_sub_of_le {z : Nat} (ordered : y ≤ x) (fits : x < 2 ^ 64)
    (small : z + (x - y) < 2 ^ 64) :
    add z (sub x y) = z + (x - y) := by
  rw [sub_of_le ordered fits, add_of_lt small]

/-- An offset taken in two steps. -/
theorem add_add_sub {base low middle high : Nat} (first : low ≤ middle)
    (second : middle ≤ high) (fits : middle < 2 ^ 64) :
    add (add base (sub middle low)) (high - middle) = add base (high - low) := by
  rw [sub_of_le first fits]
  unfold add
  omega

variable {bits : Nat}

theorem roundDown_eq (fits : x < 2 ^ 64) (small : bits ≤ 64) :
    roundDown bits x = x / 2 ^ bits * 2 ^ bits :=
  CInt.and_highMask fits small

theorem roundUp_eq (small : bits ≤ 64) :
    roundUp bits x = add x (2 ^ bits - 1) / 2 ^ bits * 2 ^ bits :=
  roundDown_eq (add_lt _ _) small

theorem roundUp_lt (small : bits ≤ 64) : roundUp bits x < 2 ^ 64 := by
  rw [roundUp_eq small]
  exact lt_of_le_of_lt (div_mul_le_self _ _) (add_lt _ _)

/-- Rounding up without wrapping reaches at least the value and stays below the next
multiple. -/
theorem le_roundUp (small : bits ≤ 64) (fits : x + (2 ^ bits - 1) < 2 ^ 64) :
    x ≤ roundUp bits x ∧ roundUp bits x ≤ x + (2 ^ bits - 1) := by
  have pos : 0 < 2 ^ bits := Nat.two_pow_pos bits
  rw [roundUp_eq small, add_of_lt fits]
  have remainder := mod_lt (x + (2 ^ bits - 1)) pos
  have split := div_add_mod' (x + (2 ^ bits - 1)) (2 ^ bits)
  omega

/-! ## Divisibility -/

variable {d k : Nat}

theorem dvd_add (power : d ∣ 2 ^ 64) (left : d ∣ x) (right : d ∣ y) : d ∣ add x y :=
  (Nat.dvd_mod_iff power).mpr (Nat.dvd_add left right)

theorem dvd_sub (power : d ∣ 2 ^ 64) (left : d ∣ x) (right : d ∣ y) : d ∣ sub x y :=
  (Nat.dvd_mod_iff power).mpr (Nat.dvd_add left (Nat.dvd_sub power right))

theorem dvd_roundDown (fits : x < 2 ^ 64) (small : bits ≤ 64) (coarser : k ≤ bits) :
    2 ^ k ∣ roundDown bits x := by
  rw [roundDown_eq fits small]
  exact Nat.dvd_mul_left_of_dvd (Nat.pow_dvd_pow 2 coarser) _

theorem dvd_roundUp (small : bits ≤ 64) (coarser : k ≤ bits) : 2 ^ k ∣ roundUp bits x :=
  dvd_roundDown (add_lt _ _) small coarser

/-- Rounding a multiple of `2 ^ bits` leaves it alone, up to wrapping. -/
theorem roundUp_of_dvd (small : bits ≤ 64) (multiple : 2 ^ bits ∣ x) :
    roundUp bits x = x % 2 ^ 64 := by
  obtain ⟨y, rfl⟩ := multiple
  have pos : 0 < 2 ^ bits := Nat.two_pow_pos bits
  have whole : 2 ^ 64 = 2 ^ bits * 2 ^ (64 - bits) := by
    rw [← Nat.pow_add, Nat.add_sub_cancel' small]
  have quotient : (2 ^ bits * y + (2 ^ bits - 1)) / 2 ^ bits = y := by
    rw [mul_add_div pos, div_eq_of_lt (sub_lt pos one_pos)]
    rfl
  rw [roundUp_eq small, add, whole, mod_mul, add_mul_div_left _ _ pos, quotient,
    div_eq_of_lt (mod_lt _ pos), zero_add, mul_mod_mul_left, mul_comm]

theorem roundUp_of_large (large : 64 < bits) : roundUp bits x = 0 := by
  have mask : 2 ^ 64 - 1 - (2 ^ bits - 1) = 0 := by
    have := Nat.pow_le_pow_right (show 0 < 2 by decide) (Nat.le_of_lt large)
    omega
  rw [roundUp, roundDown, mask, and_zero]

theorem dvd_roundUp_of_dvd (page : k ≤ 64) (multiple : 2 ^ k ∣ x) :
    2 ^ k ∣ roundUp bits x := by
  rcases lt_or_ge 64 bits with large | small
  · rw [roundUp_of_large large]
    exact dvd_zero _
  rcases le_total k bits with coarser | finer
  · exact dvd_roundUp small coarser
  · rw [roundUp_of_dvd small (dvd_trans (pow_dvd_pow 2 finer) multiple)]
    exact (dvd_mod_iff (pow_dvd_pow 2 page)).mpr multiple

end ULong
