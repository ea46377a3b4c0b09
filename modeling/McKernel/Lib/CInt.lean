import Mathlib

/-!
# Integer types of C on a 64-bit machine

Values of `int` are integers and values of `unsigned long` are natural numbers.
A computation that may leave the range of its type is wrapped explicitly.
-/

namespace CInt

/-- Conversion to `int`: reduce to 32 bits, two's complement. -/
def toInt (value : Int) : Int := Int.bmod value (2 ^ 32)

/-- Conversion to `unsigned long`: reduce to 64 bits. -/
def toULong (value : Int) : Nat := (value % 2 ^ 64).toNat

theorem toInt_of_range (lower : -2 ^ 31 ≤ v) (upper : v < 2 ^ 31) :
    toInt v = v := by
  unfold toInt
  rw [Int.bmod_eq_of_le] <;> omega

theorem toULong_of_range (lower : 0 ≤ v) (upper : v < 2 ^ 64) :
    (toULong v : Int) = v := by
  unfold toULong
  rw [Int.emod_eq_of_lt lower upper]
  omega

theorem toInt_le_self (nonneg : 0 ≤ v) : toInt v ≤ v := by
  have reduced : v % (2 ^ 32 : Nat) ≤ v := by omega
  unfold toInt
  rw [Int.bmod_def]
  split <;> omega

theorem toInt_add_toInt (left right : Int) :
    toInt (toInt left + right) = toInt (left + right) := by
  simp [toInt]

theorem toInt_sub_toInt (left right : Int) :
    toInt (toInt left - toInt right) = toInt (left - right) := by
  simp [toInt]

/-- Masking off the low bits of an `unsigned long` rounds it down. -/
theorem and_highMask (fits : v < 2 ^ 64) (small : bits ≤ 64) :
    v &&& (2 ^ 64 - 1 - (2 ^ bits - 1)) = v / 2 ^ bits * 2 ^ bits := by
  have pos : 0 < 2 ^ bits := Nat.two_pow_pos bits
  have bounded : 2 ^ bits ≤ 2 ^ 64 := Nat.pow_le_pow_right (by decide) small
  have mask : 2 ^ 64 - 1 - (2 ^ bits - 1) = 2 ^ 64 - (2 ^ bits - 1 + 1) := by omega
  refine Nat.eq_of_testBit_eq fun i => ?_
  rw [Nat.testBit_and, mask, Nat.testBit_two_pow_sub_succ (by omega),
    Nat.testBit_two_pow_sub_one, Nat.testBit_mul_two_pow, Nat.testBit_div_two_pow]
  by_cases low : i < bits
  · have notHigh : ¬ bits ≤ i := by omega
    simp [low, notHigh]
  · have high : bits ≤ i := by omega
    rw [Nat.sub_add_cancel high]
    by_cases inside : i < 64
    · simp [low, high, inside]
    · have clear : v.testBit i = false :=
        Nat.testBit_lt_two_pow
          (Nat.lt_of_lt_of_le fits (Nat.pow_le_pow_right (by decide) (by omega)))
      simp [clear]

end CInt
