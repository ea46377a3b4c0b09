import Mathlib

/-!
# Intervals of addresses

Values that occupy a half-open interval of addresses, and lists of such values.
A list is compared with another one point by point: `coverage` counts how many
entries occupy an address.  Equal coverage says that two collections tile the same
memory, coverage at most one says that the entries are disjoint.
-/

universe u v

/-- A type whose values occupy the addresses from `lo` up to, but without, `hi`. -/
class Extent (α : Type u) where
  lo : α → Nat
  hi : α → Nat

namespace Extent

variable {α : Type u} {β : Type v} [Extent α] [Extent β]

def Covers (value : α) (point : Nat) : Prop :=
  lo value ≤ point ∧ point < hi value

instance (value : α) (point : Nat) : Decidable (Covers value point) :=
  inferInstanceAs (Decidable (_ ∧ _))

/-- Number of entries that occupy an address. -/
def coverage (values : List α) (point : Nat) : Nat :=
  values.countP fun value => decide (Covers value point)

/-- Two values share no address. -/
def Apart (left : α) (right : β) : Prop :=
  hi left ≤ lo right ∨ hi right ≤ lo left

/-- Entries stand in address order with a gap between any two of them. -/
def Separated (values : List α) : Prop :=
  values.Pairwise fun left right => hi left < lo right

instance (left : α) (right : β) : Decidable (Apart left right) :=
  inferInstanceAs (Decidable (_ ∨ _))

instance (values : List α) : Decidable (Separated values) :=
  inferInstanceAs (Decidable (List.Pairwise _ _))

def Ordered (values : List α) : Prop :=
  values.Pairwise fun left right => hi left ≤ lo right

def total (values : List α) : Nat :=
  (values.map fun value => hi value - lo value).sum

@[simp] theorem coverage_nil (p : Nat) : coverage ([] : List α) p = 0 := rfl

@[simp] theorem coverage_cons (v : α) (values : List α) (p : Nat) :
    coverage (v :: values) p =
      coverage values p + if Covers v p then 1 else 0 := by
  simp [coverage, List.countP_cons]

@[simp] theorem coverage_append (front back : List α) (p : Nat) :
    coverage (front ++ back) p = coverage front p + coverage back p := by
  simp [coverage]

@[simp] theorem total_nil : total ([] : List α) = 0 := rfl

@[simp] theorem total_cons (v : α) (values : List α) :
    total (v :: values) = hi v - lo v + total values := by
  simp [total]

@[simp] theorem total_append (front back : List α) :
    total (front ++ back) = total front + total back := by
  simp [total]

variable {p : Nat} {v : α} {values : List α}

theorem coverage_pos :
    0 < coverage values p ↔ ∃ v ∈ values, Covers v p := by
  simp [coverage, List.countP_pos_iff]

theorem coverage_eq_zero :
    coverage values p = 0 ↔ ∀ v ∈ values, ¬ Covers v p := by
  simp [coverage, List.countP_eq_zero]

theorem one_le_coverage (mem : v ∈ values) (covers : Covers v p) :
    1 ≤ coverage values p :=
  coverage_pos.mpr ⟨v, mem, covers⟩

theorem Ordered.coverage_le_one (ordered : Ordered values) (p : Nat) :
    coverage values p ≤ 1 := by
  induction values with
  | nil => simp
  | cons v values ih =>
    obtain ⟨behind, ordered⟩ := List.pairwise_cons.mp ordered
    rw [coverage_cons]
    by_cases covers : Covers v p
    · have uncovered : coverage values p = 0 := by
        rw [coverage_eq_zero]
        intro o mem otherCovers
        have apart := behind o mem
        simp only [Covers] at covers otherCovers
        omega
      simp [uncovered, covers]
    · simpa [covers] using ih ordered

theorem Separated.not_covers_hi (gaps : Separated values)
    (proper : ∀ v ∈ values, lo v ≤ hi v) {o : α}
    (mem : v ∈ values) (otherMembership : o ∈ values) :
    ¬ Covers o (hi v) := by
  have clear : ∀ x ∈ values, ¬ Covers x (hi x) := fun x _ => by simp [Covers]
  have ahead : values.Pairwise fun x y => ¬ Covers y (hi x) := gaps.imp fun gap => by
    simp only [Covers]
    omega
  have behind : values.Pairwise (flip fun x y => ¬ Covers y (hi x)) :=
    gaps.imp_of_mem fun {x y} _ inY gap => by
      have := proper y inY
      simp only [flip, Covers]
      omega
  exact ahead.forall_of_forall_of_flip clear behind mem otherMembership

/-- Occupied addresses without a break belong to one entry when there are gaps. -/
theorem Separated.exists_container (gaps : Separated values)
    (proper : ∀ v ∈ values, lo v ≤ hi v) {start stop : Nat} (nonempty : start < stop)
    (covered : ∀ p, start ≤ p → p < stop → ∃ v ∈ values, Covers v p) :
    ∃ v ∈ values, lo v ≤ start ∧ stop ≤ hi v := by
  obtain ⟨v, mem, above, below⟩ := covered start (Nat.le_refl _) nonempty
  refine ⟨v, mem, above, Nat.le_of_not_lt fun ends => ?_⟩
  obtain ⟨o, otherMembership, covers⟩ := covered (hi v) (Nat.le_of_lt below) ends
  exact gaps.not_covers_hi proper mem otherMembership covers

theorem apart_of_no_common {left : α} {right : β} (leftNonempty : lo left < hi left)
    (rightNonempty : lo right < hi right)
    (noCommon : ∀ p, Covers left p → ¬ Covers right p) : Apart left right := by
  by_contra overlap
  simp only [Apart, not_or] at overlap
  refine noCommon (max (lo left) (lo right)) ?_ ?_ <;> simp only [Covers] <;> omega

theorem apart_of_coverage {others : List β} {o : β}
    (atMostOne : ∀ p, coverage values p + coverage others p ≤ 1)
    (mem : v ∈ values) (otherMembership : o ∈ others)
    (nonempty : lo v < hi v) (otherNonempty : lo o < hi o) :
    Apart v o := by
  refine apart_of_no_common nonempty otherNonempty fun p covers otherCovers => ?_
  have first := one_le_coverage mem covers
  have second := one_le_coverage otherMembership otherCovers
  have bound := atMostOne p
  omega

end Extent
