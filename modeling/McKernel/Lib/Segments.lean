import Mathlib

/-!
# Positions in a list of segments

A loop over scattered buffers keeps an index and an offset: the segment it is in and how
far it is in it.  What lies before such a position is a prefix of the concatenation, and
moving on by some elements of the current segment appends them.
-/

namespace Segments

variable {α : Type} {segments : List (List α)} {i off : Nat}

def before (segments : List (List α)) (index offset : Nat) : List α :=
  (segments.take index).flatten ++ (segments.getD index []).take offset

/-- The index after a move by `count` elements of a segment of the given length. -/
def nextIndex (index offset count length : Nat) : Nat :=
  if offset + count = length then index + 1 else index

/-- The offset after a move by `count` elements of a segment of the given length. -/
def nextOffset (offset count length : Nat) : Nat :=
  if offset + count = length then 0 else offset + count

@[simp] theorem before_zero : before segments 0 0 = [] := by simp [before]

theorem before_prefix : before segments i off <+: segments.flatten := by
  have whole : segments.flatten = (segments.take i).flatten ++ (segments.drop i).flatten :=
    by rw [← List.flatten_append, List.take_append_drop]
  rw [before, whole, List.prefix_append_right_inj]
  cases rest : segments.drop i with
  | nil =>
    have outside : segments.length ≤ i := List.drop_eq_nil_iff.mp rest
    simp [List.getElem?_eq_none outside]
  | cons segment others =>
    have current : segments[i]? = some segment := by
      rw [← List.head?_drop, rest, List.head?_cons]
    rw [List.getD_eq_getElem?_getD, current]
    exact (List.take_prefix off segment).trans (List.prefix_append _ _)

theorem index_lt (short : (before segments i off).length < segments.flatten.length) :
    i < segments.length := by
  by_contra outside
  rw [before, List.take_of_length_le (by omega), List.length_append] at short
  omega

/-- Moving on appends what is passed. -/
theorem before_next {segment : List α} {count : Nat} (current : segments[i]? = some segment) :
    before segments (nextIndex i off count segment.length)
        (nextOffset off count segment.length) =
      before segments i off ++ (segment.drop off).take count := by
  have inside : (segments.getD i []) = segment := by
    rw [List.getD_eq_getElem?_getD, current, Option.getD_some]
  have passed : segment.take off ++ (segment.drop off).take count =
      segment.take (off + count) := List.take_add.symm
  unfold nextIndex nextOffset
  split
  next complete =>
    rw [before, before, List.take_zero, List.append_nil, inside, List.append_assoc, passed,
      complete, List.take_length, List.take_add_one, current, List.flatten_append]
    simp
  · rw [before, before, inside, List.append_assoc, passed]

theorem before_eq_take {count : Nat} (passed : (before segments i off).length = count) :
    before segments i off = segments.flatten.take count := by
  rw [← passed]
  exact List.prefix_iff_eq_take.mp before_prefix

end Segments
