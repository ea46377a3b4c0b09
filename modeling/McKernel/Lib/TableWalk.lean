import Mathlib

/-!
# Walking over a table

A walk visits some entries of a table one after the other.  A visit may change its entry
and a state; it has done something, has found nothing to do, or has failed, which ends the
walk.  What every visit keeps is kept by a walk that has not failed.
-/

namespace TableWalk

universe u v w x

/-- How a visit, or a walk, has ended. -/
inductive Verdict (ε : Type x) where
  | done
  | nothing
  | failed (error : ε)
  deriving DecidableEq, Repr

/-- Anything but a failure. -/
def Verdict.Passed {ε : Type x} : Verdict ε → Prop
  | .failed _ => False
  | _ => True

variable {ι : Type u} {α : Type v} {σ : Type w} {ε : Type x} [DecidableEq ι]

/-- Visit the entries in turn; the result is that nothing was done unless a visit has done
something. -/
def walk (visit : ι → σ → Verdict ε × α × σ) :
    List ι → Verdict ε → (ι → α) → σ → Verdict ε × (ι → α) × σ
  | [], verdict, table, state => (verdict, table, state)
  | index :: rest, verdict, table, state =>
    match visit index state with
    | (.done, entry, next) => walk visit rest .done (Function.update table index entry) next
    | (.nothing, entry, next) => walk visit rest verdict (Function.update table index entry) next
    | (.failed error, entry, next) => (.failed error, Function.update table index entry, next)

variable {visit : ι → σ → Verdict ε × α × σ} {motive : List ι → (ι → α) → σ → Prop}

theorem walk_rule_append {indices : List ι}
    (step : ∀ i ∈ indices, ∀ seen table s verdict entry next, motive seen table s →
      i ∉ seen → visit i s = (verdict, entry, next) → verdict.Passed →
      motive (seen ++ [i]) (Function.update table i entry) next)
    {seen : List ι} (nodup : (seen ++ indices).Nodup) {before verdict : Verdict ε}
    {table final : ι → α} {s last : σ} (start : motive seen table s)
    (walked : walk visit indices before table s = (verdict, final, last))
    (passed : verdict.Passed) : motive (seen ++ indices) final last := by
  induction indices generalizing seen before table s with
  | nil =>
    simp only [walk, Prod.mk.injEq] at walked
    obtain ⟨_, rfl, rfl⟩ := walked
    rwa [List.append_nil]
  | cons i rest ih =>
    have fresh : i ∉ seen := fun isSeen =>
      (List.nodup_append.mp nodup).2.2 i isSeen i List.mem_cons_self rfl
    rw [List.append_cons] at nodup ⊢
    have here := step i List.mem_cons_self seen table s
    have later := fun o isLater => step o (List.mem_cons_of_mem _ isLater)
    simp only [walk] at walked
    split at walked
    next entry next visited =>
      exact ih later nodup (here _ entry next start fresh visited trivial) walked
    next entry next visited =>
      exact ih later nodup (here _ entry next start fresh visited trivial) walked
    next error entry next visited =>
      simp only [Prod.mk.injEq] at walked
      rw [← walked.1] at passed
      exact passed.elim

/-- What holds of the table before the walk, and is kept by every visit of an entry that has
not been visited, holds after it. -/
theorem walk_rule {indices : List ι}
    (step : ∀ i ∈ indices, ∀ seen table s verdict entry next, motive seen table s →
      i ∉ seen → visit i s = (verdict, entry, next) → verdict.Passed →
      motive (seen ++ [i]) (Function.update table i entry) next)
    (nodup : indices.Nodup) {before verdict : Verdict ε}
    {table final : ι → α} {s last : σ} (start : motive [] table s)
    (walked : walk visit indices before table s = (verdict, final, last))
    (passed : verdict.Passed) : motive indices final last := by
  have whole : ([] ++ indices).Nodup := nodup
  exact walk_rule_append step whole start walked passed

end TableWalk
