import Mathlib

/-!
# State machines and their runs

A machine is a set of initial states with a labelled step relation.  A property that
holds initially and is kept by every step holds in every reachable state; a machine
whose steps are restricted reaches no more than the machine itself.  A finite run of
an executable step function shows that a state is reachable.
-/

universe u v

/-- A labelled transition system. -/
structure Machine (σ : Type u) (α : Type v) where
  init : σ → Prop
  step : σ → α → σ → Prop

namespace Machine

variable {σ : Type u} {α : Type v}

/-- States at the end of some run. -/
inductive Reachable (machine : Machine σ α) : σ → Prop where
  | init {state : σ} (start : machine.init state) : Reachable machine state
  | step {state next : σ} {action : α} (reached : Reachable machine state)
      (taken : machine.step state action next) : Reachable machine next

/-- The same machine, taking only steps that meet a condition on the state before the
step and the action. -/
def restrict (machine : Machine σ α) (condition : σ → α → Prop) : Machine σ α where
  init := machine.init
  step state action next := condition state action ∧ machine.step state action next

theorem Reachable.invariant {machine : Machine σ α} (property : σ → Prop)
    (initially : ∀ s, machine.init s → property s)
    (preserved : ∀ s action next, machine.Reachable s → property s →
      machine.step s action next → property next)
    {s : σ} (reached : machine.Reachable s) : property s := by
  induction reached with
  | init start => exact initially _ start
  | step reached taken ih => exact preserved _ _ _ reached ih taken

variable {exec : σ → α → Option σ} {machine : Machine σ α} {start s : σ}

theorem Reachable.of_restrict {condition : σ → α → Prop}
    (reached : (machine.restrict condition).Reachable s) :
    machine.Reachable s := by
  induction reached with
  | init start => exact .init start
  | step _ taken ih => exact .step ih taken.2

/-- A run of an executable step function, whose steps a guard lets through. -/
def run (guard : σ → α → Bool) (exec : σ → α → Option σ) : σ → List α → Option σ
  | state, [] => some state
  | state, action :: rest =>
    if guard state action then
      (exec state action).bind fun next => run guard exec next rest
    else none

theorem reachable_of_run {guard : σ → α → Bool}
    (sound : ∀ s action next, guard s action = true →
      exec s action = some next → machine.step s action next)
    {final : σ} {actions : List α} (reached : machine.Reachable s)
    (res : run guard exec s actions = some final) : machine.Reachable final := by
  induction actions generalizing s with
  | nil =>
    cases res
    exact reached
  | cons action rest ih =>
    simp only [run] at res
    split at res
    next passed =>
      obtain ⟨next, ran, remaining⟩ := Option.bind_eq_some_iff.mp res
      exact ih (reached.step (sound _ _ _ passed ran)) remaining
    · cases res

theorem exists_restrict_run {condition : σ → α → Prop} {guard : σ → α → Bool}
    (allowed : ∀ s action, guard s action = true → condition s action)
    (init : machine.init start)
    (sound : ∀ s action next, exec s action = some next → machine.step s action next)
    (actions : List α) {holds : σ → Prop} [DecidablePred holds]
    (res : (run guard exec start actions).any (fun s => decide (holds s)) = true) :
    ∃ s, (machine.restrict condition).Reachable s ∧ holds s := by
  obtain ⟨s, isState, accepted⟩ := (Option.any_eq_true _ _).mp res
  have started : (machine.restrict condition).Reachable start := .init init
  refine ⟨s, reachable_of_run ?_ started isState, of_decide_eq_true accepted⟩
  exact fun _ _ _ passed ran => ⟨allowed _ _ passed, sound _ _ _ ran⟩

theorem exists_run (init : machine.init start)
    (sound : ∀ s action next, exec s action = some next → machine.step s action next)
    (actions : List α) {holds : σ → Prop} [DecidablePred holds]
    (res : (run (fun _ _ => true) exec start actions).any (fun s => decide (holds s)) =
      true) : ∃ s, machine.Reachable s ∧ holds s := by
  obtain ⟨s, reached, accepted⟩ :=
    exists_restrict_run (fun _ _ _ => trivial) init sound actions res
  exact ⟨s, reached.of_restrict, accepted⟩

theorem exists_run_some {β : Type*} (init : machine.init start)
    (sound : ∀ s action next, exec s action = some next → machine.step s action next)
    (actions : List α) {part : σ → Option β} {holds : σ → β → Prop}
    [∀ s v, Decidable (holds s v)]
    (res : (run (fun _ _ => true) exec start actions).any (fun s =>
      (part s).any fun v => decide (holds s v)) = true) :
    ∃ s v, machine.Reachable s ∧ part s = some v ∧ holds s v := by
  obtain ⟨s, isState, accepted⟩ := (Option.any_eq_true _ _).mp res
  obtain ⟨v, isValue, accepted⟩ := (Option.any_eq_true _ _).mp accepted
  have reached := reachable_of_run (fun _ _ _ _ => sound _ _ _) (.init init) isState
  exact ⟨s, v, reached, isValue, of_decide_eq_true accepted⟩

end Machine
