import Mathlib

/-!
# Resources that are taken and given back

A function with many exits that has to release on each of them what it has acquired so far.
The ledger logs both; what is still owed is a list, so that a resource may be owed twice.
-/

/-- What has been taken and what has been given back, the latest first. -/
structure Ledger (α : Type*) where
  taken : List α := []
  returned : List α := []
  deriving DecidableEq, Repr

namespace Ledger

variable {α : Type*}

def take (ledger : Ledger α) (resource : α) : Ledger α :=
  { ledger with taken := resource :: ledger.taken }

def giveBack (ledger : Ledger α) (resource : α) : Ledger α :=
  { ledger with returned := resource :: ledger.returned }

def Owes (ledger : Ledger α) (owed : List α) : Prop :=
  ledger.taken.Perm (owed ++ ledger.returned)

/-- Nothing is owed, nothing was taken twice. -/
structure Settled (ledger : Ledger α) : Prop where
  once : ledger.taken.Nodup
  returned : ledger.returned.Perm ledger.taken

variable {ledger : Ledger α} {owed : List α} {resource : α}

theorem owes_empty : ({} : Ledger α).Owes [] := List.Perm.nil

theorem Owes.take (owes : ledger.Owes owed) : (ledger.take resource).Owes (resource :: owed) :=
  List.Perm.cons resource owes

theorem Owes.giveBack (owes : ledger.Owes (resource :: owed)) :
    (ledger.giveBack resource).Owes owed :=
  owes.trans List.perm_middle.symm

theorem Owes.perm {o : List α} (owes : ledger.Owes owed) (same : owed.Perm o) :
    ledger.Owes o :=
  owes.trans (same.append_right _)

theorem Owes.giveBackAll (resources : List α) (owes : ledger.Owes (resources ++ owed)) :
    (resources.foldl Ledger.giveBack ledger).Owes owed := by
  induction resources generalizing ledger with
  | nil => exact owes
  | cons resource rest ih => exact ih owes.giveBack

theorem Owes.settled (owes : ledger.Owes []) (once : ledger.taken.Nodup) : ledger.Settled :=
  ⟨once, owes.symm⟩

end Ledger
