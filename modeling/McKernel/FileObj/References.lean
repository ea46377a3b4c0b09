import McKernel.FileObj.Model

/-!
# The references on pagers

What a pager counts is what the objects with its handle have counted, together with the
references that calls in progress carry from one side to the other.  Every step moves
references between these three places.  A failure after a pager has been referenced leaves
a reference that nobody carries.
-/

namespace McKernel.FileObj

open FirstMatch Nat Option State

/-! ## Where references are -/

def Phase.carries (handle : Nat) : Phase → Nat
  | .requested _ | .allocating _ => 0
  | .referenced own | .replied own | .missed own | .allocated own =>
    if own = handle then 1 else 0
  | .releasing own sref => if own = handle then sref else 0

namespace State

def counted (state : State) (handle : Nat) : Nat :=
  total (fun pager => if pager.handle = handle then pager.ref else 0) state.pagers

def srefs (state : State) (handle : Nat) : Nat :=
  total (fun object => if object.handle = handle then object.sref else 0) state.objects

def carried (state : State) (handle : Nat) : Nat :=
  total (fun call => call.phase.carries handle) state.calls

end State

/-- The accounts of both sides agree. -/
structure Balanced (state : State) : Prop where
  handles : (state.pagers.map Pager.handle).Nodup
  counted : ∀ handle, state.counted handle = state.srefs handle + state.carried handle
  bounded : ∀ handle, state.counted handle < 2 ^ 64
  used : ∀ pager ∈ state.pagers, 0 < pager.ref
  sound : ∀ object ∈ state.objects, 0 < object.sref ∧ object.dangling = false

section Accounts

variable {s : State} {tid handle inode : Nat} {phase next : Phase} {pager : Pager}
  {object : Object}

section

variable (found : s.call tid = some phase)
include found

theorem find?_call :
    ∃ call, (s.calls.find? fun call => call.tid == tid) = some call ∧ call.phase = phase :=
  map_eq_some_iff.mp found

theorem carried_goOn (next : Phase) (handle : Nat) :
    (s.goOn tid next).carried handle + phase.carries handle =
      s.carried handle + next.carries handle := by
  obtain ⟨call, isCall, rfl⟩ := find?_call found
  exact total_update isCall

theorem carried_finish (handle : Nat) :
    s.carried handle = phase.carries handle + (s.finish tid).carried handle := by
  obtain ⟨call, isCall, rfl⟩ := find?_call found
  exact total_eraseP isCall

end

theorem find?_handle (isPager : pager ∈ s.pagers) :
    ∃ o, (s.pagers.find? fun o => o.handle == pager.handle) = some o ∧
      o.handle = pager.handle := by
  cases found : s.pagers.find? fun o => o.handle == pager.handle with
  | none =>
    have absent := List.find?_eq_none.mp found pager isPager
    simp at absent
  | some o => exact ⟨o, rfl, by simpa using List.find?_some found⟩

theorem counted_eq (handles : (s.pagers.map Pager.handle).Nodup)
    (isPager : pager ∈ s.pagers) : s.counted pager.handle = pager.ref := by
  unfold counted
  generalize s.pagers = pagers at handles isPager
  induction pagers with
  | nil => cases isPager
  | cons head rest ih =>
    rw [List.map_cons, List.nodup_cons] at handles
    obtain ⟨fresh, handles⟩ := handles
    rw [total_cons]
    rcases List.mem_cons.mp isPager with rfl | isPager
    · have none : total (fun o => if o.handle = pager.handle then o.ref else 0)
          rest = 0 := by
        refine total_eq_zero fun o isOther => ?_
        have ne : o.handle ≠ pager.handle := fun same =>
          fresh (List.mem_map.mpr ⟨o, isOther, same⟩)
        exact if_neg ne
      simp [none]
    · have ne : head.handle ≠ pager.handle := fun same =>
        fresh (List.mem_map.mpr ⟨pager, isPager, same.symm⟩)
      rw [if_neg ne, ih handles isPager, zero_add]

theorem pager_of_counted (pos : 0 < s.counted handle) :
    ∃ pager ∈ s.pagers, pager.handle = handle := by
  by_contra missing
  refine lt_irrefl 0 (pos.trans_eq (total_eq_zero fun pager isPager => ?_))
  exact if_neg fun same => missing ⟨pager, isPager, same⟩

theorem object_of_srefs (pos : 0 < s.srefs handle) :
    ∃ object ∈ s.objects, object.handle = handle := by
  by_contra missing
  refine lt_irrefl 0 (pos.trans_eq (total_eq_zero fun object isObject => ?_))
  exact if_neg fun same => missing ⟨object, isObject, same⟩

theorem sref_le_srefs (isObject : object ∈ s.objects) :
    object.sref ≤ s.srefs object.handle := by
  let weight (o : Object) : Nat := if o.handle = object.handle then o.sref else 0
  have own : weight object = object.sref := if_pos rfl
  have bound : weight object ≤ total weight s.objects := weight_le_total isObject
  rwa [own] at bound

/-! ## Single changes -/

theorem wrap_eq (small : v < 2 ^ 64) : wrap v = v := mod_eq_of_lt small

theorem counted_reference (handles : (s.pagers.map Pager.handle).Nodup)
    (isPager : pager ∈ s.pagers) (small : pager.ref + 1 < 2 ^ 64) (o : Nat) :
    (s.reference pager.handle).counted o =
      s.counted o + if pager.handle = o then 1 else 0 := by
  obtain ⟨found, isFound, same⟩ := find?_handle isPager
  have listed := List.mem_of_find?_eq_some isFound
  have refs : found.ref = pager.ref := by
    rw [← counted_eq handles isPager, ← counted_eq handles listed, same]
  have changed : (s.reference pager.handle).counted o +
      (if found.handle = o then found.ref else 0) =
      s.counted o + if found.handle = o then wrap (found.ref + 1) else 0 :=
    total_update isFound
  rw [refs, same, wrap_eq small] at changed
  split at changed
  · rw [if_pos ‹_›]; omega
  · rw [if_neg ‹_›]; omega

section

variable (balanced : Balanced s)
include balanced

theorem Balanced.of_carried {after : State}
    (pagers : after.pagers = s.pagers) (objects : after.objects = s.objects)
    (carried : ∀ handle, after.carried handle = s.carried handle) : Balanced after where
  handles := pagers ▸ balanced.handles
  counted handle := by
    rw [carried, State.counted, State.srefs, pagers, objects]
    exact balanced.counted handle
  bounded handle := by
    rw [State.counted, pagers]
    exact balanced.bounded handle
  used := pagers ▸ balanced.used
  sound := objects ▸ balanced.sound

section

variable (found : s.call tid = some phase)
include found

theorem Balanced.goOn (same : ∀ handle, next.carries handle = phase.carries handle) :
    Balanced (s.goOn tid next) := by
  refine balanced.of_carried rfl rfl fun handle => ?_
  have moved := carried_goOn found next handle
  rw [same] at moved
  omega

theorem Balanced.finish
    (nothing : ∀ handle, phase.carries handle = 0) : Balanced (s.finish tid) := by
  refine balanced.of_carried rfl rfl fun handle => ?_
  have moved := carried_finish found handle
  rw [nothing] at moved
  omega

theorem Balanced.reference
    (nothing : ∀ handle, phase.carries handle = 0) (isPager : pager ∈ s.pagers)
    (small : pager.ref + 1 < 2 ^ 64) :
    Balanced ((s.reference pager.handle).goOn tid (.referenced pager.handle)) := by
  have counted := counted_reference balanced.handles isPager small
  have sameCall : (s.reference pager.handle).call tid = some phase := found
  refine ⟨nodup_update (fun _ => by rfl) balanced.handles, fun handle => ?_, fun handle => ?_, ?_,
    balanced.sound⟩
  · have moved : ((s.reference pager.handle).goOn tid (.referenced pager.handle)).carried
        handle = s.carried handle + if pager.handle = handle then 1 else 0 := by
      have moved := carried_goOn sameCall (.referenced pager.handle) handle
      rw [nothing] at moved
      exact moved
    rw [moved]
    have before := balanced.counted handle
    have after := counted handle
    simp only [State.counted, State.srefs, State.goOn, State.reference] at before after ⊢
    omega
  · have bound := balanced.bounded handle
    have after := counted handle
    have whole := counted_eq balanced.handles isPager
    have same : ((s.reference pager.handle).goOn tid (.referenced pager.handle)).counted
      handle = (s.reference pager.handle).counted handle := rfl
    rw [same, after]
    split
    next isHandle =>
      rw [← isHandle, whole]
      exact small
    · omega
  · intro o isOther
    rcases mem_update isOther with isOther | ⟨old, found, rfl⟩
    · exact balanced.used o isOther
    · have listed := List.mem_of_find?_eq_some found
      have same : old.handle = pager.handle := by simpa using List.find?_some found
      have refs : old.ref = pager.ref := by
        rw [← counted_eq balanced.handles isPager, ← counted_eq balanced.handles listed, same]
      simp only [refs, wrap_eq small]
      omega

theorem Balanced.addPager (nothing : ∀ handle, phase.carries handle = 0)
    (fresh : (s.pagers.all fun pager => pager.handle != handle) = true) :
    Balanced (({ s with pagers := ⟨handle, inode, 1⟩ :: s.pagers }).goOn tid
      (.referenced handle)) := by
  have fresh : ∀ pager ∈ s.pagers, pager.handle ≠ handle := by simpa using fresh
  have unused : s.counted handle = 0 := by
    by_contra pos
    obtain ⟨pager, isPager, same⟩ := pager_of_counted (pos_of_ne_zero pos)
    exact fresh pager isPager same
  have moved := fun o => carried_goOn found (.referenced handle) o
  have counted : ∀ o, (State.goOn { s with pagers := ⟨handle, inode, 1⟩ :: s.pagers }
      tid (.referenced handle)).counted o =
      (if handle = o then 1 else 0) + s.counted o := fun o => total_cons _
  refine ⟨?_, fun o => ?_, fun o => ?_, ?_, balanced.sound⟩
  · refine List.nodup_cons.mpr ⟨fun isHandle => ?_, balanced.handles⟩
    obtain ⟨pager, isPager, same⟩ := List.mem_map.mp isHandle
    exact fresh pager isPager same
  · have before := balanced.counted o
    have carried := moved o
    rw [nothing] at carried
    rw [counted]
    simp only [State.srefs, State.carried, State.goOn, Phase.carries] at before carried ⊢
    omega
  · have bound := balanced.bounded o
    rw [counted]
    split
    next same =>
      rw [← same, unused]
      decide
    · omega
  · intro pager isPager
    rcases List.mem_cons.mp isPager with rfl | isPager
    · exact one_pos
    · exact balanced.used pager isPager

theorem Balanced.share (one : ∀ o, phase.carries o = if handle = o then 1 else 0)
    (isObject : s.objListLookup handle = some object) :
    Balanced ((s.share handle).finish tid) := by
  have place : object.handle = handle := by
    have passed := List.find?_some isObject
    simp only [Bool.and_eq_true, beq_iff_eq] at passed
    exact passed.1
  have moved := fun o => carried_finish found o
  have small : object.sref + 1 < 2 ^ 64 := by
    have bound := balanced.bounded handle
    have count := balanced.counted handle
    have carried := moved handle
    have le := sref_le_srefs (List.mem_of_find?_eq_some isObject)
    rw [one, if_pos rfl] at carried
    rw [place] at le
    omega
  have srefs : ∀ o, ((s.share handle).finish tid).srefs o =
      s.srefs o + if handle = o then 1 else 0 := by
    intro o
    have changed : (s.share handle).srefs o +
        (if object.handle = o then object.sref else 0) =
        s.srefs o + if object.handle = o then wrap (object.sref + 1) else 0 :=
      total_update isObject
    have same : ((s.share handle).finish tid).srefs o = (s.share handle).srefs o :=
      rfl
    rw [place, wrap_eq small] at changed
    split at changed
    · rw [if_pos ‹_›]; omega
    · rw [if_neg ‹_›]; omega
  refine ⟨balanced.handles, fun o => ?_, balanced.bounded, balanced.used, ?_⟩
  · have before := balanced.counted o
    have carried := moved o
    rw [one] at carried
    rw [srefs]
    simp only [State.counted, State.carried, State.finish, State.share] at before carried ⊢
    omega
  · intro o isOther
    rcases mem_update isOther with isOther | ⟨old, found, rfl⟩
    · exact balanced.sound o isOther
    · have same : old = object := some.inj (found.symm.trans isObject)
      refine ⟨?_, (balanced.sound old (List.mem_of_find?_eq_some found)).2⟩
      simp only [same, wrap_eq small]
      omega

theorem Balanced.insert
    (one : ∀ o, phase.carries o = if handle = o then 1 else 0) (id : Nat) :
    Balanced (({ s with objects := ⟨id, handle, 1, 1, false⟩ :: s.objects }).finish tid) := by
  refine ⟨balanced.handles, fun o => ?_, balanced.bounded, balanced.used, ?_⟩
  · have before := balanced.counted o
    have carried := carried_finish found o
    have srefs : (State.finish { s with objects := ⟨id, handle, 1, 1, false⟩ :: s.objects }
        tid).srefs o = (if handle = o then 1 else 0) + s.srefs o := total_cons _
    rw [one] at carried
    rw [srefs]
    simp only [State.counted, State.carried, State.finish] at before carried ⊢
    omega
  · intro object isObject
    rcases List.mem_cons.mp isObject with rfl | isObject
    · exact ⟨one_pos, rfl⟩
    · exact balanced.sound object isObject

end

theorem Balanced.setRefcnt (id refcnt : Nat) :
    Balanced (s.setRefcnt id refcnt) := by
  have srefs : ∀ handle, (s.setRefcnt id refcnt).srefs handle = s.srefs handle :=
    fun handle => total_update_same fun _ => by rfl
  refine ⟨balanced.handles, fun handle => ?_, balanced.bounded, balanced.used, ?_⟩
  · rw [srefs]
    exact balanced.counted handle
  · intro object isObject
    rcases mem_update isObject with isObject | ⟨old, found, rfl⟩
    · exact balanced.sound object isObject
    · exact balanced.sound old (List.mem_of_find?_eq_some found)

theorem Balanced.unlist {id : Nat}
    (found : (s.objects.find? fun object => object.id == id) = some object) (tid : Nat) :
    Balanced { s with
      objects := s.objects.eraseP fun o => o.id == id
      calls := ⟨tid, .releasing object.handle object.sref⟩ :: s.calls } := by
  refine ⟨balanced.handles, fun handle => ?_, balanced.bounded, balanced.used, ?_⟩
  · have before := balanced.counted handle
    have erased : s.srefs handle = (if object.handle = handle then object.sref else 0) +
        total (fun object => if object.handle = handle then object.sref else 0)
          (s.objects.eraseP fun o => o.id == id) := total_eraseP found
    have carried : total (fun call => call.phase.carries handle)
        (⟨tid, .releasing object.handle object.sref⟩ :: s.calls) =
        (if object.handle = handle then object.sref else 0) + s.carried handle := total_cons _
    simp only [State.counted, State.srefs, State.carried] at before erased carried ⊢
    omega
  · exact fun o isOther => balanced.sound o (List.mem_of_mem_eraseP isOther)

theorem Balanced.drop (found : s.call tid = some (.releasing handle sref))
    (isPager : (s.pagers.find? fun pager => pager.handle == handle) = some pager) :
    Balanced ((s.drop pager sref).finish tid) := by
  have place : pager.handle = handle := by simpa using List.find?_some isPager
  have listed := List.mem_of_find?_eq_some isPager
  have whole := counted_eq balanced.handles listed
  have carried : ∀ o, s.carried o =
      (if handle = o then sref else 0) + (s.finish tid).carried o :=
    fun o => carried_finish found o
  have enough : sref ≤ pager.ref := by
    have count := balanced.counted handle
    have here := carried handle
    rw [if_pos rfl] at here
    rw [place] at whole
    omega
  have small : pager.ref < 2 ^ 64 := whole ▸ balanced.bounded pager.handle
  have left : wrap (pager.ref + (2 ^ 64 - wrap sref)) = pager.ref - sref := by
    have same : wrap sref = sref := wrap_eq (lt_of_le_of_lt enough small)
    rw [same, wrap]
    omega
  have counted : ∀ o, (s.drop pager sref).counted o +
      (if handle = o then sref else 0) = s.counted o := by
    intro o
    unfold State.drop
    rw [left]
    simp only
    split
    next none =>
      have erased : s.counted o = (if pager.handle = o then pager.ref else 0) +
          total (fun pager => if pager.handle = o then pager.ref else 0)
            (s.pagers.eraseP fun o => o.handle == pager.handle) :=
        total_eraseP (place ▸ isPager)
      have all : pager.ref = sref := by omega
      rw [erased, all, place, State.counted]
      exact add_comm _ _
    · have changed : total (fun pager => if pager.handle = o then pager.ref else 0)
          (update (fun o => o.handle == pager.handle)
            (fun o => { o with ref := pager.ref - sref }) s.pagers) +
          (if pager.handle = o then pager.ref else 0) =
          s.counted o + if pager.handle = o then pager.ref - sref else 0 :=
        total_update (place ▸ isPager)
      simp only [place] at changed
      simp only [State.counted, place]
      simp only [State.counted] at changed
      split at changed
      · rw [if_pos ‹_›]; omega
      · rw [if_neg ‹_›]; omega
  have objects : (s.drop pager sref).objects = s.objects := by
    unfold State.drop
    simp only
    split <;> rfl
  have calls : (s.drop pager sref).calls = s.calls := by
    unfold State.drop
    simp only
    split <;> rfl
  refine ⟨?_, fun o => ?_, fun o => ?_, ?_, ?_⟩
  · unfold State.drop
    simp only
    split
    · exact nodup_eraseP balanced.handles
    · exact nodup_update (fun _ => by rfl) balanced.handles
  · have before := balanced.counted o
    have after := counted o
    have here := carried o
    simp only [State.counted, State.srefs, State.carried, State.finish] at before after here ⊢
    rw [objects, calls]
    omega
  · have bound := balanced.bounded o
    have after := counted o
    have same : ((s.drop pager sref).finish tid).counted o =
        (s.drop pager sref).counted o := rfl
    omega
  · intro o isOther
    unfold State.drop at isOther
    simp only at isOther
    split at isOther
    · exact balanced.used o (List.mem_of_mem_eraseP isOther)
    next some =>
      rcases mem_update isOther with isOther | ⟨old, -, rfl⟩
      · exact balanced.used o isOther
      · exact pos_of_ne_zero some
  · have same : ((s.drop pager sref).finish tid).objects = s.objects := objects
    rw [same]
    exact balanced.sound

end

end Accounts

/-! ## Runs -/

def State.roomFor (state : State) (inode : Nat) : Bool :=
  (state.pagerOf inode).all fun pager => decide (pager.ref + 1 < 2 ^ 64)

/-- Nothing fails between the reference on a pager and the count of the object, and no pager
has `2 ^ 64 - 1` references when another one is taken. -/
def succeeds (state : State) : Op → Bool
  | .search tid _ | .addPager tid _ =>
    match state.call tid with
    | some (.requested inode) => state.roomFor inode
    | some (.allocating inode) => state.roomFor inode
    | _ => true
  | .reply _ written => written
  | .allocate _ granted => granted
  | .insert tid _ granted =>
    granted || match state.call tid with
      | some (.allocated handle) => (state.objListLookup handle).isSome
      | _ => true
  | _ => true

variable {s : State}

theorem room (fits : s.roomFor inode = true)
    (found : s.pagerOf inode = some pager) : pager.ref + 1 < 2 ^ 64 := by
  simpa [roomFor, found] using fits

theorem balanced_boot : Balanced boot where
  handles := List.nodup_nil
  counted _ := rfl
  bounded _ := Nat.two_pow_pos 64
  used _ isPager := by cases isPager
  sound _ isObject := by cases isObject

theorem Balanced.exec (balanced : Balanced s)
    (valid : succeeds s op = true) (taken : exec s op = some next) : Balanced next := by
  cases op with simp only [FileObj.exec, ite_none_right_eq_some, some.injEq] at taken
  | create tid inode =>
    obtain ⟨_, rfl⟩ := taken
    exact balanced.of_carried rfl rfl fun handle => (total_cons _).trans (zero_add _)
  | search tid granted =>
    split at taken
    next inode found =>
      split at taken
      next pager isPager =>
        cases taken
        exact balanced.reference found (fun _ => rfl) (List.mem_of_find?_eq_some isPager)
          (room (by simpa [succeeds, found] using valid) isPager)
      · cases taken
        split
        · exact balanced.goOn found fun _ => rfl
        · exact balanced.finish found fun _ => rfl
    · cases taken
  | addPager tid handle =>
    split at taken
    next inode found =>
      split at taken
      next pager isPager =>
        cases taken
        exact balanced.reference found (fun _ => rfl) (List.mem_of_find?_eq_some isPager)
          (room (by simpa [succeeds, found] using valid) isPager)
      · obtain ⟨fresh, ⟨⟩⟩ := ite_none_right_eq_some.mp taken
        exact balanced.addPager found (fun _ => rfl) fresh
    · cases taken
  | reply tid written =>
    obtain rfl : written = true := valid
    split at taken
    next handle found =>
      cases taken
      exact balanced.goOn found fun _ => rfl
    · cases taken
  | lookup tid =>
    split at taken
    next handle found =>
      split at taken
      next object isObject =>
        cases taken
        exact balanced.share found (fun _ => rfl) isObject
      · cases taken
        exact balanced.goOn found fun _ => rfl
    · cases taken
  | allocate tid granted =>
    obtain rfl : granted = true := valid
    split at taken
    next handle found =>
      cases taken
      exact balanced.goOn found fun _ => rfl
    · cases taken
  | insert tid id granted =>
    split at taken
    next handle found =>
      split at taken
      next object isObject =>
        cases taken
        exact balanced.share found (fun _ => rfl) isObject
      next missing =>
        obtain rfl : granted = true := by simpa [succeeds, found, missing] using valid
        split at taken
        · cases taken
          exact balanced.insert found (fun _ => rfl) id
        · cases taken
    · cases taken
  | ref id =>
    split at taken
    · split at taken
      · cases taken
      · cases taken
        exact balanced.setRefcnt _ _
    · cases taken
  | unref id =>
    split at taken
    · split at taken
      · cases taken
      · cases taken
        exact balanced.setRefcnt _ _
    · cases taken
  | unlist tid id =>
    obtain ⟨_, taken⟩ := taken
    split at taken
    next object found =>
      split at taken
      · cases taken
        exact balanced.unlist found tid
      · cases taken
    · cases taken
  | release tid =>
    split at taken
    next handle sref found =>
      split at taken
      next pager isPager =>
        cases taken
        exact balanced.drop found isPager
      next missing =>
        cases taken
        -- Without a pager there are no references left that the message could carry.
        have none : s.counted handle = 0 := by
          by_contra pos
          obtain ⟨pager, isPager, rfl⟩ := pager_of_counted (pos_of_ne_zero pos)
          obtain ⟨o, isOther, -⟩ := find?_handle isPager
          rw [missing] at isOther
          cases isOther
        have zero : sref = 0 := by
          have count := balanced.counted handle
          have carried := carried_finish found handle
          simp only [Phase.carries, if_true] at carried
          omega
        refine balanced.finish found fun o => ?_
        simp only [Phase.carries, zero, ite_self]
    · cases taken

def steadyMachine : Machine State Op := machine.restrict fun state op => succeeds state op = true

theorem balanced_of_reachable (reached : steadyMachine.Reachable s) : Balanced s :=
  reached.invariant Balanced
    (fun s (start : s = boot) => start ▸ balanced_boot)
    fun s op next _ balanced (taken : succeeds s op = true ∧ exec s op = some next) =>
      balanced.exec taken.1 taken.2

/-- In every run in which nothing fails after a pager has been referenced, a pager counts
what the objects with its handle have counted and what the calls in progress carry; without
calls in progress these are the objects alone, so that a pager is there exactly while an
object uses it. -/
theorem pager_references {state : State} (reached : steadyMachine.Reachable state) :
    (∀ pager ∈ state.pagers,
      pager.ref = state.srefs pager.handle + state.carried pager.handle) ∧
    (∀ object ∈ state.objects, object.dangling = false ∧
      ∃ pager ∈ state.pagers, pager.handle = object.handle) ∧
    (state.calls = [] → ∀ pager ∈ state.pagers, pager.ref = state.srefs pager.handle ∧
      ∃ object ∈ state.objects, object.handle = pager.handle) := by
  have balanced := balanced_of_reachable reached
  have refs : ∀ pager ∈ state.pagers,
      pager.ref = state.srefs pager.handle + state.carried pager.handle := by
    intro pager isPager
    rw [← balanced.counted, counted_eq balanced.handles isPager]
  refine ⟨refs, fun object isObject => ?_, fun quiet pager isPager => ?_⟩
  · obtain ⟨positive, valid⟩ := balanced.sound object isObject
    refine ⟨valid, pager_of_counted ?_⟩
    have bound := sref_le_srefs isObject
    have count := balanced.counted object.handle
    omega
  · have ref := refs pager isPager
    have none : state.carried pager.handle = 0 := by
      rw [carried, quiet]
      rfl
    have positive := balanced.used pager isPager
    exact ⟨by omega, object_of_srefs (by omega)⟩

/-- Two threads map the same file at once, one of them gives it up again, and so does the
other after a third one has mapped it. -/
def sharedFile : List Op :=
  [.create 1 7, .create 2 7, .search 1 true, .search 2 true, .addPager 1 100, .addPager 2 200,
    .reply 1 true, .reply 2 true, .lookup 1, .lookup 2, .allocate 1 true, .allocate 2 true,
    .insert 1 5 true, .insert 2 6 true, .unref 5, .create 3 7, .search 3 true, .reply 3 true,
    .lookup 3]

theorem pager_references_shared : ∃ state, steadyMachine.Reachable state ∧ state.calls = [] ∧
    state.pagers = [⟨100, 7, 3⟩] ∧
    ∀ pager ∈ state.pagers, pager.ref = state.srefs pager.handle := by
  have result : Machine.run (fun state op => succeeds state op) exec boot sharedFile =
      some ⟨[⟨100, 7, 3⟩], [⟨5, 100, 3, 2, false⟩], []⟩ := by decide
  have start : steadyMachine.Reachable boot := .init rfl
  have reached : steadyMachine.Reachable ⟨[⟨100, 7, 3⟩], [⟨5, 100, 3, 2, false⟩], []⟩ := by
    refine Machine.reachable_of_run ?_ start result
    exact fun _ _ _ passed executed => ⟨passed, executed⟩
  exact ⟨_, reached, rfl, rfl, fun pager isPager =>
    ((pager_references reached).2.2 rfl pager isPager).1⟩

/-- The object cannot be allocated once the host has answered. -/
def lostReference : List Op :=
  [.create 1 7, .search 1 true, .addPager 1 100, .reply 1 true, .lookup 1, .allocate 1 false]

theorem pager_reference_lost : ∃ state, machine.Reachable state ∧ state.calls = [] ∧
    state.objects = [] ∧ ∃ pager ∈ state.pagers, pager.ref ≠ state.srefs pager.handle := by
  have result : Machine.run (fun _ _ => true) exec boot lostReference =
      some ⟨[⟨100, 7, 1⟩], [], []⟩ := by decide
  have start : machine.Reachable boot := .init rfl
  have reached := Machine.reachable_of_run (fun _ _ _ _ executed => executed) start result
  exact ⟨_, reached, rfl, rfl, _, List.mem_singleton_self _, by decide⟩

end McKernel.FileObj
