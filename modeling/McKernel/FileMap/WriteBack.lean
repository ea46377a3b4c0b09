import McKernel.FileMap.Model

/-!
# What is written back

Pages of the object are never dirty in a private mapping, so nothing that is written there
reaches the file.  The page of a dirty entry of a shared mapping reaches the file when it is
unmapped, as long as the object was created by a shared mapping.
-/

namespace McKernel.FileMap

open FirstMatch List Function State Option Bool

variable {shared : Bool} {page : Nat}

variable {α : Type} {state s next : State α} {object loaded : Object α} {m : Mapping α}

/-! ## Objects -/

/-- Only pages have been added. -/
structure Object.Extends (object loaded : Object α) : Prop where
  flag : loaded.mfPrivate = object.mfPrivate
  pages : ∀ page, (object.pages page).isSome → (loaded.pages page).isSome

theorem Object.Extends.refl (object : Object α) : object.Extends object := ⟨rfl, fun _ => id⟩

theorem Object.Extends.setPage (page : Nat) (v : α) :
    object.Extends { object with pages := update object.pages page (some v) } where
  flag := rfl
  pages o isSome := by
    by_cases same : o = page
    · simp [same]
    · simpa [same] using isSome

theorem getPage_extends (page : Nat) : object.Extends (s.getPage object page).2 := by
  rw [getPage]
  split
  · exact .refl object
  · exact .setPage page _

theorem getPage_isSome (page : Nat) : ((s.getPage object page).2.pages page).isSome := by
  rw [getPage]
  split
  next found => simp [found]
  · simp

/-! ## Entries and mappings -/

/-- What holds of an entry: a private mapping has the pages of the object read-only and clean,
and a shared mapping has no others. -/
structure Pte.Fits (object : Object α) (shared : Bool) (page : Nat) (pte : Pte α) : Prop where
  ofShared : shared = true → pte.copy = none
  ofPrivate : shared = false → pte.copy = none → pte.writable = false ∧ pte.dirty = false
  held : pte.copy = none → (object.pages page).isSome

variable {pte : Pte α}

theorem Pte.Fits.mono (fits : pte.Fits object shared page) (extended : object.Extends loaded) :
    pte.Fits loaded shared page :=
  ⟨fits.ofShared, fits.ofPrivate, fun own => extended.pages page (fits.held own)⟩

theorem Pte.Fits.of_copy (copied : pte.copy ≠ none) (isPrivate : shared = false) :
    pte.Fits object shared page where
  ofShared isShared := by
    rw [isPrivate] at isShared
    cases isShared
  ofPrivate _ own := absurd own copied
  held own := absurd own copied

/-- Entries agree with the object; shared writes are dirty. -/
structure Mapping.Fits (object : Object α) (mapping : Mapping α) : Prop where
  flag : mapping.shared = true → object.mfPrivate = false
  ptes : ∀ page pte, mapping.ptes page = some pte → pte.Fits object mapping.shared page
  written : ∀ page, mapping.written page = true →
    ∃ pte, mapping.ptes page = some pte ∧ (mapping.shared = true → pte.dirty = true)

theorem Mapping.Fits.mono (fits : m.Fits object) (extended : object.Extends loaded) :
    m.Fits loaded where
  flag isShared := extended.flag.trans (fits.flag isShared)
  ptes page pte found := (fits.ptes page pte found).mono extended
  written := fits.written

theorem Mapping.Fits.setPte (fits : m.Fits object)
    (fitsPte : pte.Fits object m.shared page) {written : Nat → Bool}
    (same : ∀ o, written o = true → o ≠ page → m.written o = true)
    (dirty : m.shared = true → written page = true → pte.dirty = true) :
    Mapping.Fits object
      { m with
        ptes := update m.ptes page (some pte), written := written } where
  flag := fits.flag
  ptes o entry found := by
    by_cases isPage : o = page
    · subst isPage
      simp only [update_self, Option.some.injEq] at found
      exact found ▸ fitsPte
    · simp only [update_of_ne isPage] at found
      exact fits.ptes o entry found
  written o isWritten := by
    by_cases isPage : o = page
    · subst isPage
      exact ⟨pte, by simp, fun isShared => dirty isShared isWritten⟩
    · obtain ⟨entry, found, isDirty⟩ := fits.written o (same o isWritten isPage)
      exact ⟨entry, by simpa [isPage] using found, isDirty⟩

theorem install_fits {source : Option α} {contents : α}
    (held : source = none → (object.pages page).isSome)
    (ofShared : m.shared = true → source = none)
    (installed : install m reason allocated source contents = some pte) :
    pte.Fits object m.shared page := by
  rw [install] at installed
  split at installed
  next isPrivate =>
    rw [and_eq_true, not_eq_true', isNone_iff_eq_none] at isPrivate
    split at installed
    · cases installed
      refine ⟨fun _ => rfl, fun _ _ => ⟨rfl, rfl⟩, fun _ => held isPrivate.2⟩
    · split at installed
      · cases installed
        exact .of_copy (some_ne_none _) isPrivate.1
      · cases installed
  next o =>
    cases installed
    refine ⟨ofShared, fun isPrivate own => ?_, held⟩
    simp only at own
    simp [isPrivate, own] at o

theorem install_prot_dirty {source : Option α} {contents : α}
    (installed : install m .prot allocated source contents = some pte) :
    pte.dirty = true := by
  have marks : (Reason.prot == Reason.prot) = true := rfl
  simp only [install, marks, Bool.true_or, Bool.not_true, Bool.false_eq_true,
    if_false] at installed
  split at installed
  · split at installed
    · cases installed
      rfl
    · cases installed
  · cases installed
    rfl

/-! ## The state -/

structure Fits (state : State α) : Prop where
  present : ∀ mapping ∈ state.mappings, state.object ≠ none
  mappings : ∀ object, state.object = some object →
    ∀ mapping ∈ state.mappings, mapping.Fits object

namespace Fits

section

variable (fits : Fits s)
include fits

theorem object_of_mem (isMapping : m ∈ s.mappings) :
    ∃ object, s.object = some object ∧ m.Fits object := by
  obtain ⟨object, isObject⟩ := ne_none_iff_exists'.mp (fits.present m isMapping)
  exact ⟨object, isObject, fits.mappings object isObject m isMapping⟩

theorem update (isObject : s.object = some object) (extended : object.Extends loaded)
    (isLoaded : next.object = some loaded)
    (each : ∀ m ∈ next.mappings, m ∈ s.mappings ∨ m.Fits loaded) :
    Fits next := by
  refine ⟨fun _ _ => by rw [isLoaded]; exact some_ne_none _, ?_⟩
  intro o isOther m isMapping
  rw [isLoaded] at isOther
  cases isOther
  rcases each m isMapping with isOld | changedFits
  · exact (fits.mappings object isObject m isOld).mono extended
  · exact changedFits

theorem replace (next : State α) (isObject : s.object = some object)
    (extended : object.Extends loaded) (isLoaded : next.object = some loaded)
    (same : next.mappings = s.mappings) {changed : Mapping α}
    (changedFits : changed.Fits loaded) : Fits (next.replace changed) := by
  refine fits.update isObject extended isLoaded fun m isMapping => ?_
  simp only [State.replace, same] at isMapping
  rcases mem_update isMapping with isMapping | ⟨_, _, rfl⟩
  · exact .inl isMapping
  · exact .inr changedFits

theorem add (isObject : s.object = some object)
    (mappingFits : m.Fits object) : Fits (s.add m) := by
  refine fits.update isObject (.refl object) isObject fun found isFound => ?_
  rcases mem_cons.mp isFound with rfl | isFound
  · exact .inr mappingFits
  · exact .inl isFound

theorem fault (isObject : s.object = some object)
    (mappingFits : m.Fits object) (page : Nat) (reason : Reason) (allocated : Bool) :
    Fits (s.fault object m page reason allocated) := by
  unfold State.fault
  split
  next pte found =>
    -- A write to a page that is mapped already.
    have pteFits := mappingFits.ptes page pte found
    simp only
    split
    · exact fits
    next new installed =>
      refine fits.replace s isObject (.refl object) isObject rfl
        (mappingFits.setPte ?_ (fun _ isWritten _ => isWritten) fun _ _ =>
          install_prot_dirty installed)
      exact install_fits pteFits.held pteFits.ofShared installed
  · exact fits
  · exact fits
  next absent _ =>
    have extended := @getPage_extends _ s object page
    simp only
    split
    · exact fits.update isObject extended rfl fun _ => .inl
    next new installed =>
      refine fits.replace { s with object := some _ } isObject extended rfl rfl
        ((mappingFits.mono extended).setPte ?_ (fun _ isWritten _ => isWritten) ?_)
      · exact install_fits (fun _ => getPage_isSome page) (fun _ => rfl) installed
      · intro _ isWritten
        obtain ⟨pte, found, _⟩ := mappingFits.written page isWritten
        rw [absent] at found
        cases found

end

theorem store_private (mappingFits : m.Fits object) (isPrivate : m.shared = false)
    {v : α} (stored : s.store object m page v = some next) :
    next.object = s.object ∧ next.file = s.file := by
  obtain ⟨pte, found, stored⟩ := bind_eq_some_iff.mp stored
  have pteFits := mappingFits.ptes page pte found
  split at stored
  next isWritable =>
    split at stored
    · cases stored
      exact ⟨rfl, rfl⟩
    next own =>
      rw [(pteFits.ofPrivate isPrivate own).1] at isWritable
      cases isWritable
  · cases stored

section

variable (fits : Fits s) (isObject : s.object = some object)
include fits isObject

section

variable (mappingFits : m.Fits object)
include mappingFits

theorem store {v : α}
    (stored : s.store object m page v = some next) : Fits next := by
  obtain ⟨pte, found, stored⟩ := bind_eq_some_iff.mp stored
  have pteFits := mappingFits.ptes page pte found
  have others : ∀ o, Function.update m.written page true o = true →
      o ≠ page → m.written o = true := by
    intro o isWritten ne
    simpa [ne] using isWritten
  split at stored
  next isWritable =>
    split at stored
    next copied isCopy =>
      cases stored
      have isPrivate : m.shared = false := by
        by_contra isShared
        rw [pteFits.ofShared (eq_true_of_ne_false isShared)] at isCopy
        cases isCopy
      have copyFits : Pte.Fits object m.shared page
          { pte with copy := some v, dirty := true } :=
        .of_copy (some_ne_none _) isPrivate
      exact fits.replace s isObject (.refl object) isObject rfl
        (mappingFits.setPte copyFits others fun _ _ => rfl)
    next own =>
      cases stored
      have extended := @Object.Extends.setPage _ object page v
      have ownFits : Pte.Fits
          { object with pages := Function.update object.pages page (some v) }
          m.shared page { pte with dirty := true } := by
        refine ⟨fun _ => own, fun isPrivate _ => ?_, fun _ => by simp⟩
        rw [(pteFits.ofPrivate isPrivate own).1] at isWritable
        cases isWritable
      exact fits.replace { s with object := some _ } isObject extended rfl rfl
        ((mappingFits.mono extended).setPte ownFits others fun _ _ => rfl)
  · cases stored

theorem mprotect (writable : Bool) :
    Fits (s.mprotect m writable) := by
  refine fits.replace s isObject (.refl object) isObject rfl ⟨mappingFits.flag, ?_, ?_⟩
  · intro page pte found
    obtain ⟨old, isOld, rfl⟩ := map_eq_some_iff.mp found
    have oldFits := mappingFits.ptes page old isOld
    refine ⟨oldFits.ofShared, fun isPrivate own => ?_, oldFits.held⟩
    simp only at isPrivate
    have clean := oldFits.ofPrivate isPrivate own
    exact ⟨by simp [isPrivate, clean.1], clean.2⟩
  · intro page isWritten
    obtain ⟨pte, found, dirty⟩ := mappingFits.written page isWritten
    exact ⟨_, map_eq_some_iff.mpr ⟨pte, found, rfl⟩, dirty⟩

theorem fork (child : Nat) :
    Fits (s.fork object m child) := by
  refine fits.add isObject ⟨mappingFits.flag, ?_, ?_⟩
  · intro page pte found
    split at found
    · cases found
    next isPrivate =>
      obtain ⟨old, _, rfl⟩ := map_eq_some_iff.mp found
      exact .of_copy (some_ne_none _) (eq_false_of_ne_true isPrivate)
  · intro page isWritten
    simp only [and_eq_true, not_eq_true'] at isWritten
    obtain ⟨pte, found, _⟩ := mappingFits.written page isWritten.2
    simp only [isWritten.1, false_eq_true, if_false]
    exact ⟨_, map_eq_some_iff.mpr ⟨pte, found, rfl⟩, fun _ => rfl⟩

theorem msync (pages : Nat → Bool) :
    Fits (s.msync object m pages) := by
  unfold State.msync
  split
  · refine fits.replace (s.writeBack object _) isObject (.refl object) isObject rfl
      ⟨mappingFits.flag, ?_, ?_⟩
    · intro page pte found
      obtain ⟨old, isOld, rfl⟩ := map_eq_some_iff.mp found
      have oldFits := mappingFits.ptes page old isOld
      split
      · exact ⟨oldFits.ofShared,
          fun isPrivate own => ⟨(oldFits.ofPrivate isPrivate own).1, rfl⟩, oldFits.held⟩
      · exact oldFits
    · intro page isWritten
      simp only [and_eq_true, not_eq_true'] at isWritten
      obtain ⟨pte, found, dirty⟩ := mappingFits.written page isWritten.1
      exact ⟨pte, by simp [found, isWritten.2], dirty⟩
  · exact fits

theorem munmap (pages : Nat → Bool) :
    Fits (s.munmap object m pages) := by
  refine fits.replace (s.clearRange object m pages) isObject (.refl object) isObject
    rfl ⟨mappingFits.flag, ?_, ?_⟩
  · intro page pte found
    simp only at found
    split at found
    · cases found
    · exact mappingFits.ptes page pte found
  · intro page isWritten
    simp only [and_eq_true, not_eq_true'] at isWritten
    obtain ⟨pte, found, dirty⟩ := mappingFits.written page isWritten.1
    exact ⟨pte, by simp [found, isWritten.2], dirty⟩

end

theorem unmap :
    Fits (s.unmap object m) := by
  cases rest : s.mappings.eraseP (·.id == m.id) with
  | nil =>
    have none : (s.unmap object m).mappings = [] := rest
    refine ⟨fun o isOther => ?_, fun _ _ o isOther => ?_⟩ <;>
      · rw [none] at isOther
        cases isOther
  | cons first others =>
    refine fits.update isObject (.refl object) ?_ fun _ isOther =>
      .inl (List.mem_of_mem_eraseP isOther)
    simp [State.unmap, rest]

end

end Fits

/-- The condition on the steps: a shared mapping does not meet an object that a private
mapping has created. -/
def Regular (state : State α) : Op α → Prop
  | .mmap _ shared _ => shared = true → ∀ object, state.object = some object →
      object.mfPrivate = false
  | _ => True

theorem Fits.mmap (fits : Fits s) {id : Nat}
    (regular : Regular s (.mmap id shared writable)) :
    Fits ((s.fileobjCreate shared).add
      ⟨id, shared, writable, fun _ => none, fun _ => false⟩) := by
  have empty : ∀ object : Object α, (shared = true → object.mfPrivate = false) →
      Mapping.Fits object ⟨id, shared, writable, fun _ => none, fun _ => false⟩ := by
    intro object flag
    exact ⟨flag, nofun, nofun⟩
  unfold fileobjCreate
  split
  next object isObject =>
    exact fits.add isObject (empty object fun isShared => regular isShared object isObject)
  next absent =>
    -- Without an object there are no mappings either.
    have noMapping : ∀ m, m ∉ s.mappings := fun m isMapping =>
      fits.present m isMapping absent
    have created : Fits { s with object := some ⟨!shared, fun _ => none⟩ } :=
      ⟨fun m isMapping => absurd isMapping (noMapping m),
        fun _ _ m isMapping => absurd isMapping (noMapping m)⟩
    exact created.add rfl (empty _ fun isShared => by simp [isShared])

theorem mem_of_find {id : Nat} (found : s.find id = some m) :
    m ∈ s.mappings := mem_of_find?_eq_some found

theorem exec_fits (fits : Fits s) {op : Op α} (regular : Regular s op)
    (ran : exec s op = some next) : Fits next := by
  cases op with simp only [exec, bind_eq_bind, bind_eq_some_iff,
      ite_none_right_eq_some, Option.some.injEq] at ran
  | mmap id shared writable =>
    split at ran
    · cases ran
    · cases ran
      exact fits.mmap regular
  | fault id page reason allocated =>
    obtain ⟨m, found, object, isObject, ran⟩ := ran
    have mappingFits := fits.mappings object isObject m (mem_of_find found)
    split at ran <;> cases ran
    · exact fits
    · exact fits.fault isObject mappingFits page reason allocated
  | store id page v =>
    obtain ⟨m, found, object, isObject, ran⟩ := ran
    exact fits.store isObject (fits.mappings object isObject m (mem_of_find found))
      ran
  | mprotect id writable =>
    obtain ⟨m, found, rfl⟩ := ran
    obtain ⟨object, isObject, mappingFits⟩ := fits.object_of_mem (mem_of_find found)
    exact fits.mprotect isObject mappingFits writable
  | fork id child =>
    obtain ⟨m, found, object, isObject, _, rfl⟩ := ran
    exact fits.fork isObject (fits.mappings object isObject m (mem_of_find found)) child
  | msync id pages =>
    obtain ⟨m, found, object, isObject, rfl⟩ := ran
    exact fits.msync isObject (fits.mappings object isObject m (mem_of_find found)) pages
  | munmap id pages =>
    obtain ⟨m, found, object, isObject, rfl⟩ := ran
    exact fits.munmap isObject (fits.mappings object isObject m (mem_of_find found)) pages
  | unmap id =>
    obtain ⟨m, found, object, isObject, rfl⟩ := ran
    exact fits.unmap isObject

theorem fits_of_reachable (reached : ((machine α).restrict Regular).Reachable s) :
    Fits s := by
  refine reached.invariant Fits ?_ ?_
  · rintro start ⟨noObject, noMappings⟩
    refine ⟨fun m isMapping => ?_, fun _ isObject => ?_⟩
    · rw [noMappings] at isMapping
      cases isMapping
    · rw [noObject] at isObject
      cases isObject
  · intro s op next _ fits taken
    exact exec_fits fits taken.1 taken.2

/-! ## Unmapping -/

theorem clearRange_flushed {pte : Pte α} {contents : α} {pages : Nat → Bool}
    (found : m.ptes page = some pte) (flushes : object.flushes pte = true)
    (held : object.pages page = some contents) (inside : pages page = true) :
    (s.clearRange object m pages).file page = contents := by
  simp [clearRange, writeBack, found, flushes, held, inside]

theorem clearRange_kept {pages : Nat → Bool}
    (kept : ∀ page pte, m.ptes page = some pte → object.flushes pte = false) :
    (s.clearRange object m pages).file = s.file := by
  funext page
  have quiet : (m.ptes page).any object.flushes = false := by
    rw [Option.any_eq_false]
    intro pte found
    rw [kept page pte found]
  simp [clearRange, writeBack, quiet]

/-- In every run in which no shared mapping meets an object made by a private one, the dirty
pages of a shared mapping, among them all that were written, are in the file once they are
unmapped; unmapping a private mapping writes nothing back, and what is written to it changes
neither the file nor the pages of its object. -/
theorem shared_pages_written_back (reached : ((machine α).restrict Regular).Reachable state)
    (isMapping : mapping ∈ state.mappings) :
    ∃ object, state.object = some object ∧
      (mapping.shared = true →
        (∀ page, mapping.written page = true →
          ∃ pte, mapping.ptes page = some pte ∧ pte.dirty = true) ∧
        ∀ page pte, mapping.ptes page = some pte → pte.dirty = true →
          object.flushes pte = true ∧ ∃ contents, object.pages page = some contents ∧
            ∀ pages, pages page = true →
              (state.clearRange object mapping pages).file page = contents) ∧
      (mapping.shared = false →
        (∀ page pte, mapping.ptes page = some pte → object.flushes pte = false) ∧
        (∀ pages, (state.clearRange object mapping pages).file = state.file) ∧
        ∀ page value next, state.store object mapping page value = some next →
          next.object = state.object ∧ next.file = state.file) := by
  obtain ⟨object, isObject, fits⟩ := (fits_of_reachable reached).object_of_mem isMapping
  refine ⟨object, isObject, fun isShared => ⟨?_, ?_⟩, fun isPrivate => ?_⟩
  · intro page isWritten
    obtain ⟨pte, found, dirty⟩ := fits.written page isWritten
    exact ⟨pte, found, dirty isShared⟩
  · intro page pte found dirty
    have own := (fits.ptes page pte found).ofShared isShared
    have flushes : object.flushes pte = true := by
      simp [Object.flushes, own, dirty, fits.flag isShared]
    obtain ⟨contents, held⟩ := isSome_iff_exists.mp ((fits.ptes page pte found).held own)
    exact ⟨flushes, contents, held, fun _ inside => clearRange_flushed found flushes held inside⟩
  · have quiet : ∀ page pte, mapping.ptes page = some pte → object.flushes pte = false := by
      intro page pte found
      rw [Object.flushes]
      cases own : pte.copy with
      | some _ => rfl
      | none => simp [((fits.ptes page pte found).ofPrivate isPrivate own).2]
    exact ⟨quiet, fun _ => clearRange_kept quiet, fun _ _ _ stored =>
      Fits.store_private fits isPrivate stored⟩

/-! ## Runs -/

/-- A file of zeros that nobody has mapped. -/
def fresh : State Nat := ⟨fun _ => 0, none, []⟩

theorem init_fresh : (machine Nat).init fresh := ⟨rfl, rfl⟩

/-- The condition, to be evaluated. -/
def regular (state : State α) : Op α → Bool
  | .mmap _ shared _ => !shared || state.object.all fun object => !object.mfPrivate
  | _ => true

theorem regular_sound {op : Op α} (passed : regular s op = true) : Regular s op := by
  cases op with
  | mmap id shared writable =>
    intro isShared object isObject
    simpa [regular, isShared, isObject] using passed
  | fault | store | mprotect | fork | msync | munmap | unmap => trivial

/-- A shared mapping creates the object and a private one joins it; both write the same page,
and the page of the shared one goes to the file. -/
theorem shared_pages_written_back_joined :
    ∃ state mapping object, ((machine Nat).restrict Regular).Reachable state ∧
      mapping ∈ state.mappings ∧ mapping.shared = true ∧ mapping.written 3 = true ∧
      state.object = some object ∧
      ∃ pte, mapping.ptes 3 = some pte ∧ object.flushes pte = true := by
  obtain ⟨state, reached, mapping, found, isMapping⟩ : ∃ state,
      ((machine Nat).restrict Regular).Reachable state ∧ ∃ mapping ∈ state.find 0,
        mapping.shared = true ∧ mapping.written 3 = true :=
    Machine.exists_restrict_run (fun _ _ => regular_sound) init_fresh (fun _ _ _ => id)
      [.mmap 0 true true, .mmap 1 false true, .fault 1 3 .access true, .fault 1 3 .prot true,
        .store 1 3 8, .fault 0 3 .access true, .fault 0 3 .prot true, .store 0 3 7]
      (by decide +kernel)
  obtain ⟨object, isObject, ofShared, _⟩ :=
    shared_pages_written_back reached (mem_of_find found)
  obtain ⟨pte, isPte, dirty⟩ := (ofShared isMapping.1).1 3 isMapping.2
  exact ⟨state, mapping, object, reached, mem_of_find found, isMapping.1, isMapping.2, isObject,
    pte, isPte, ((ofShared isMapping.1).2 3 pte isPte dirty).1⟩

/-- A private mapping has created the object.  What is then written to a shared mapping is not
in the file when it has been unmapped, nor when all mappings are gone. -/
theorem shared_pages_lost :
    (∃ state mapping object, (machine Nat).Reachable state ∧ mapping ∈ state.mappings ∧
      mapping.shared = true ∧ state.object = some object ∧ object.pages 3 = some 7 ∧
      (mapping.ptes 3).any (·.dirty) = true ∧
      (state.clearRange object mapping fun _ => true).file 3 = 0) ∧
    ∃ state, (machine Nat).Reachable state ∧ state.mappings = [] ∧ state.file 3 = 0 := by
  obtain ⟨state, reached, mapping, found, object, isObject, isDirty⟩ : ∃ state,
      (machine Nat).Reachable state ∧ ∃ mapping ∈ state.find 1, ∃ object ∈ state.object,
        mapping.shared = true ∧ object.pages 3 = some 7 ∧ (mapping.ptes 3).any (·.dirty) = true ∧
        (state.clearRange object mapping fun _ => true).file 3 = 0 :=
    Machine.exists_run init_fresh (fun _ _ _ => id)
      [.mmap 0 false false, .mmap 1 true true, .fault 1 3 .access true, .fault 1 3 .prot true,
        .store 1 3 7] (by decide +kernel)
  refine ⟨⟨state, mapping, object, reached, mem_of_find found, isDirty.1, isObject, isDirty.2⟩, ?_⟩
  exact Machine.exists_run init_fresh (fun _ _ _ => id)
    [.mmap 0 false false, .mmap 1 true true, .fault 1 3 .access true, .fault 1 3 .prot true,
      .store 1 3 7, .unmap 1, .unmap 0] (by decide +kernel)

end McKernel.FileMap
