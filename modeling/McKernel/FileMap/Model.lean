import McKernel.Lib.FirstMatch
import McKernel.Lib.Machine

/-!
# Mappings of a regular file

All mappings of a file share one object of `kernel/fileobj.c`, whose flags are set by the
mapping that creates it.  Faults map pages of the object, or copies of them in private
mappings; `clear_range_l1` decides with the flags of the object whether the page of a dirty
entry goes back to the file.  Pages of a file are mapped in the smallest size only.
-/

namespace McKernel.FileMap

open FirstMatch Function

/-- `struct fileobj`: the flag `MF_PRIVATE` and the pages read from the file.  The host sets
no `MF_ZEROFILL` for files. -/
structure Object (α : Type) where
  mfPrivate : Bool
  pages : Nat → Option α

/-- An entry of the page table: a page of the object, or a page of its own after a copy. -/
structure Pte (α : Type) where
  copy : Option α
  writable : Bool
  dirty : Bool

/-- A range that maps the file; entries are indexed by the page of the file. -/
structure Mapping (α : Type) where
  id : Nat
  /-- `VR_PRIVATE` is not set. -/
  shared : Bool
  /-- `VR_PROT_WRITE`. -/
  writable : Bool
  ptes : Nat → Option (Pte α)
  /-- The pages that the program has written since they went to the file last. -/
  written : Nat → Bool

/-- A file, its object and the mappings of it. -/
structure State (α : Type) where
  file : Nat → α
  object : Option (Object α)
  mappings : List (Mapping α)

/-- The faults that the handler tells apart. -/
inductive Reason where
  /-- Neither `PF_PROT` nor `PF_POPULATE`. -/
  | access
  /-- `PF_PROT`: a write to a page that is mapped read-only. -/
  | prot
  | populate
  deriving DecidableEq, Repr

inductive Op (α : Type) where
  /-- `mmap` of the file. -/
  | mmap (id : Nat) (shared writable : Bool)
  /-- `page_fault_process_memory_range`; `allocated` tells whether a copy can be made. -/
  | fault (id page : Nat) (reason : Reason) (allocated : Bool)
  | store (id page : Nat) (value : α)
  /-- `change_prot_process_memory_range`. -/
  | mprotect (id : Nat) (writable : Bool)
  /-- `copy_user_ranges` of the range. -/
  | fork (id child : Nat)
  /-- `sync_process_memory_range` over some pages. -/
  | msync (id : Nat) (pages : Nat → Bool)
  /-- `munmap` of a part of the mapping. -/
  | munmap (id : Nat) (pages : Nat → Bool)
  /-- `free_process_memory_range` of the whole mapping. -/
  | unmap (id : Nat)

/-- The test of `clear_range_l1`: a dirty page of the object, which is not `MF_PRIVATE`. -/
def Object.flushes {α : Type} (object : Object α) (pte : Pte α) : Bool :=
  pte.copy.isNone && pte.dirty && !object.mfPrivate

namespace State

variable {α : Type} (state : State α)

def find (id : Nat) : Option (Mapping α) := state.mappings.find? (·.id == id)

def replace (mapping : Mapping α) : State α :=
  { state with mappings := update (·.id == mapping.id) (fun _ => mapping) state.mappings }

def add (mapping : Mapping α) : State α :=
  { state with mappings := mapping :: state.mappings }

/-- `fileobj_create`: the object that is there, or a new one with the flags of this call. -/
def fileobjCreate (shared : Bool) : State α :=
  match state.object with
  | some _ => state
  | none => { state with object := some ⟨!shared, fun _ => none⟩ }

/-- `fileobj_get_page`: the page is read from the file when it is asked for first. -/
def getPage (object : Object α) (page : Nat) : α × Object α :=
  match object.pages page with
  | some contents => (contents, object)
  | none =>
    (state.file page,
      { object with pages := update object.pages page (some (state.file page)) })

/-- Copy on write and the attributes of the new entry; nothing if a copy cannot be made.  The
source is a copy of an earlier fault, or the page of the object with these contents. -/
def install (mapping : Mapping α) (reason : Reason) (allocated : Bool) (source : Option α)
    (contents : α) : Option (Pte α) :=
  let dirty := reason == .prot || (reason == .populate && !mapping.shared)
  if !mapping.shared && source.isNone then
    if !dirty then some ⟨none, false, false⟩
    else if allocated then some ⟨some contents, mapping.writable, true⟩ else none
  else some ⟨source, mapping.writable && (dirty || !mapping.shared), dirty⟩

def setPte (mapping : Mapping α) (page : Nat) (pte : Pte α) : State α :=
  state.replace { mapping with ptes := update mapping.ptes page (some pte) }

/-- `page_fault_process_memory_range`, after the check of the access. -/
def fault (object : Object α) (mapping : Mapping α) (page : Nat) (reason : Reason)
    (allocated : Bool) : State α :=
  match mapping.ptes page, reason with
  | some pte, .prot =>
    let contents := (pte.copy <|> object.pages page).getD (state.file page)
    match install mapping .prot allocated pte.copy contents with
    | none => state
    | some new => state.setPte mapping page new
  | none, .prot => state
  | some _, _ => state
  | none, reason =>
    let (contents, loaded) := state.getPage object page
    match install mapping reason allocated none contents with
    | none => { state with object := some loaded }
    | some new => { state with object := some loaded }.setPte mapping page new

def store (object : Object α) (mapping : Mapping α) (page : Nat) (value : α) :
    Option (State α) := do
  let pte ← mapping.ptes page
  if pte.writable then
    let marked : Mapping α :=
      { mapping with written := update mapping.written page true }
    match pte.copy with
    | some _ => some (state.setPte marked page { pte with copy := some value, dirty := true })
    | none =>
      let stored : Object α :=
        { object with pages := update object.pages page (some value) }
      some ({ state with object := some stored }.setPte marked page { pte with dirty := true })
  else none

/-- `change_prot_process_memory_range`: entries of a private mapping do not become writable
here, so that the next write is a fault. -/
def mprotect (mapping : Mapping α) (writable : Bool) : State α :=
  state.replace
    { mapping with
      writable := writable
      ptes := fun page => (mapping.ptes page).map fun pte =>
        { pte with
          writable :=
            if mapping.writable && !writable then false
            else if !mapping.writable && writable && mapping.shared then true
            else pte.writable } }

/-- `copy_user_pte`: the pages of a private mapping are copied, those of a shared one are left
to the faults of the child. -/
def fork (object : Object α) (mapping : Mapping α) (child : Nat) : State α :=
  state.add
    { mapping with
      id := child
      written := fun page => !mapping.shared && mapping.written page
      ptes := fun page =>
        if mapping.shared then none
        else (mapping.ptes page).map fun pte =>
          ⟨some ((pte.copy <|> object.pages page).getD (state.file page)), mapping.writable, true⟩ }

/-- Pages that are written to the file. -/
def writeBack (object : Object α) (flushed : Nat → Bool) : State α :=
  { state with
    file := fun page =>
      if flushed page then (object.pages page).getD (state.file page) else state.file page }

/-- `sync_one_page` for the pages of a shared mapping. -/
def msync (object : Object α) (mapping : Mapping α) (pages : Nat → Bool) : State α :=
  if mapping.shared then
    (state.writeBack object fun page => pages page && (mapping.ptes page).any (·.dirty)).replace
      { mapping with
        written := fun page => mapping.written page && !pages page
        ptes := fun page => (mapping.ptes page).map fun pte =>
          if pages page then { pte with dirty := false } else pte }
  else state

/-- `clear_range_l1` for the entries of some pages, as far as the file is concerned. -/
def clearRange (object : Object α) (mapping : Mapping α) (pages : Nat → Bool) : State α :=
  state.writeBack object fun page => pages page && (mapping.ptes page).any object.flushes

/-- `munmap` of a part. -/
def munmap (object : Object α) (mapping : Mapping α) (pages : Nat → Bool) : State α :=
  (state.clearRange object mapping pages).replace
    { mapping with
      ptes := fun page => if pages page then none else mapping.ptes page
      written := fun page => mapping.written page && !pages page }

/-- `free_process_memory_range`; the last `memobj_unref` frees the object. -/
def unmap (object : Object α) (mapping : Mapping α) : State α :=
  let rest := state.mappings.eraseP (·.id == mapping.id)
  { state.clearRange object mapping fun _ => true with
    mappings := rest
    object := if rest.isEmpty then none else some object }

end State

/-- A step, if it is possible. -/
def exec {α : Type} (state : State α) : Op α → Option (State α)
  | .mmap id shared writable =>
    match state.find id with
    | some _ => none
    | none =>
      some ((state.fileobjCreate shared).add
        ⟨id, shared, writable, fun _ => none, fun _ => false⟩)
  | .fault id page reason allocated => do
    let mapping ← state.find id
    let object ← state.object
    -- A fault of a write to a range without the right to write ends with a signal.
    if reason = .prot ∧ mapping.writable = false then some state
    else some (state.fault object mapping page reason allocated)
  | .store id page value => do
    let mapping ← state.find id
    let object ← state.object
    state.store object mapping page value
  | .mprotect id writable => do
    let mapping ← state.find id
    some (state.mprotect mapping writable)
  | .fork id child => do
    let mapping ← state.find id
    let object ← state.object
    if (state.find child).isNone then some (state.fork object mapping child) else none
  | .msync id pages => do
    let mapping ← state.find id
    let object ← state.object
    some (state.msync object mapping pages)
  | .munmap id pages => do
    let mapping ← state.find id
    let object ← state.object
    some (state.munmap object mapping pages)
  | .unmap id => do
    let mapping ← state.find id
    let object ← state.object
    some (state.unmap object mapping)

/-- A file with any contents that nobody has mapped. -/
def machine (α : Type) : Machine (State α) (Op α) where
  init state := state.object = none ∧ state.mappings = []
  step state op next := exec state op = some next

end McKernel.FileMap
