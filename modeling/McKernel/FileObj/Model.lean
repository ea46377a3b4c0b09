import McKernel.Lib.FirstMatch
import McKernel.Lib.Machine

/-!
# File objects and their pagers

The model of `fileobj_create` and `fileobj_free` in `kernel/fileobj.c` and of
`pager_req_create` and `pager_req_release` on the Linux side.  Every critical section is a
step of its own, so that calls of several threads interleave between them.
-/

namespace McKernel.FileObj

open FirstMatch

/-- `struct pager`; the handle is its address. -/
structure Pager where
  handle : Nat
  inode : Nat
  ref : Nat
  deriving DecidableEq, Repr

/-- `struct fileobj`; `dangling` tells that it has been freed while it is in the list. -/
structure Object where
  id : Nat
  handle : Nat
  sref : Nat
  refcnt : Nat
  dangling : Bool
  deriving DecidableEq, Repr

/-- How far a call of `fileobj_create` or `fileobj_free` has got. -/
inductive Phase where
  | requested (inode : Nat)
  /-- `pager_req_create` has allocated a pager and looks again. -/
  | allocating (inode : Nat)
  | referenced (handle : Nat)
  /-- The reply has arrived. -/
  | replied (handle : Nat)
  /-- The first lookup has found no object. -/
  | missed (handle : Nat)
  | allocated (handle : Nat)
  | releasing (handle sref : Nat)
  deriving DecidableEq, Repr

/-- A call, by the thread that makes it. -/
structure Call where
  tid : Nat
  phase : Phase
  deriving DecidableEq, Repr

/-- `pager_list`, `fileobj_list` and the calls in progress. -/
structure State where
  pagers : List Pager
  objects : List Object
  calls : List Call
  deriving DecidableEq, Repr

/-- The steps. -/
inductive Op where
  /-- `fileobj_create` sends `PAGER_REQ_CREATE`. -/
  | create (tid inode : Nat)
  /-- The first round of the loop in `pager_req_create`; `granted` is the answer of `kzalloc`. -/
  | search (tid : Nat) (granted : Bool)
  | addPager (tid handle : Nat)
  /-- The reply; it fails if the result cannot be mapped or the path cannot be allocated. -/
  | reply (tid : Nat) (written : Bool)
  | lookup (tid : Nat)
  /-- `kmalloc` of the object. -/
  | allocate (tid : Nat) (granted : Bool)
  /-- The second lookup, which inserts the object if there is none yet; `granted` is the
  answer of `kmalloc` for the path. -/
  | insert (tid id : Nat) (granted : Bool)
  /-- `memobj_ref` by someone who holds a reference. -/
  | ref (id : Nat)
  | unref (id : Nat)
  /-- `fileobj_free` takes the object out of the list. -/
  | unlist (tid id : Nat)
  | release (tid : Nat)
  deriving DecidableEq, Repr

/-- The range of `uint64_t`. -/
def wrap (value : Nat) : Nat := value % 2 ^ 64

namespace State

def call (state : State) (tid : Nat) : Option Phase :=
  (state.calls.find? fun call => call.tid == tid).map Call.phase

def goOn (state : State) (tid : Nat) (phase : Phase) : State :=
  { state with
    calls := update (fun call => call.tid == tid) (fun call => { call with phase }) state.calls }

def finish (state : State) (tid : Nat) : State :=
  { state with calls := state.calls.eraseP fun call => call.tid == tid }

/-- `++pager->ref`. -/
def reference (state : State) (handle : Nat) : State :=
  { state with
    pagers := update (fun pager => pager.handle == handle)
      (fun pager => { pager with ref := wrap (pager.ref + 1) }) state.pagers }

def pagerOf (state : State) (inode : Nat) : Option Pager :=
  state.pagers.find? fun pager => pager.inode == inode

/-- `obj_list_lookup`: an object whose last reference is gone is passed over. -/
def objListLookup (state : State) (handle : Nat) : Option Object :=
  state.objects.find? fun object => object.handle == handle && object.refcnt != 0

/-- The reference of `obj_list_lookup` and `obj->sref++`. -/
def share (state : State) (handle : Nat) : State :=
  { state with
    objects := update (fun object => object.handle == handle && object.refcnt != 0)
      (fun object => { object with refcnt := object.refcnt + 1, sref := wrap (object.sref + 1) })
      state.objects }

def setRefcnt (state : State) (id refcnt : Nat) : State :=
  { state with
    objects := update (fun object => object.id == id) (fun object => { object with refcnt })
      state.objects }

/-- `p->ref -= sref`, and the end of the pager if nothing is left. -/
def drop (state : State) (pager : Pager) (sref : Nat) : State :=
  let left := wrap (pager.ref + (2 ^ 64 - wrap sref))
  if left = 0 then
    { state with pagers := state.pagers.eraseP fun other => other.handle == pager.handle }
  else
    { state with
      pagers := update (fun other => other.handle == pager.handle)
        (fun other => { other with ref := left }) state.pagers }

end State

/-- One step, if it can be taken. -/
def exec (state : State) : Op → Option State
  | .create tid inode =>
    if state.call tid = none then
      some { state with calls := ⟨tid, .requested inode⟩ :: state.calls }
    else none
  | .search tid granted =>
    match state.call tid with
    | some (.requested inode) =>
      match state.pagerOf inode with
      | some pager =>
        some ((state.reference pager.handle).goOn tid (.referenced pager.handle))
      | none => some (if granted then state.goOn tid (.allocating inode) else state.finish tid)
    | _ => none
  | .addPager tid handle =>
    match state.call tid with
    | some (.allocating inode) =>
      match state.pagerOf inode with
      | some pager =>
        some ((state.reference pager.handle).goOn tid (.referenced pager.handle))
      | none =>
        if state.pagers.all fun pager => pager.handle != handle then
          some (({ state with pagers := ⟨handle, inode, 1⟩ :: state.pagers }).goOn tid
            (.referenced handle))
        else none
    | _ => none
  | .reply tid written =>
    match state.call tid with
    | some (.referenced handle) =>
      some (if written then state.goOn tid (.replied handle) else state.finish tid)
    | _ => none
  | .lookup tid =>
    match state.call tid with
    | some (.replied handle) =>
      match state.objListLookup handle with
      | some _ => some ((state.share handle).finish tid)
      | none => some (state.goOn tid (.missed handle))
    | _ => none
  | .allocate tid granted =>
    match state.call tid with
    | some (.missed handle) =>
      some (if granted then state.goOn tid (.allocated handle) else state.finish tid)
    | _ => none
  | .insert tid id granted =>
    match state.call tid with
    | some (.allocated handle) =>
      match state.objListLookup handle with
      | some _ => some ((state.share handle).finish tid)
      | none =>
        if state.objects.all fun object => object.id != id then
          some (({ state with
            objects := ⟨id, handle, 1, 1, !granted⟩ :: state.objects }).finish tid)
        else none
    | _ => none
  | .ref id =>
    match state.objects.find? fun object => object.id == id with
    | some object =>
      if object.refcnt = 0 then none else some (state.setRefcnt id (object.refcnt + 1))
    | none => none
  | .unref id =>
    match state.objects.find? fun object => object.id == id with
    | some object =>
      if object.refcnt = 0 then none else some (state.setRefcnt id (object.refcnt - 1))
    | none => none
  | .unlist tid id =>
    if state.call tid = none then
      match state.objects.find? fun object => object.id == id with
      | some object =>
        if object.refcnt = 0 then
          some { state with
            objects := state.objects.eraseP fun other => other.id == id
            calls := ⟨tid, .releasing object.handle object.sref⟩ :: state.calls }
        else none
      | none => none
    else none
  | .release tid =>
    match state.call tid with
    | some (.releasing handle sref) =>
      match state.pagers.find? fun pager => pager.handle == handle with
      | some pager => some ((state.drop pager sref).finish tid)
      | none => some (state.finish tid)
    | _ => none

def boot : State := ⟨[], [], []⟩

def machine : Machine State Op where
  init state := state = boot
  step state op next := exec state op = some next

end McKernel.FileObj
