import McKernel.Lib.Errno
import McKernel.Lib.Machine

/-!
# Device objects

`devobj_create`, `devobj_free` and `devobj_get_page` of `kernel/devobj.c`, with the requests to
the host that they make.  The host answers `PAGER_REQ_PFN` for a page always in the same way.
-/

namespace McKernel.Devobj

open List

/-- `PFN_PFN`. -/
def pfnMask : BitVec 64 := 0x00fffffffffff000

def isValid (pfn : BitVec 64) : Bool := pfn.getLsbD 63

def isPresent (pfn : BitVec 64) : Bool := pfn.getLsbD 0

/-- `pfn_is_write_combined`: `PFL1_PWT` without `PFL1_PCD`. -/
def isWriteCombined (pfn : BitVec 64) : Bool := pfn.getLsbD 3 && !pfn.getLsbD 4

/-- What `PAGER_REQ_PFN` answers for a page offset, and `ihk_mc_map_memory`. -/
structure Env where
  pfn : Int → Except Errno (BitVec 64)
  mapMemory : BitVec 64 → BitVec 64

structure Obj where
  pfnPgoff : Int
  npages : Nat
  pfnTable : List (BitVec 64)

/-- How the allocations of `devobj_create` and `PAGER_REQ_MAP` end; `path` is absent if the host
tells no path. -/
structure Outcome where
  kmalloc : Bool
  table : Bool
  map : Option Errno
  path : Option Bool
  deriving DecidableEq

def numPages (len : Nat) : Nat := (len + 4095) % 2 ^ 64 / 4096

/-- `devobj_create`, and whether the host has mapped the device. -/
def create (len : Nat) (off : BitVec 64) (outcome : Outcome) : Except Errno Obj × Bool :=
  if !outcome.kmalloc || !outcome.table then (.error .ENOMEM, false)
  else if let some error := outcome.map then (.error error, false)
  else if outcome.path = some false then (.error .ENOMEM, true)
  else
    let npages := numPages len
    (.ok ⟨off.toInt / 4096, npages, replicate ((npages + 511) / 512 * 512) 0⟩, true)

/-- The entry of `pfn_table` for an answer of the host. -/
def Env.entry (env : Env) (answer : BitVec 64) : BitVec 64 :=
  if isPresent answer then
    env.mapMemory (answer &&& pfnMask) &&& pfnMask ||| answer &&& ~~~pfnMask
  else answer

/-- `*physp`, and whether `VR_WRITE_COMBINED` is set. -/
def finish (pfn : BitVec 64) (writeCombined : Bool) : Except Errno (BitVec 64 × Bool) :=
  if isPresent pfn then .ok (pfn &&& pfnMask, writeCombined) else .error .EFAULT

/-- `devobj_get_page`, unless it reads outside of the table. -/
def Obj.getPage (env : Env) (obj : Obj) (off : BitVec 64) :
    Option (Except Errno (BitVec 64 × Bool) × Obj) :=
  let pgoff := off.toInt / 4096
  if pgoff < obj.pfnPgoff ∨ (obj.pfnPgoff + obj.npages) % 2 ^ 64 ≤ pgoff % 2 ^ 64 then
    some (.error .EFBIG, obj)
  else
    let ix := (BitVec.ofInt 32 (pgoff - obj.pfnPgoff)).toInt
    if ix < 0 then none
    else
      (obj.pfnTable[ix.toNat]?).map fun pfn =>
        if isValid pfn then (finish pfn false, obj)
        else
          match env.pfn pgoff with
          | .error error => (.error error, obj)
          | .ok answer =>
            (finish (env.entry answer) (isWriteCombined answer),
              { obj with pfnTable := obj.pfnTable.set ix.toNat (env.entry answer) })

/-- The object with the requests made for it, and the pages that have been handed out: the page
offset, the physical page and whether it is write-combined. -/
structure State where
  obj : Option Obj := none
  maps : Nat := 0
  unmaps : Nat := 0
  pages : List (Int × BitVec 64 × Bool) := []
  outside : Bool := false

inductive Op where
  | create (len : Nat) (off : BitVec 64) (outcome : Outcome)
  | getPage (off : BitVec 64)
  | free

def exec (env : Env) (state : State) (op : Op) : Option State :=
  match op, state.obj with
  | .create len off outcome, none =>
    let (result, mapped) := Devobj.create len off outcome
    some { state with obj := result.toOption, maps := state.maps + mapped.toNat, pages := [] }
  | .getPage off, some obj =>
    match obj.getPage env off with
    | none => some { state with outside := true }
    | some (.error _, obj) => some { state with obj := some obj }
    | some (.ok page, obj) =>
      some { state with obj := some obj, pages := (off.toInt / 4096, page) :: state.pages }
  | .free, some _ => some { state with obj := none, unmaps := state.unmaps + 1 }
  | _, _ => none

def machine (env : Env) : Machine State Op where
  init state := state = {}
  step state op next := exec env state op = some next

/-- Memory for the path is there, the offset is not negative, pages are fewer than an `int`
counts, and no write-combined page is asked for again. -/
def Regular (state : State) : Op → Prop
  | .create len off outcome => outcome.path ≠ some false ∧ 0 ≤ off.toInt ∧ numPages len ≤ 2 ^ 31
  | .getPage off => ∀ page ∈ state.pages, page.1 = off.toInt / 4096 → page.2.2 = false
  | .free => True

instance (state : State) : DecidablePred (Regular state) := fun op => by
  unfold Regular
  split <;> infer_instance

/-! ## Entries -/

theorem getLsbD_entry {env : Env} {answer : BitVec 64} {i : Nat}
    (unmasked : pfnMask.getLsbD i = false) : (env.entry answer).getLsbD i = answer.getLsbD i := by
  unfold Env.entry
  split
  · simp only [BitVec.getLsbD_or, BitVec.getLsbD_and, BitVec.getLsbD_not, unmasked, Bool.and_false,
      Bool.false_or, Bool.not_false]
    by_cases inside : i < 64
    · simp [inside]
    · simp [BitVec.getLsbD_of_ge _ _ (Nat.le_of_not_lt inside)]
  · rfl

theorem entry_and {env : Env} {answer : BitVec 64} (present : isPresent answer = true) :
    env.entry answer &&& pfnMask = env.mapMemory (answer &&& pfnMask) &&& pfnMask := by
  rw [Env.entry, if_pos present]
  ext i inside
  simp only [BitVec.getElem_and, BitVec.getElem_or, BitVec.getElem_not]
  cases pfnMask[i] <;> simp

/-! ## Pages -/

/-- A page that was handed out is the one of the host, with the attribute that it has there. -/
def Right (env : Env) (page : Int × BitVec 64 × Bool) : Prop :=
  ∃ answer, env.pfn page.1 = .ok answer ∧ isPresent answer = true ∧
    page.2 = (env.mapMemory (answer &&& pfnMask) &&& pfnMask, isWriteCombined answer)

/-- The table has room for all pages, and its entries are answers of the host, handed out if they
are present. -/
structure Obj.Ok (env : Env) (pages : List (Int × BitVec 64 × Bool)) (obj : Obj) : Prop where
  pgoff : 0 ≤ obj.pfnPgoff ∧ obj.pfnPgoff < 2 ^ 63
  npages : obj.npages ≤ 2 ^ 31 ∧ obj.npages ≤ obj.pfnTable.length
  entry : ∀ (i : Nat) pfn, obj.pfnTable[i]? = some pfn → isValid pfn = true →
    ∃ answer, env.pfn (obj.pfnPgoff + i) = .ok answer ∧ pfn = env.entry answer ∧
      (isPresent pfn = true → ∃ page ∈ pages, page.1 = obj.pfnPgoff + i)

section

variable {env : Env} {pages : List (Int × BitVec 64 × Bool)} {obj : Obj}

theorem present_of_finish {pfn : BitVec 64} {combined : Bool} {page : BitVec 64 × Bool}
    (finished : finish pfn combined = .ok page) : isPresent pfn = true := by
  unfold finish at finished
  split at finished
  · assumption
  · cases finished

theorem right_finish {pgoff : Int} {answer : BitVec 64} {page : BitVec 64 × Bool} {combined : Bool}
    (isAnswer : env.pfn pgoff = .ok answer) (same : combined = isWriteCombined answer)
    (finished : finish (env.entry answer) combined = .ok page) : Right env (pgoff, page) := by
  have present := present_of_finish finished
  rw [finish, if_pos present] at finished
  rw [isPresent, getLsbD_entry (by decide)] at present
  refine ⟨answer, isAnswer, present, ?_⟩
  rw [← Except.ok.inj finished, entry_and present, same]

theorem Obj.Ok.cons (ok : obj.Ok env pages) (page : Int × BitVec 64 × Bool) :
    obj.Ok env (page :: pages) :=
  { ok with
    entry := fun i pfn found valid => by
      obtain ⟨answer, isAnswer, isEntry, handed⟩ := ok.entry i pfn found valid
      refine ⟨answer, isAnswer, isEntry, fun present => ?_⟩
      obtain ⟨old, isOld, same⟩ := handed present
      exact ⟨old, mem_cons_of_mem _ isOld, same⟩ }

theorem Obj.Ok.set (ok : obj.Ok env pages) {i : Nat} {answer : BitVec 64}
    (isAnswer : env.pfn (obj.pfnPgoff + i) = .ok answer)
    (handed : isPresent (env.entry answer) = true → ∃ page ∈ pages, page.1 = obj.pfnPgoff + i) :
    { obj with pfnTable := obj.pfnTable.set i (env.entry answer) }.Ok env pages where
  pgoff := ok.pgoff
  npages := by simpa using ok.npages
  entry j pfn found valid := by
    rw [getElem?_set] at found
    split_ifs at found with same inside
    · cases found
      subst same
      exact ⟨answer, isAnswer, rfl, handed⟩
    · exact ok.entry j pfn found valid

theorem Obj.Ok.getPage (ok : obj.Ok env pages) (off : BitVec 64)
    (right : ∀ page ∈ pages, Right env page)
    (first : ∀ page ∈ pages, page.1 = off.toInt / 4096 → page.2.2 = false) :
    ∃ res obj', obj.getPage env off = some (res, obj') ∧
      match res with
      | .error _ => obj'.Ok env pages
      | .ok page => obj'.Ok env ((off.toInt / 4096, page) :: pages) ∧
        Right env (off.toInt / 4096, page) := by
  obtain ⟨nonneg, small⟩ := ok.pgoff
  obtain ⟨int, room⟩ := ok.npages
  have below : off.toInt < 2 ^ 63 := BitVec.toInt_lt
  unfold Obj.getPage
  simp only
  split
  · exact ⟨_, _, rfl, ok⟩
  next inside =>
    simp only [not_or, Int.not_lt, Int.not_le] at inside
    obtain ⟨i, isI⟩ := Int.eq_ofNat_of_zero_le (show 0 ≤ off.toInt / 4096 - obj.pfnPgoff by omega)
    have here : off.toInt / 4096 = obj.pfnPgoff + i := by omega
    have fits : i < obj.npages := by omega
    have index : (BitVec.ofInt 32 i).toInt = i := by
      rw [BitVec.toInt_ofInt]
      exact Int.bmod_eq_of_le (by omega) (by omega)
    rw [isI, index, if_neg (by omega), Int.toNat_natCast,
      getElem?_eq_getElem (by omega), Option.map_some]
    have found := getElem?_eq_getElem (show i < obj.pfnTable.length by omega)
    generalize obj.pfnTable[i] = pfn at found
    rw [here] at first ⊢
    by_cases valid : isValid pfn = true
    · obtain ⟨answer, isAnswer, rfl, handed⟩ := ok.entry i pfn found valid
      rw [if_pos valid]
      refine ⟨_, _, rfl, ?_⟩
      rcases finished : finish (env.entry answer) false with error | page
      · exact ok
      · obtain ⟨old, isOld, same⟩ := handed (present_of_finish finished)
        obtain ⟨_, isSame, -, same'⟩ := right old isOld
        rw [same, isAnswer] at isSame
        cases isSame
        have combined := first old isOld same
        rw [same'] at combined
        exact ⟨ok.cons _, right_finish isAnswer combined.symm finished⟩
    · rw [if_neg valid]
      rcases isAnswer : env.pfn (obj.pfnPgoff + i) with error | answer
      · exact ⟨_, _, rfl, ok⟩
      · refine ⟨_, _, rfl, ?_⟩
        rcases finished : finish (env.entry answer) (isWriteCombined answer) with error | page
        · refine ok.set isAnswer fun present => ?_
          rw [finish, if_pos present] at finished
          cases finished
        · exact ⟨(ok.cons _).set isAnswer fun _ => ⟨_, mem_cons_self, rfl⟩,
            right_finish isAnswer rfl finished⟩

end

theorem create_spec (env : Env) {len : Nat} {off : BitVec 64} {outcome : Outcome}
    (regular : outcome.path ≠ some false ∧ 0 ≤ off.toInt ∧ numPages len ≤ 2 ^ 31) :
    (∃ error, create len off outcome = (.error error, false)) ∨
      ∃ obj, create len off outcome = (.ok obj, true) ∧ obj.Ok env [] := by
  obtain ⟨path, nonneg, int⟩ := regular
  have below : off.toInt < 2 ^ 63 := BitVec.toInt_lt
  unfold create
  rw [if_neg path]
  split
  · exact .inl ⟨_, rfl⟩
  split
  · exact .inl ⟨_, rfl⟩
  · refine .inr ⟨_, rfl, ⟨by dsimp only; omega, by dsimp only; omega⟩, ⟨int, ?_⟩, ?_⟩
    · simp only [length_replicate]
      omega
    · intro i pfn found valid
      rw [getElem?_replicate] at found
      split_ifs at found
      cases found
      cases valid

/-- One request to unmap for each to map, but for an object that is there; and no page but those
of the host has been handed out. -/
structure Sound (env : Env) (state : State) : Prop where
  balance : state.maps = state.unmaps + state.obj.isSome.toNat
  inside : state.outside = false
  obj : ∀ obj ∈ state.obj, obj.Ok env state.pages
  pages : ∀ page ∈ state.pages, Right env page

theorem Sound.exec {env : Env} {state next : State} {op : Op} (sound : Sound env state)
    (regular : Regular state op) (taken : Devobj.exec env state op = some next) :
    Sound env next := by
  obtain ⟨balance, inside, isObj, pages⟩ := sound
  unfold Devobj.exec at taken
  split at taken
  next len off outcome none =>
    rw [none] at balance
    rcases create_spec env regular with ⟨error, failed⟩ | ⟨obj, created, ok⟩
    · rw [failed] at taken
      cases taken
      exact ⟨balance, inside, nofun, nofun⟩
    · rw [created] at taken
      cases taken
      exact ⟨congrArg (· + 1) balance, inside, by rintro _ ⟨⟩; exact ok, nofun⟩
  next off obj some =>
    obtain ⟨res, obj', got, after⟩ := (isObj obj some).getPage off pages regular
    rw [got] at taken
    rw [some] at balance
    rcases res with error | page <;> cases taken
    · exact ⟨balance, inside, by rintro _ ⟨⟩; exact after, pages⟩
    · refine ⟨balance, inside, by rintro _ ⟨⟩; exact after.1, ?_⟩
      rintro _ (_ | ⟨_, old⟩)
      · exact after.2
      · exact pages _ old
  next obj some =>
    cases taken
    refine ⟨?_, inside, nofun, pages⟩
    rw [some] at balance
    exact balance
  · cases taken

/-- If memory for the path is there, offsets are not negative, pages are fewer than an `int` counts
and no write-combined page is asked for again: every mapping of the host is given back once, no
access is outside of the table, and the pages handed out are those of the host with the attribute
that they have there, for an offset always the same. -/
theorem device_pages_right {env : Env} {state : State}
    (reached : ((machine env).restrict Regular).Reachable state) :
    state.maps = state.unmaps + state.obj.isSome.toNat ∧ state.outside = false ∧
      (∀ page ∈ state.pages, Right env page) ∧
      ∀ page ∈ state.pages, ∀ other ∈ state.pages, page.1 = other.1 → page = other := by
  have sound : Sound env state := by
    refine reached.invariant (Sound env) ?_ ?_
    · rintro _ rfl
      exact ⟨rfl, rfl, nofun, nofun⟩
    · rintro state op next - sound ⟨regular, taken⟩
      exact sound.exec regular taken
  refine ⟨sound.balance, sound.inside, sound.pages, fun page isPage other isOther same => ?_⟩
  obtain ⟨answer, isAnswer, -, right⟩ := sound.pages page isPage
  obtain ⟨answer', isAnswer', -, right'⟩ := sound.pages other isOther
  rw [same, isAnswer'] at isAnswer
  cases isAnswer
  exact Prod.ext same (right.trans right'.symm)

/-- Page 1 is write-combined, and no other. -/
def hostEnv : Env :=
  ⟨fun page => .ok (if page = 1 then 0x8000000000005009 else 0x8000000000006001), id⟩

/-- A write-combined page and one that is asked for twice, before the object is freed. -/
theorem device_pages_right_freed :
    ∃ state, ((machine hostEnv).restrict Regular).Reachable state ∧
      state.obj.isSome = false ∧ state.maps = state.unmaps ∧ (1, 0x5000, true) ∈ state.pages ∧
      Right hostEnv (1, 0x5000, true) := by
  obtain ⟨state, reached, gone, isPage⟩ : ∃ state,
      ((machine hostEnv).restrict Regular).Reachable state ∧ state.obj.isSome = false ∧
        (1, 0x5000, true) ∈ state.pages :=
    Machine.exists_restrict_run (fun _ _ => of_decide_eq_true) rfl (fun _ _ _ => id)
      [.create 0x3000 0 ⟨true, true, none, some true⟩, .getPage 0x1000, .getPage 0, .getPage 0,
        .free] (by decide +kernel)
  obtain ⟨balance, -, right, -⟩ := device_pages_right reached
  rw [gone] at balance
  exact ⟨state, reached, gone, balance, isPage, right _ isPage⟩

/-- The second fault on a write-combined page finds it without the attribute, and an object
without memory for its path leaves the mapping of the host behind. -/
theorem device_pages_wrong :
    (∃ state, (machine hostEnv).Reachable state ∧
      state.pages = [(1, 0x5000, false), (1, 0x5000, true)]) ∧
    ∃ state, (machine hostEnv).Reachable state ∧ state.maps = 1 ∧ state.unmaps = 0 ∧
      state.obj.isNone = true :=
  ⟨Machine.exists_run rfl (fun _ _ _ => id)
      [.create 0x3000 0 ⟨true, true, none, none⟩, .getPage 0x1000, .getPage 0x1000]
      (by decide +kernel),
    Machine.exists_run rfl (fun _ _ _ => id) [.create 0x3000 0 ⟨true, true, none, some false⟩]
      (by decide +kernel)⟩

end McKernel.Devobj
