import McKernel.Procfs.Handler

/-!
# Procfs requests are answered once

Every call of the handler answers or leaves the request in the backlog, never both, so that
over a whole run each request has one answer or is waiting for it.  For what is taken on the
way, the labels `end`, `err` and `out` are right if the output is complete or gone when they
are reached; the condition excludes the paths on which it is neither.
-/

namespace McKernel.Procfs.Handler

open Nat

/-! ## Output -/

/-- What is owed besides the output, and the buffer is not overrun. -/
structure Good (size : Nat) (owed : List Resource) (acc : Acc) : Prop where
  owes : acc.ledger.Owes (chain acc.pages ++ owed)
  stored : acc.stored ≤ size

/-- A failure leaves no output behind. -/
structure GoodResult (size : Nat) (owed : List Resource) (result : Acc × Bool) : Prop where
  good : Good size owed result.1
  gone : result.2 = false → result.1.pages = 0

variable {id len : Nat} {query : Query} {resource : Resource} {s : State}

section Output

variable {env : Env} {size : Nat} {owed : List Resource} {acc : Acc}

theorem Good.take (good : Good size owed acc) :
    Good size (resource :: owed) (acc.take resource) where
  owes := good.owes.take.perm List.perm_middle.symm
  stored := good.stored

theorem Good.giveBack (good : Good size (resource :: owed) acc) :
    Good size owed (acc.giveBack resource) where
  owes := (good.owes.perm List.perm_middle).giveBack
  stored := good.stored

section

variable (good : Good size owed acc)
include good

theorem Good.perm (same : owed.Perm o) :
    Good size o acc where
  owes := good.owes.perm (same.append_left _)
  stored := good.stored

theorem Good.bufFree : Good size owed acc.bufFree where
  owes := Ledger.Owes.giveBackAll (chain acc.pages) good.owes
  stored := good.stored

theorem Good.bufAlloc (allocated : acc.bufAlloc env = some next) : Good size owed next := by
  unfold Acc.bufAlloc at allocated
  split at allocated
  · cases allocated
    exact ⟨good.owes.take, good.stored⟩
  · exact nomatch allocated

theorem Good.room (room : Nat) :
    Good size owed { acc with room := room } :=
  ⟨good.owes, good.stored⟩

theorem Good.bufLoop (fuel len : Nat) :
    GoodResult size owed (bufLoop env fuel len acc) := by
  induction fuel generalizing len acc with
  | zero => exact ⟨good, fun failed => nomatch failed⟩
  | succ fuel ih =>
    rw [Handler.bufLoop]
    split
    · exact ⟨good, fun failed => nomatch failed⟩
    · split
      · split
        · exact ⟨good.bufFree, fun _ => rfl⟩
        next allocated => exact ih ((good.bufAlloc allocated).room _) _
      · exact ih (good.room _) _

theorem Good.bufAdd (len : Nat) :
    GoodResult size owed (bufAdd env len acc) := by
  unfold Handler.bufAdd
  split
  next empty =>
    split
    · exact ⟨good, fun _ => empty⟩
    next allocated => exact (good.bufAlloc allocated).bufLoop len len
  · exact good.bufLoop len len

theorem Good.snprintf (len : Nat) :
    Good size owed (snprintf size len acc) :=
  ⟨good.owes, Nat.max_le.mpr ⟨good.stored, Nat.min_le_right _ _⟩⟩

theorem Good.printLine (fits : len ≤ size) :
    GoodResult size owed (printLine env size len acc) := by
  simp only [Handler.printLine, if_neg (not_lt.mpr fits)]
  exact (good.snprintf len).bufAdd len

theorem Good.printLines
    (fit : ∀ len ∈ lines, len ≤ size) : GoodResult size owed (printLines env size lines acc) := by
  induction lines generalizing acc with
  | nil => exact ⟨good, fun failed => nomatch failed⟩
  | cons len rest ih =>
    have first : GoodResult size owed (Handler.printLine env size len acc) :=
      good.printLine (fit len List.mem_cons_self)
    rw [Handler.printLines]
    split
    next res =>
      rw [res] at first
      exact ⟨first.good, fun _ => first.gone rfl⟩
    next res =>
      rw [res] at first
      exact ih first.good fun o isOther => fit o (List.mem_cons_of_mem len isOther)

end

theorem bufLoop_of_le (fits : len ≤ acc.room) :
    (bufLoop env fuel len acc).2 = true := by
  cases fuel with
  | zero => rfl
  | succ fuel =>
    rw [bufLoop]
    split
    · rfl
    next some =>
      rw [if_neg (by omega), Nat.min_eq_right fits, Nat.sub_self]
      cases fuel <;> rfl

theorem printLine_of_le (empty : acc.pages = 0) (first : env.page 0 = true)
    (fits : len ≤ bufMax) (short : len ≤ size) : (printLine env size len acc).2 = true := by
  have allocated : ∃ next, (snprintf size len acc).bufAlloc env = some next ∧
      next.room = bufMax := by
    refine ⟨_, if_pos ?_, rfl⟩
    rw [show (snprintf size len acc).pages = 0 from empty]
    exact first
  obtain ⟨next, isNext, room⟩ := allocated
  simp only [printLine, if_neg (not_lt.mpr short), bufAdd,
    show (snprintf size len acc).pages = 0 from empty, if_true, isNext]
  exact bufLoop_of_le (room ▸ fits)

end Output

/-! ## Entries -/

/-- Ready for the label: no wild pointer, and output only where `r->pbuf` takes it over. -/
def Fine (hasBuf : Bool) (size : Nat) (owed : List Resource) : Exit × Acc → Prop
  | (.fault, _) => False
  | (.toEnd _, acc) => Good size owed acc ∧ (hasBuf = true → acc.pages = 0)
  | (.toErr _, acc) => Good size owed acc ∧ acc.pages = 0
  | (.toOut, acc) => Good size owed acc ∧ acc.pages = 0

section Entries

variable {env : Env} {hasBuf : Bool} {size : Nat} {owed : List Resource} {acc : Acc}

theorem endOr_fine (good : GoodResult size owed res) :
    Fine false size owed (endOr res) := by
  unfold endOr
  split
  · exact ⟨good.good, fun none => nomatch none⟩
  next failed => exact ⟨good.good, good.gone (eq_false_of_ne_true failed)⟩

theorem again_fine (good : Good size owed acc) (empty : acc.pages = 0) (retry : Bool) :
    Fine hasBuf size owed (again env retry, acc) := by
  unfold again
  split
  · exact ⟨good, empty⟩
  · split
    · exact ⟨good, empty⟩
    · exact ⟨good, empty⟩

theorem memLoop_copied (pages : Nat → PageOutcome) (fuel off left ans : Nat) :
    (memLoop pages fuel off left ans).2 ≤ ans + left := by
  induction fuel generalizing off left ans with
  | zero => exact le_add_right ans left
  | succ fuel ih =>
    rw [memLoop]
    split
    · exact le_add_right ans left
    · simp only
      split
      · exact le_add_right ans left
      · exact le_add_right ans left
      · refine le_trans (ih _ _ _) ?_
        omega

theorem pagemapLoop_le (fuel start end_ : Nat) : pagemapLoop fuel start end_ ≤ fuel := by
  induction fuel generalizing start with
  | zero => exact le_refl 0
  | succ fuel ih =>
    rw [pagemapLoop]
    split
    · exact succ_le_succ (ih _)
    · exact zero_le _

theorem pagemap_stored (request : Request) : request.pagemap.2 ≤ request.count := by
  unfold Request.pagemap
  split
  · exact zero_le _
  next aligned =>
    have part := pagemapLoop_le (request.count / 8) request.start request.end_
    omega

variable {proc : Proc}

section

variable (good : Good size owed acc)
include good

theorem mem_fine (empty : acc.pages = 0) (hasVm : proc.hasVm = true) (fits : query.count ≤ size) :
    Fine hasBuf size owed (mem env query readwrite proc acc) := by
  have copied := memLoop_copied env.mem query.count query.offset query.count 0
  rw [zero_add] at copied
  simp only [mem, hasVm, Bool.not_true, Bool.false_eq_true, if_false]
  split
  · exact ⟨good, fun _ => empty⟩
  · exact ⟨⟨good.owes, le_trans copied fits⟩, fun _ => empty⟩

theorem maps_fine (empty : acc.pages = 0)
    (hasVm : proc.hasVm = true) (fit : ∀ len ∈ env.mapLines, len ≤ size) :
    Fine false size owed (maps env retry size proc acc) := by
  simp only [maps, hasVm, Bool.not_true, Bool.false_eq_true, if_false]
  split
  · exact again_fine good empty retry
  · have printed : GoodResult size (.rangeLock :: owed)
        (printLines env size env.mapLines (acc.take .rangeLock)) := good.take.printLines fit
    exact endOr_fine ⟨printed.good.giveBack, printed.gone⟩

theorem pagemap_fine (empty : acc.pages = 0) (hasVm : proc.hasVm = true) :
    Fine hasBuf size owed (pagemap env retry query size proc acc) := by
  simp only [pagemap, hasVm, Bool.not_true, Bool.false_eq_true, if_false]
  split
  · exact ⟨good, fun _ => empty⟩
  · split
    · exact again_fine good empty retry
    · have stored := pagemap_stored ⟨.pagemap, false, query.offset, size⟩
      have locked : Good size (.rangeLock :: owed) (acc.take .rangeLock) := good.take
      exact ⟨Good.giveBack ⟨locked.owes, stored⟩, fun _ => empty⟩

theorem status_fine (empty : acc.pages = 0)
    (hasVm : proc.hasVm = true) (free : env.trylock = true) (first : env.page 0 = true)
    (short : env.statusLine ≤ bufMax) (fits : env.statusLine ≤ size)
    (fit : ∀ len ∈ env.statusLines, len ≤ size) :
    Fine false size owed (status env retry size proc acc) := by
  simp only [status, hasVm, free, Bool.not_true, Bool.false_eq_true, if_false]
  split
  · exact ⟨good, empty⟩
  · have masks : Good size (.bitmasks :: owed) (acc.take .bitmasks) := good.take
    have locked : Good size (.bitmasks :: owed)
        (((acc.take .bitmasks).take .rangeLock).giveBack .rangeLock) := masks.take.giveBack
    generalize quiet : ((((acc.take .bitmasks).take .rangeLock).giveBack .rangeLock).take
      .threadsLock).giveBack .threadsLock = before
    have counted : Good size (.bitmasks :: owed) before := quiet ▸ locked.take.giveBack
    have still : before.pages = 0 := quiet ▸ empty
    have printed : GoodResult size (.bitmasks :: owed) (printLine env size env.statusLine before) :=
      counted.printLine fits
    have succeeds : (printLine env size env.statusLine before).2 = true :=
      printLine_of_le still first short fits
    split
    next failed =>
      rw [failed] at succeeds
      exact nomatch succeeds
    next res =>
      rw [res] at printed
      have others : GoodResult size (.bitmasks :: owed) (printLines env size env.statusLines _) :=
        printed.good.printLines fit
      exact endOr_fine ⟨others.good.giveBack, others.gone⟩

theorem unchecked_fine :
    Fine false size owed (unchecked env size acc) :=
  endOr_fine ((good.snprintf env.line).bufAdd env.line)

theorem stat_fine (fits : env.line ≤ size) :
    Fine false size owed (stat env size acc) :=
  endOr_fine (good.take.giveBack.printLine fits)

end

end Entries

/-! ## The condition -/

/-- An entry of a process: there is a `vm` where one is used, `mem` without a buffer fits into
our own page, output is asked for without a buffer and line by line fits into that page, and
`status` gets its lock and prints its first line. -/
def regularEntry (env : Env) (query : Query) (proc : Proc) (entry : List Char) : Bool :=
  if entry = "mem".toList then proc.hasVm && (query.hasBuf || query.count ≤ pageSize)
  else if entry = "maps".toList then
    proc.hasVm && !query.hasBuf && env.mapLines.all (· ≤ pageSize)
  else if entry = "pagemap".toList then proc.hasVm
  else if entry = "status".toList then
    proc.hasVm && !query.hasBuf && env.trylock && env.page 0 && env.statusLine ≤ bufMax &&
      env.statusLines.all (· ≤ pageSize)
  else if entry = "auxv".toList then !query.hasBuf
  else if entry = "cmdline".toList then !query.hasBuf
  else if entry = "comm".toList then !query.hasBuf
  else if entry = "stat".toList then !query.hasBuf && env.line ≤ pageSize
  else true

/-- A path behind `mcos%d/` with a pid: if the process exists, the slashes do, and the thread. -/
def regularProcess (env : Env) (query : Query) (pid : Int) (path : List Char) : Bool :=
  match (if pid ≤ 0 then none else env.process pid) with
  | none => true
  | some proc =>
    match (behindSlash path).bind (task pid) with
    | none => false
    | some (tid, entry) => tid ∈ proc.threads && regularEntry env query proc entry

/-- The requests that are dealt with as they should be. -/
def regular (env : Env) (query : Query) : Bool :=
  match sscanf "mcos".toList query.fname with
  | none => true
  | some rosnum =>
    if env.osnum ≠ rosnum then true
    else
      match behindSlash query.fname with
      | none => false
      | some path =>
        match sscanf [] path with
        | some pid => regularProcess env query pid path
        | none =>
          if path = "mckernel".toList then !query.hasBuf
          else if path = "stat".toList then
            !query.hasBuf && env.cpuLines.all (· ≤ pageSize)
          else true

/-! ## The handler -/

def Query.size (query : Query) : Nat := if query.hasBuf then query.count else pageSize

theorem processEntry_fine (retry readwrite : Bool)
    (isRegular : regularEntry env query proc entry = true)
    (good : Good query.size owed acc) (empty : acc.pages = 0) :
    Fine query.hasBuf query.size owed
      (processEntry env retry query readwrite query.size proc entry acc) := by
  have whole (noBuf : query.hasBuf = false) : query.size = pageSize := by
    rw [Query.size, noBuf]
    rfl
  unfold regularEntry at isRegular
  unfold processEntry
  split
  next isMem =>
    rw [if_pos isMem] at isRegular
    simp only [Bool.and_eq_true, Bool.or_eq_true, decide_eq_true_eq] at isRegular
    refine mem_fine good empty isRegular.1 ?_
    unfold Query.size
    split
    · exact le_refl _
    next noBuf => exact isRegular.2.resolve_left noBuf
  next notMem =>
  rw [if_neg notMem] at isRegular
  split
  next isMaps =>
    rw [if_pos isMaps] at isRegular
    simp only [Bool.and_eq_true, Bool.not_eq_true', List.all_eq_true, decide_eq_true_eq]
      at isRegular
    obtain ⟨⟨hasVm, noBuf⟩, fit⟩ := isRegular
    rw [← whole noBuf] at fit
    rw [noBuf]
    exact maps_fine good empty hasVm fit
  next notMaps =>
  rw [if_neg notMaps] at isRegular
  split
  next isPagemap =>
    rw [if_pos isPagemap] at isRegular
    exact pagemap_fine good empty isRegular
  next notPagemap =>
  rw [if_neg notPagemap] at isRegular
  split
  next isStatus =>
    rw [if_pos isStatus] at isRegular
    simp only [Bool.and_eq_true, Bool.not_eq_true', List.all_eq_true, decide_eq_true_eq]
      at isRegular
    obtain ⟨⟨⟨⟨⟨hasVm, noBuf⟩, free⟩, first⟩, short⟩, fit⟩ := isRegular
    have fits : env.statusLine ≤ query.size := by
      rw [whole noBuf]
      exact le_trans short (by decide)
    rw [← whole noBuf] at fit
    rw [noBuf]
    exact status_fine good empty hasVm free first short fits fit
  next notStatus =>
  rw [if_neg notStatus] at isRegular
  split
  next isAuxv =>
    rw [if_pos isAuxv, Bool.not_eq_true'] at isRegular
    rw [isRegular]
    exact endOr_fine (good.bufAdd auxvLen)
  next notAuxv =>
  rw [if_neg notAuxv] at isRegular
  split
  next isCmdline =>
    rw [if_pos isCmdline, Bool.not_eq_true'] at isRegular
    rw [isRegular]
    exact endOr_fine (good.bufAdd _)
  next notCmdline =>
  rw [if_neg notCmdline] at isRegular
  split
  next isComm =>
    rw [if_pos isComm, Bool.not_eq_true'] at isRegular
    rw [isRegular]
    exact unchecked_fine good
  next notComm =>
  rw [if_neg notComm] at isRegular
  split
  next isStat =>
    rw [if_pos isStat] at isRegular
    simp only [Bool.and_eq_true, Bool.not_eq_true', decide_eq_true_eq] at isRegular
    rw [isRegular.1]
    exact stat_fine good (whole isRegular.1 ▸ isRegular.2)
  · exact ⟨good, fun _ => empty⟩

def Query.held (query : Query) : Held := ⟨query.hasBuf, none, .null⟩

def Pointer.Live (pointer : Pointer) (env : Env) : Prop :=
  ∃ pid proc tid, env.process pid = some proc ∧ tid ∈ proc.threads ∧ pointer = .thread tid

/-- What goes on to the labels. -/
structure Ready (env : Env) (query : Query) (result : Held × Exit × Acc) : Prop where
  hasBuf : result.1.hasBuf = query.hasBuf
  fine : Fine query.hasBuf query.size result.1.resources result.2
  thread : result.1.thread = .null ∨ result.1.thread.Live env

theorem ready_of_fine (fine : Fine query.hasBuf query.size query.held.resources res) :
    Ready env query (query.held, res) :=
  ⟨rfl, fine, .inl rfl⟩

theorem resources_perm (hasBuf hasVm : Bool) (t : Pointer) :
    ((if hasVm then [Resource.vm] else []) ++ .proc :: .thread :: .hashLock ::
      Held.resources ⟨hasBuf, none, .null⟩).Perm
        (.hashLock :: Held.resources ⟨hasBuf, some hasVm, t⟩) := by
  change List.Perm _ (.hashLock :: Held.resources ⟨hasBuf, some hasVm, .null⟩)
  cases hasBuf <;> cases hasVm <;> decide

theorem held_good (hasVm : Bool) (t : Pointer)
    (good : Good query.size query.held.resources acc) :
    Good query.size { query.held with proc := some hasVm, thread := t }.resources
      ((if hasVm then
          (((((acc.take .hashLock).take .threadsLock).take .thread).giveBack .threadsLock).take
            .proc).take .vm
        else
          ((((acc.take .hashLock).take .threadsLock).take .thread).giveBack .threadsLock).take
            .proc).giveBack .hashLock) := by
  generalize query.size = size at good ⊢
  unfold Query.held at good ⊢
  generalize query.hasBuf = hasBuf at good ⊢
  have threads : Good size (.thread :: .hashLock :: Held.resources ⟨hasBuf, none, .null⟩)
      ((((acc.take .hashLock).take .threadsLock).take .thread).giveBack .threadsLock) :=
    Good.giveBack (good.take.take.take.perm (List.Perm.swap ..))
  refine Good.giveBack ?_
  cases hasVm
  · exact threads.take.perm (resources_perm hasBuf false t)
  · exact threads.take.take.perm (resources_perm hasBuf true t)

theorem processPath_ready
    (retry readwrite : Bool) (isRegular : regularProcess env query pid path = true)
    (good : Good query.size query.held.resources acc) (empty : acc.pages = 0) :
    Ready env query
      (processPath env retry query readwrite query.size pid path query.held acc) := by
  unfold regularProcess at isRegular
  unfold processPath
  split
  · exact ready_of_fine ⟨good, fun _ => empty⟩
  next proc isProc =>
    rw [isProc] at isRegular
    split
    next wild =>
      rw [wild] at isRegular
      cases isRegular
    next tid entry target =>
      rw [target] at isRegular
      simp only [Bool.and_eq_true, decide_eq_true_eq] at isRegular
      have found : env.process pid = some proc := by
        split at isProc
        · cases isProc
        · exact isProc
      have known : lookup proc.threads tid = .thread tid := if_pos isRegular.1
      refine ⟨rfl, ?_, .inr ⟨pid, proc, tid, found, isRegular.1, known⟩⟩
      refine processEntry_fine retry readwrite isRegular.2
        (held_good proc.hasVm (lookup proc.threads tid) good) ?_
      cases proc.hasVm
      · exact empty
      · exact empty

theorem dispatch_ready (retry readwrite : Bool) (isRegular : regular env query = true)
    (good : Good query.size query.held.resources acc) (empty : acc.pages = 0) :
    Ready env query (dispatch env retry query readwrite query.size query.held acc) := by
  unfold regular at isRegular
  unfold dispatch
  split
  · exact ready_of_fine ⟨good, fun _ => empty⟩
  next rosnum isMcos =>
    rw [isMcos] at isRegular
    simp only at isRegular
    split
    · exact ready_of_fine ⟨good, fun _ => empty⟩
    next same =>
      rw [if_neg same] at isRegular
      split
      next wild =>
        rw [wild] at isRegular
        cases isRegular
      next path isPath =>
        rw [isPath] at isRegular
        simp only at isRegular
        split
        next pid isPid =>
          rw [isPid] at isRegular
          exact processPath_ready retry readwrite isRegular good empty
        next notPid =>
          rw [notPid] at isRegular
          split
          next isVersion =>
            rw [if_pos isVersion, Bool.not_eq_true'] at isRegular
            refine ready_of_fine ?_
            rw [isRegular]
            exact unchecked_fine good
          next notVersion =>
            rw [if_neg notVersion] at isRegular
            split
            next isStat =>
              rw [if_pos isStat] at isRegular
              simp only [Bool.and_eq_true, Bool.not_eq_true', List.all_eq_true,
                decide_eq_true_eq] at isRegular
              refine ready_of_fine ?_
              have whole : query.size = pageSize := by
                rw [Query.size, isRegular.1]
                rfl
              rw [isRegular.1]
              exact endOr_fine (good.printLines (whole ▸ isRegular.2))
            · exact ready_of_fine ⟨good, fun _ => empty⟩

/-- A request that has been dealt with as it should be: its buffer is not overrun, everything
that was taken has been released as often, and the thread was one of the process. -/
structure Clean (query : Query) (env : Env) (done : Done) : Prop where
  stored : done.stored ≤ query.size
  released : done.ledger.Owes []
  thread : done.thread = .null ∨ done.thread.Live env

theorem conclude_clean (ready : Ready env query res) :
    ∃ done, conclude res = some done ∧ Clean query env done := by
  obtain ⟨held, exit, acc⟩ := res
  obtain ⟨hasBuf, fine, t⟩ := ready
  have out {owing : Acc} (good : Good query.size held.resources owing)
      (empty : owing.pages = 0) :
      (held.resources.foldl Ledger.giveBack owing.ledger).Owes [] := by
    refine Ledger.Owes.giveBackAll _ ?_
    have owes := good.owes
    rw [empty] at owes
    exact owes.perm (by rw [chain, List.nil_append, List.append_nil])
  cases exit with
  | fault => exact absurd fine id
  | toEnd ans =>
    refine ⟨_, rfl, ?_, ?_, t⟩
    · simp only
      split
      · exact fine.1.stored
      · exact fine.1.stored
    · simp only
      split
      next isBuf => exact out fine.1 (fine.2 (hasBuf ▸ isBuf))
      · exact out fine.1.bufFree rfl
  | toErr err => exact ⟨_, rfl, fine.1.stored, out fine.1 fine.2, t⟩
  | toOut => exact ⟨_, rfl, fine.1.stored, out fine.1 fine.2, t⟩

theorem handle_clean (isRegular : regular env query = true)
    (retry : Bool) : ∃ done, handle env retry query = some done ∧ Clean query env done := by
  have nothing : ({} : Ledger Resource).Owes [] := Ledger.owes_empty
  have mapped : (Ledger.take (Ledger.take {} Resource.parg) .request).Owes [.request, .parg] :=
    nothing.take.take
  unfold handle
  split
  · exact ⟨_, rfl, zero_le _, nothing.take.giveBack, .inl rfl⟩
  · split
    · exact ⟨_, rfl, zero_le _, mapped.giveBack.giveBack, .inl rfl⟩
    · split
      next isBuf =>
        split
        · exact ⟨_, rfl, zero_le _, mapped.take.giveBack.giveBack.giveBack, .inl rfl⟩
        · have size : query.size = query.count := if_pos isBuf
          have held : query.held = ⟨true, none, .null⟩ := by rw [Query.held, isBuf]
          have ready := @dispatch_ready query env ⟨((Ledger.take (Ledger.take {} Resource.parg)
            .request).take .pbuf).take .vbuf, 0, 0, 0⟩ retry query.readwrite isRegular
              ⟨held ▸ mapped.take.take, zero_le _⟩ rfl
          rw [← size, ← held]
          exact conclude_clean ready
      next noBuf =>
        split
        · exact ⟨_, rfl, zero_le _, mapped.giveBack.giveBack, .inl rfl⟩
        · have size : query.size = pageSize := if_neg noBuf
          have held : query.held = ⟨false, none, .null⟩ := by
            rw [Query.held, eq_false_of_ne_true noBuf]
          have tmp : (Ledger.take (Ledger.take (Ledger.take {} Resource.parg) .request) .tmp).Owes
              query.held.resources := by
            rw [held]
            exact mapped.take.perm (by decide)
          have ready := @dispatch_ready query env ⟨_, 0, 0, 0⟩ retry false isRegular
            ⟨tmp, zero_le _⟩ rfl
          rw [← size, ← held]
          exact conclude_clean ready

/-! ## Answers -/

variable {done : Done}

theorem answers_length (isDone : handle env retry query = some done) :
    done.answers.length = if done.requeued then 0 else 1 := by
  have concluded {res : Held × Exit × Acc} (isDone : conclude res = some done) :
      done.answers.length = if done.requeued then 0 else 1 := by
    obtain ⟨held, exit, acc⟩ := res
    cases exit with
    | fault => exact nomatch isDone
    | toEnd ans =>
      cases isDone
      rfl
    | toErr err =>
      cases isDone
      rfl
    | toOut =>
      cases isDone
      rfl
  unfold handle at isDone
  split at isDone
  · cases isDone
    rfl
  · split at isDone
    · cases isDone
      rfl
    · split at isDone
      · split at isDone
        · cases isDone
          rfl
        · exact concluded isDone
      · split at isDone
        · cases isDone
          rfl
        · exact concluded isDone

/-- Each request is answered once or waits in the backlog. -/
def State.Balanced (state : State) : Prop :=
  ∀ id, state.answered.count id + (state.backlog.map Prod.fst).count id =
    if id ∈ state.arrived then 1 else 0

theorem count_answers (isDone : handle env retry query = some done) (id o : Nat) :
    (done.answers.map fun _ => id).count o =
      if o = id then (if done.requeued then 0 else 1) else 0 := by
  rw [List.map_const', List.count_replicate, answers_length isDone]
  by_cases same : o = id
  · simp [same]
  · simp [same, Ne.symm same]

theorem Balanced.arrive (balanced : s.Balanced)
    (fresh : id ∉ s.arrived) (isDone : handle env false query = some done) :
    State.Balanced
      { arrived := id :: s.arrived
        backlog := if done.requeued then s.backlog ++ [(id, query)] else s.backlog
        answered := done.answers.map (fun _ => id) ++ s.answered
        log := (query, env, done) :: s.log } := by
  intro o
  have before := balanced o
  have added : ((if done.requeued then s.backlog ++ [(id, query)]
      else s.backlog).map Prod.fst).count o = (s.backlog.map Prod.fst).count o +
        if o = id then (if done.requeued then 1 else 0) else 0 := by
    cases done.requeued
    · simp only [Bool.false_eq_true, if_false, ite_self, add_zero]
    · by_cases same : o = id
      · simp [same]
      · simp [same, Ne.symm same]
  simp only [List.count_append, count_answers isDone, added]
  by_cases same : o = id
  · subst same
    rw [if_neg fresh] at before
    simp only [if_true, List.mem_cons_self]
    split
    · omega
    · omega
  · simp only [same, if_false, List.mem_cons, false_or]
    omega

theorem Balanced.retry (balanced : s.Balanced)
    (waiting : (id, query) ∈ s.backlog) (isDone : handle env true query = some done) :
    State.Balanced
      { s with
        backlog := if done.requeued then s.backlog else s.backlog.erase (id, query)
        answered := done.answers.map (fun _ => id) ++ s.answered
        log := (query, env, done) :: s.log } := by
  intro o
  have before := balanced o
  have parts := ((List.perm_cons_erase waiting).map Prod.fst).count_eq o
  rw [List.map_cons, List.count_cons] at parts
  simp only [List.count_append, count_answers isDone]
  cases done.requeued
  · by_cases same : o = id
    · simp only [same, if_true, beq_self_eq_true, Bool.false_eq_true, if_false] at *
      omega
    · have ne : (id == o) = false := beq_eq_false_iff_ne.mpr (Ne.symm same)
      simp only [same, if_false, ne, Bool.false_eq_true] at *
      omega
  · simp only [if_true, ite_self]
    omega

/-! ## Runs -/

def State.regular (_state : State) : Op → Bool
  | .arrive _ query env => Handler.regular env query
  | .retry _ query env => Handler.regular env query

/-- What a run has made of the requests. -/
structure Served (state : State) : Prop where
  answered : state.Balanced
  /-- The buffer was not overrun, everything was released, the thread was alive. -/
  clean : ∀ query env done, (query, env, done) ∈ state.log → Clean query env done

theorem served_of_exec (served : Served s)
    (isRegular : s.regular op = true) (taken : exec s op = some next) :
    Served next := by
  have logged {query : Query} {env : Env} {done : Done} {retry : Bool}
      (isRegular : regular env query = true) (isDone : handle env retry query = some done)
      (o : Query) (found : Env) (res : Done)
      (isLogged : (o, found, res) ∈ (query, env, done) :: s.log) :
      Clean o found res := by
    rcases List.mem_cons.mp isLogged with same | isLogged
    · obtain ⟨rfl, rfl, rfl⟩ : o = query ∧ found = env ∧ res = done := by
        simpa using same
      obtain ⟨clean, isClean, holds⟩ := handle_clean isRegular retry
      cases isDone.symm.trans isClean
      exact holds
    · exact served.clean o found res isLogged
  cases op with
  | arrive id query env =>
    simp only [exec] at taken
    split at taken
    · exact nomatch taken
    next fresh =>
      obtain ⟨done, isDone, rfl⟩ := Option.map_eq_some_iff.mp taken
      exact ⟨Balanced.arrive served.answered fresh isDone, logged isRegular isDone⟩
  | retry id query env =>
    simp only [exec] at taken
    split at taken
    next waiting =>
      obtain ⟨done, isDone, rfl⟩ := Option.map_eq_some_iff.mp taken
      exact ⟨Balanced.retry served.answered waiting isDone, logged isRegular isDone⟩
    · exact nomatch taken

/-- In every run of regular requests each is answered once or waits in the backlog, and none of
them is dealt with otherwise than it should be; and a regular request can always be handled. -/
theorem requests_served {state : State}
    (reached : (machine.restrict fun state op => state.regular op = true).Reachable state) :
    Served state ∧ ∀ env retry query, regular env query = true →
      (handle env retry query).isSome = true := by
  constructor
  · refine reached.invariant Served ?_ ?_
    · rintro state rfl
      exact ⟨fun _ => rfl, fun _ _ _ none => nomatch none⟩
    · intro state op next _ served taken
      exact served_of_exec served taken.1 taken.2
  · intro env retry query isRegular
    obtain ⟨done, isDone, _⟩ := handle_clean isRegular retry
    rw [isDone]
    rfl

def twoRanges (trylock : Bool) : Env where
  osnum := 0
  requestMapped := true
  tmpPage := true
  bufMapped := true
  process pid := if pid = 5 then some ⟨[5, 6], true, none⟩ else none
  trylock := trylock
  backlog := 0
  bitmasks := true
  page _ := true
  mem _ := .ok
  cpuLines := [5, 5]
  mapLines := [73, 81]
  statusLine := 90
  statusLines := [20, 20, 20, 20]
  line := 60

def asks (fname : String) : Query := ⟨.request, fname.toList, 0, 4096, false, false⟩

/-- The lock of the ranges is taken when a request for `maps` arrives; it is answered from the
backlog.  A process that does not exist is an answer too. -/
theorem requests_served_later : ∃ state, Served state ∧ state.arrived = [8, 7] ∧
    state.answered = [7, 8] ∧ state.backlog = [] := by
  obtain ⟨state, reached, holds⟩ : ∃ state,
      (machine.restrict fun state op => State.regular state op = true).Reachable state ∧
        state.arrived = [8, 7] ∧ state.answered = [7, 8] ∧ state.backlog = [] :=
    Machine.exists_restrict_run (fun _ _ => id) rfl (fun _ _ _ => id)
      [.arrive 7 (asks "mcos0/5/task/6/maps") (twoRanges false),
        .arrive 8 (asks "mcos0/9/maps") (twoRanges true),
        .retry 7 (asks "mcos0/5/task/6/maps") (twoRanges true)] (by decide +kernel)
  exact ⟨state, (requests_served reached).1, holds⟩

/-- The head of the list is held instead of a thread that does not exist, and the answer is a
success; `bitmasks` is lost when `status` does not get the lock, and the output when a line is
too long; `mem` without a buffer overruns a page; a pid without a slash behind it and the first
process are followed through wild pointers. -/
theorem requests_not_served :
    (∃ done, handle (twoRanges true) false (asks "mcos0/5/task/77/maps") = some done ∧
      done.thread = .head ∧ done.answers = [0] ∧ done.ret = some 0) ∧
    (∃ done, handle (twoRanges false) false (asks "mcos0/5/status") = some done ∧
      done.requeued = true ∧ Resource.bitmasks ∈ done.ledger.taken ∧
      Resource.bitmasks ∉ done.ledger.returned) ∧
    (∃ done, handle { twoRanges true with mapLines := [73, 4200] } false
        (asks "mcos0/5/maps") = some done ∧
      Resource.page 0 ∈ done.ledger.taken ∧ Resource.page 0 ∉ done.ledger.returned) ∧
    (∃ done, handle (twoRanges true) false { asks "mcos0/5/mem" with count := 8192 } = some done ∧
      pageSize < done.stored) ∧
    handle (twoRanges true) false (asks "mcos0/5") = none ∧
    handle { twoRanges true with process := fun _ => some ⟨[], false, none⟩ } false
      (asks "mcos0/1/maps") = none := by
  have holds {result : Result} {property : Done → Prop} [DecidablePred property]
      (checked : result.any (fun done => decide (property done)) = true) :
      ∃ done, result = some done ∧ property done := by
    simpa [Option.any_eq_true] using checked
  exact ⟨holds (by decide +kernel), holds (by decide +kernel), holds (by decide +kernel),
    holds (by decide +kernel), by decide +kernel, by decide +kernel⟩

end McKernel.Procfs.Handler
