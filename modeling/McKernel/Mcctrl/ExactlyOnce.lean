import McKernel.Mcctrl.Model

/-!
# Every request is served once

The references to the process account for the threads and handlers inside its calls, so
that it goes only when no thread waits any more.  In a regular run every packet that has
come is then in one place, or has been released once; it is handed to one thread at most,
the one it is meant for; and a request is answered when it is released.
-/

namespace McKernel.Mcctrl

open FirstMatch State List Function Nat

variable {id : Nat} {node : Node} {test : Node → Bool} {op : Op}

variable {s next : State} {tid o : Tid} {packet : Packet}

/-! ## Records of threads -/

section Records

variable {records : List PerThreadData} {ptd : PerThreadData}

section

variable (found : records.find? (·.tid == tid) = some ptd)
include found

theorem putRecord_last
    (last : ptd.refcount = 1) : putRecord tid records = records.eraseP (·.tid == tid) := by
  simp [putRecord, found, last]

theorem putRecord_more (more : ptd.refcount ≠ 1) :
    putRecord tid records =
      update (·.tid == tid) (fun ptd => { ptd with refcount := ptd.refcount - 1 }) records := by
  simp [putRecord, found, more]

theorem find?_getRecord :
    (getRecord tid records).find? (·.tid == tid) =
      some { ptd with refcount := ptd.refcount + 1 } :=
  find?_update (fun _ => rfl) found

end

theorem eraseP_getRecord :
    (getRecord tid records).eraseP (·.tid == tid) = records.eraseP (·.tid == tid) :=
  eraseP_update fun _ => rfl

theorem putRecord_putRecord (found : records.find? (·.tid == tid) = some ptd)
    (two : ptd.refcount = 2) :
    putRecord tid (putRecord tid records) = records.eraseP (·.tid == tid) := by
  rw [putRecord_more found (by omega)]
  have again : (update (·.tid == tid) (fun ptd => { ptd with refcount := ptd.refcount - 1 })
      records).find? (·.tid == tid) = some { ptd with refcount := ptd.refcount - 1 } :=
    find?_update (fun _ => rfl) found
  rw [putRecord_last again (by simp [two])]
  exact eraseP_update fun _ => rfl

theorem putRecord_three (found : records.find? (·.tid == tid) = some ptd) (two : ptd.refcount = 2) :
    putRecord tid (putRecord tid (putRecord tid (getRecord tid records))) =
      records.eraseP (·.tid == tid) := by
  have first := find?_getRecord found
  have put := putRecord_more first (by simp [two])
  have second : (putRecord tid (getRecord tid records)).find? (·.tid == tid) =
      some { ptd with refcount := ptd.refcount + 1 - 1 } := by
    rw [put]
    exact find?_update (fun _ => by rfl) first
  rw [putRecord_putRecord second (by simp [two]), put]
  exact (eraseP_update fun _ => by rfl).trans eraseP_getRecord

end Records

/-! ## Phases -/

variable {current : Phase} {workers : List Worker}

theorem find?_eraseP_of_ne (ne : o ≠ tid) :
    (workers.eraseP (·.tid == tid)).find? (·.tid == o) =
      workers.find? (·.tid == o) := by
  induction workers with
  | nil => rfl
  | cons worker rest ih =>
    by_cases named : worker.tid = tid
    · simp [named, ne.symm]
    · rw [eraseP_cons_of_neg (by simpa using named), find?_cons, find?_cons, ih]

theorem find?_eraseP_self (nodup : (workers.map Worker.tid).Nodup) :
    (workers.eraseP (·.tid == tid)).find? (·.tid == tid) = none := by
  rw [find?_eq_none]
  intro worker isWorker
  simpa using ne_of_mem_eraseP nodup isWorker

theorem phase_goto (phase : Phase) :
    (s.goto tid phase).phase o = if o = tid then some phase else s.phase o := by
  by_cases same : o = tid
  · simp [State.phase, goto, same]
  · rw [if_neg same, State.phase, goto, find?_cons_of_neg (by simpa using Ne.symm same),
      find?_eraseP_of_ne same, State.phase]

theorem phase_leave (nodup : (s.inside.map Worker.tid).Nodup) :
    (s.leave tid).phase o = if o = tid then none else s.phase o := by
  by_cases same : o = tid
  · rw [if_pos same, same, phase, leave, find?_eraseP_self nodup, Option.map_none]
  · rw [if_neg same, phase, leave, find?_eraseP_of_ne same, phase]

theorem exists_worker {phase : Phase} (here : s.phase tid = some phase) :
    s.inside.find? (·.tid == tid) = some ⟨tid, phase⟩ := by
  obtain ⟨worker, found, isPhase⟩ := Option.map_eq_some_iff.mp here
  have named : worker.tid = tid := by simpa using find?_some found
  rw [found, ← named, ← isPhase]

theorem nodup_goto (nodup : (s.inside.map Worker.tid).Nodup) (phase : Phase) :
    ((s.goto tid phase).inside.map Worker.tid).Nodup := by
  rw [goto, map_cons, nodup_cons]
  refine ⟨fun isTid => ?_, nodup_eraseP nodup⟩
  obtain ⟨worker, isWorker, named⟩ := mem_map.mp isTid
  exact ne_of_mem_eraseP nodup isWorker named

theorem length_goto (here : s.phase tid = some old) (phase : Phase) :
    (s.goto tid phase).inside.length = s.inside.length := by
  simpa [goto] using length_eraseP (exists_worker here)

theorem length_leave (here : s.phase tid = some old) :
    (s.leave tid).inside.length + 1 = s.inside.length :=
  length_eraseP (exists_worker here)

/-! ## References -/

/-- The reference to a record by the call that works on it. -/
def inUse : Option Phase → Nat
  | some .handling | some .backward => 1
  | _ => 0

/-- The references to a record by the table and by a thread that goes on under Linux. -/
def atRest (packet : Packet) : Nat := if packet.call = .migrate then 2 else 1

theorem initialRefcount_eq : initialRefcount packet = atRest packet + 1 := by
  unfold initialRefcount atRest
  split <;> rfl

/-- The phases in which a thread may have a record. -/
def Holds (phase : Option Phase) : Prop :=
  phase = none ∨ phase = some .handling ∨ phase = some .backward

/-- The records of threads: one for each, with the references that are held. -/
structure Recorded (phase : Tid → Option Phase) (records : List PerThreadData) : Prop where
  nodup : (records.map PerThreadData.tid).Nodup
  holds : ∀ ptd ∈ records, Holds (phase ptd.tid)
  refcount : ∀ ptd ∈ records, ptd.refcount = atRest ptd.data + inUse (phase ptd.tid)

/-- Nodes of distinct threads, each in a phase of the list. -/
structure Listed (phase : Tid → Option Phase) (belongs : Phase → Prop) (nodes : List Node) :
    Prop where
  nodup : (nodes.map Node.rtid).Nodup
  phase : ∀ node ∈ nodes, ∃ current, phase node.rtid = some current ∧ belongs current

/-- Waiting on `wq_list`. -/
def Waits (phase : Phase) : Prop := phase = .waiting ∨ phase = .signalled

/-- Waiting on `wq_list_exact`. -/
def WaitsExact (phase : Phase) : Prop := phase = .backward

/-- The references to the process are those of its file, of the threads and handlers inside
its calls, of the host threads, and of the calls on their way out. -/
structure Referenced (state : State) : Prop where
  count : state.refcount = state.opened.toNat + state.inside.length +
    state.arriving.length + state.hostThreads.length + state.puts
  workers : (state.inside.map Worker.tid).Nodup
  waiting : Listed state.phase Waits state.wqList
  exact : Listed state.phase WaitsExact state.wqListExact
  recorded : Recorded state.phase state.perThreadData
  gone : state.refcount = 0 → state.wqReqList = [] ∧ state.perThreadData = []

section Listed

variable {phase after : Tid → Option Phase} {belongs : Phase → Prop} {nodes : List Node}

section

variable (listed : Listed phase belongs nodes)
include listed

section

variable (moved : ∀ o, o ≠ tid → after o = phase o)
include moved

theorem Listed.of_moved (off : ∀ current, phase tid = some current → ¬belongs current) :
    Listed after belongs nodes := by
  refine ⟨listed.nodup, fun node isNode => ?_⟩
  obtain ⟨current, isCurrent, does⟩ := listed.phase node isNode
  have ne : node.rtid ≠ tid := by
    intro same
    rw [same] at isCurrent
    exact off current isCurrent does
  exact ⟨current, by rw [moved _ ne, isCurrent], does⟩

theorem Listed.of_stayed
    (stays : after tid = some current) (does : belongs current) : Listed after belongs nodes := by
  refine ⟨listed.nodup, fun node isNode => ?_⟩
  by_cases same : node.rtid = tid
  · exact ⟨current, by rw [same, stays], does⟩
  · obtain ⟨current, isCurrent, does⟩ := listed.phase node isNode
    exact ⟨current, by rw [moved _ same, isCurrent], does⟩

theorem Listed.unlist :
    Listed after belongs (unlist nodes tid) := by
  refine ⟨nodup_eraseP listed.nodup, fun node isNode => ?_⟩
  obtain ⟨current, isCurrent, does⟩ := listed.phase node (mem_of_mem_eraseP isNode)
  exact ⟨current, by rw [moved _ (ne_of_mem_eraseP listed.nodup isNode), isCurrent], does⟩

end

theorem Listed.fill (test : Node → Bool) :
    Listed phase belongs (update test (fill packet) nodes) := by
  refine ⟨nodup_update (fun _ => rfl) listed.nodup, fun node isNode => ?_⟩
  rcases mem_update isNode with isNode | ⟨old, found, rfl⟩
  · exact listed.phase node isNode
  · exact listed.phase old (mem_of_find?_eq_some found)

end

theorem Listed.nil : Listed phase belongs [] := ⟨nodup_nil, nofun⟩

theorem Listed.add (listed : Listed phase belongs nodes) {all : List Node}
    (perm : all.Perm (node :: nodes))
    (moved : ∀ o, o ≠ node.rtid → after o = phase o)
    (off : ∀ current, phase node.rtid = some current → ¬belongs current)
    (comes : after node.rtid = some current) (does : belongs current) :
    Listed after belongs all := by
  have rest := listed.of_moved moved off
  constructor
  · rw [(perm.map Node.rtid).nodup_iff, map_cons, nodup_cons]
    refine ⟨fun isTid => ?_, listed.nodup⟩
    obtain ⟨twin, isTwin, same⟩ := mem_map.mp isTid
    obtain ⟨was, isWas, doesWas⟩ := listed.phase twin isTwin
    rw [same] at isWas
    exact off was isWas doesWas
  · intro item isItem
    rcases mem_cons.mp (perm.mem_iff.mp isItem) with rfl | isItem
    · exact ⟨current, comes, does⟩
    · exact rest.phase item isItem

end Listed

section Recorded

variable {phase after : Tid → Option Phase} {records : List PerThreadData}

section

variable (recorded : Recorded phase records)
include recorded

theorem Recorded.absent (free : ¬Holds (phase tid)) :
    ∀ ptd ∈ records, ptd.tid ≠ tid := by
  rintro ptd isPtd rfl
  exact free (recorded.holds ptd isPtd)

theorem Recorded.of_absent (absent : ∀ ptd ∈ records, ptd.tid ≠ tid)
    (moved : ∀ o, o ≠ tid → after o = phase o) : Recorded after records where
  nodup := recorded.nodup
  holds ptd isPtd := by
    rw [moved _ (absent ptd isPtd)]
    exact recorded.holds ptd isPtd
  refcount ptd isPtd := by
    rw [recorded.refcount ptd isPtd, moved _ (absent ptd isPtd)]

theorem Recorded.remove (moved : ∀ o, o ≠ tid → after o = phase o) :
    Recorded after (records.eraseP (·.tid == tid)) where
  nodup := nodup_eraseP recorded.nodup
  holds ptd isPtd := by
    rw [moved _ (ne_of_mem_eraseP recorded.nodup isPtd)]
    exact recorded.holds ptd (mem_of_mem_eraseP isPtd)
  refcount ptd isPtd := by
    rw [recorded.refcount ptd (mem_of_mem_eraseP isPtd),
      moved _ (ne_of_mem_eraseP recorded.nodup isPtd)]

theorem Recorded.adjust (change : Nat → Nat)
    (moved : ∀ o, o ≠ tid → after o = phase o) (holds : Holds (after tid))
    (adjusted : ∀ rest, change (rest + inUse (phase tid)) = rest + inUse (after tid)) :
    Recorded after
      (update (·.tid == tid) (fun ptd => { ptd with refcount := change ptd.refcount })
        records) := by
  refine ⟨nodup_update (fun _ => rfl) recorded.nodup, fun ptd isPtd => ?_, fun ptd isPtd => ?_⟩ <;>
    rcases mem_update_key recorded.nodup isPtd with ⟨isPtd, ne⟩ | ⟨old, isOld, named, rfl⟩
  · rw [moved _ ne]
    exact recorded.holds ptd isPtd
  · simp only [named]
    exact holds
  · rw [recorded.refcount ptd isPtd, moved _ ne]
  · have was := recorded.refcount old isOld
    simp only [was, named]
    exact adjusted _

theorem Recorded.add (moved : ∀ o, o ≠ tid → after o = phase o)
    (handles : after tid = some .handling) (none : records.find? (·.tid == tid) = none) :
    Recorded after (records ++ [⟨tid, packet, initialRefcount packet⟩]) := by
  have absent : ∀ ptd ∈ records, ptd.tid ≠ tid := fun ptd isPtd => by
    simpa using find?_eq_none.mp none ptd isPtd
  constructor
  · rw [map_append, nodup_append]
    refine ⟨recorded.nodup, by simp, fun key isKey last isLast => ?_⟩
    obtain ⟨ptd, isPtd, rfl⟩ := mem_map.mp isKey
    rw [map_singleton, mem_singleton] at isLast
    rw [isLast]
    exact absent ptd isPtd
  · intro ptd isPtd
    rcases mem_append.mp isPtd with isPtd | isPtd
    · rw [moved _ (absent ptd isPtd)]
      exact recorded.holds ptd isPtd
    · rw [mem_singleton] at isPtd
      rw [isPtd]
      exact .inr (.inl handles)
  · intro ptd isPtd
    rcases mem_append.mp isPtd with isPtd | isPtd
    · rw [recorded.refcount ptd isPtd, moved _ (absent ptd isPtd)]
    · rw [mem_singleton] at isPtd
      rw [isPtd]
      simp only [initialRefcount_eq, handles, inUse]

end

theorem atRest_pos : 0 < atRest packet := by
  unfold atRest
  split <;> decide

theorem Recorded.of_found (recorded : Recorded phase records)
    (found : records.find? (·.tid == tid) = some ptd) :
    ptd.refcount = atRest ptd.data + inUse (phase tid) := by
  have named : ptd.tid = tid := by simpa using find?_some found
  rw [recorded.refcount ptd (mem_of_find?_eq_some found), named]

theorem Recorded.put (recorded : Recorded phase records)
    (moved : ∀ o, o ≠ tid → after o = phase o)
    (used : inUse (phase tid) = 1) (left : after tid = none) :
    Recorded after (putRecord tid records) := by
  cases found : records.find? (·.tid == tid) with
  | none =>
    have absent : ∀ ptd ∈ records, ptd.tid ≠ tid := fun ptd isPtd => by
      simpa using find?_eq_none.mp found ptd isPtd
    simp only [putRecord, found]
    exact recorded.of_absent absent moved
  | some ptd =>
    have refcount := recorded.of_found found
    have pos : 0 < atRest ptd.data := atRest_pos
    rw [putRecord_more found (by omega)]
    have unused : inUse (after tid) = 0 := by
      rw [left]
      rfl
    exact recorded.adjust (· - 1) moved (.inl left) fun rest => by omega

theorem Recorded.finish (recorded : Recorded phase records)
    (moved : ∀ o, o ≠ tid → after o = phase o)
    (found : records.find? (·.tid == tid) = some ptd) (used : inUse (phase tid) = 1)
    (single : atRest ptd.data = 1) :
    Recorded after (putRecord tid (putRecord tid records)) := by
  have refcount := recorded.of_found found
  rw [putRecord_putRecord found (by omega)]
  exact recorded.remove moved

end Recorded

/-! ## The steps keep the references -/

/-- The lists and the records fit the phases of the threads. -/
structure Settled (phase : Tid → Option Phase) (wqList wqListExact : List Node)
    (records : List PerThreadData) : Prop where
  waiting : Listed phase Waits wqList
  exact : Listed phase WaitsExact wqListExact
  recorded : Recorded phase records

/-- On no list and without a record. -/
def Idle (phase : Phase) : Prop := ¬Waits phase ∧ ¬WaitsExact phase ∧ ¬Holds (some phase)

theorem idle_entering : Idle .entering := by simp [Idle, Waits, WaitsExact, Holds]

theorem idle_claimed : Idle (.claimed packet) := by simp [Idle, Waits, WaitsExact, Holds]

theorem idle_interrupted : Idle (.interrupted node) := by simp [Idle, Waits, WaitsExact, Holds]

section Moves

variable {phase old : Phase}

theorem goto_moved (o : Tid) (ne : o ≠ tid) :
    (s.goto tid phase).phase o = s.phase o := by
  rw [phase_goto, if_neg ne]

theorem goto_self : (s.goto tid phase).phase tid = some phase := by
  rw [phase_goto, if_pos rfl]

theorem not_of_phase {belongs : Phase → Prop} (here : s.phase tid = some old)
    (off : ¬belongs old) : ∀ current, s.phase tid = some current → ¬belongs current := by
  intro current isCurrent
  rw [here] at isCurrent
  exact Option.some.inj isCurrent ▸ off

theorem Referenced.idle_moved {after : Tid → Option Phase} (refs : Referenced s)
    (here : s.phase tid = some old) (idle : Idle old)
    (moved : ∀ o, o ≠ tid → after o = s.phase o) :
    Settled after s.wqList s.wqListExact s.perThreadData where
  waiting := refs.waiting.of_moved moved (not_of_phase here idle.1)
  exact := refs.exact.of_moved moved (not_of_phase here idle.2.1)
  recorded := refs.recorded.of_absent (refs.recorded.absent (here ▸ idle.2.2)) moved

section

variable (here : s.phase tid = some old)
  (count : s.refcount = s.opened.toNat + s.inside.length +
    s.arriving.length + s.hostThreads.length + s.puts)
  (distinct : (s.inside.map Worker.tid).Nodup) (alive : s.refcount ≠ 0)
include here count distinct alive

theorem referenced_goto (settled : Settled (s.goto tid phase).phase s.wqList
    s.wqListExact s.perThreadData) : Referenced (s.goto tid phase) where
  count := by
    rw [length_goto here]
    exact count
  workers := nodup_goto distinct phase
  waiting := settled.waiting
  exact := settled.exact
  recorded := settled.recorded
  gone absent := absurd absent alive

theorem referenced_leave (settled : Settled (s.leave tid).phase s.wqList
    s.wqListExact s.perThreadData) : Referenced (s.leave tid) where
  count := by
    have fewer := length_leave here
    simp only [leave] at fewer ⊢
    omega
  workers := nodup_eraseP distinct
  waiting := settled.waiting
  exact := settled.exact
  recorded := settled.recorded
  gone absent := absurd absent alive

end

theorem Referenced.counters (refs : Referenced s)
    (same : (next.inside, next.wqList, next.wqListExact, next.perThreadData) =
      (s.inside, s.wqList, s.wqListExact, s.perThreadData))
    (count : next.refcount = next.opened.toNat + next.inside.length +
      next.arriving.length + next.hostThreads.length + next.puts)
    (gone : next.refcount = 0 → next.wqReqList = [] ∧ next.perThreadData = []) :
    Referenced next := by
  simp only [Prod.mk.injEq] at same
  obtain ⟨inside, wqList, wqListExact, records⟩ := same
  have phases : next.phase = s.phase := by
    funext tid
    rw [phase, phase, inside]
  refine ⟨count, by rw [inside]; exact refs.workers, ?_, ?_, ?_, gone⟩
  · rw [phases, wqList]
    exact refs.waiting
  · rw [phases, wqListExact]
    exact refs.exact
  · rw [phases, records]
    exact refs.recorded

end Moves

section Steps

variable {old : Phase}

section

variable (refs : Referenced s)
include refs

theorem Referenced.no_waiters (inside : s.inside = []) :
    s.wqList = [] ∧ s.wqListExact = [] := by
  have outside : ∀ tid, s.phase tid = none := fun tid => by simp [phase, inside]
  constructor <;> refine eq_nil_iff_forall_not_mem.mpr fun node isNode => ?_
  · obtain ⟨_, isPhase, _⟩ := refs.waiting.phase node isNode
    rw [outside] at isPhase
    cases isPhase
  · obtain ⟨_, isPhase, _⟩ := refs.exact.phase node isNode
    rw [outside] at isPhase
    cases isPhase

theorem Referenced.idle (gone : s.refcount = 0) :
    s.inside = [] ∧ s.arriving = [] := by
  have count := refs.count
  exact ⟨eq_nil_of_length_eq_zero (by omega), eq_nil_of_length_eq_zero (by omega)⟩

theorem Referenced.pass : Referenced s.pass := by
  refine refs.counters rfl ?_ fun gone => absurd gone (by simp [State.pass])
  have := refs.count
  simp only [State.pass]
  omega

theorem Referenced.putPerProcData (pending : s.puts ≠ 0) :
    Referenced { s with puts := s.puts - 1 }.putPerProcData := by
  have count := refs.count
  unfold State.putPerProcData
  split
  next last =>
    have last : s.refcount = 1 := last
    have inside : s.inside = [] := eq_nil_of_length_eq_zero (by omega)
    refine ⟨?_, by simp [inside], .nil, .nil, ⟨by simp, by simp, by simp⟩, fun _ => ⟨rfl, rfl⟩⟩
    simp only
    omega
  next more =>
    have more : s.refcount ≠ 1 := more
    refine refs.counters rfl ?_ fun gone => ?_
    · simp only
      omega
    · simp only at gone
      omega

/-- A thread that waits is on no other list and has no record. -/
theorem Referenced.waits_moved {after : Tid → Option Phase} {nodes : List Node}
    (here : s.phase tid = some old) (waits : Waits old)
    (moved : ∀ o, o ≠ tid → after o = s.phase o)
    (waiting : Listed after Waits nodes) :
    Settled after nodes s.wqListExact s.perThreadData := by
  refine ⟨waiting, refs.exact.of_moved moved (not_of_phase here ?_),
    refs.recorded.of_absent (refs.recorded.absent ?_) moved⟩
  · rcases waits with rfl | rfl <;> simp [WaitsExact]
  · rcases waits with rfl | rfl <;> simp [here, Holds]

section

variable (alive : s.refcount ≠ 0)
include alive

theorem Referenced.deliver (found : s.arriving.find? (·.id == id) = some packet) :
    Referenced ({ s with
      arriving := s.arriving.eraseP (·.id == id), puts := s.puts + 1 }.deliver packet) := by
  have count := refs.count
  have fewer := length_eraseP found
  have counted : s.refcount = s.opened.toNat + s.inside.length +
      (s.arriving.eraseP (·.id == id)).length + s.hostThreads.length + (s.puts + 1) := by
    omega
  have taken : Referenced { s with
      arriving := s.arriving.eraseP (·.id == id), puts := s.puts + 1 } :=
    refs.counters rfl counted fun gone => absurd gone alive
  have queued : ∀ nodes, Referenced { s with
      arriving := s.arriving.eraseP (·.id == id), puts := s.puts + 1, wqReqList := nodes } :=
    fun _ => refs.counters rfl counted fun gone => absurd gone alive
  unfold State.deliver
  split_ifs
  · exact { taken with waiting := refs.waiting.fill _ }
  · exact queued _
  · exact { taken with waiting := refs.waiting.fill _ }
  · exact { taken with exact := refs.exact.fill _ }
  · exact queued _

theorem Referenced.takeQueued (here : s.phase tid = some .entering)
    (taken : s.takeQueued tid test node = some next) : Referenced next := by
  obtain ⟨packet, _, rfl⟩ := Option.map_eq_some_iff.mp taken
  exact referenced_goto here refs.count refs.workers alive
    (refs.idle_moved here idle_entering goto_moved)

theorem Referenced.claim
    (here : s.phase tid = some .entering) (taken : s.claim tid = some next) :
    Referenced next := by
  unfold State.claim at taken
  split at taken
  · exact refs.takeQueued alive here taken
  · split at taken
    · exact refs.takeQueued alive here taken
    · cases taken
      refine referenced_goto here refs.count refs.workers alive
        { refs.idle_moved here idle_entering goto_moved with waiting := ?_ }
      exact refs.waiting.add (List.Perm.refl _) goto_moved (not_of_phase here idle_entering.1)
        goto_self (.inl rfl)

theorem Referenced.unlist
    (here : s.phase tid = some old) (waits : Waits old) {phase : Phase} :
    Referenced ({ s with wqList := unlist s.wqList tid }.goto tid phase) :=
  referenced_goto here refs.count refs.workers alive
    (refs.waits_moved here waits goto_moved (refs.waiting.unlist goto_moved))

theorem Referenced.signal
    (here : s.phase tid = some .waiting) : Referenced (s.goto tid .signalled) :=
  referenced_goto here refs.count refs.workers alive (refs.waits_moved here (.inl rfl)
    goto_moved (refs.waiting.of_stayed goto_moved goto_self (.inr rfl)))

end

theorem Referenced.leave_moved (o : Tid) (ne : o ≠ tid) :
    (s.leave tid).phase o = s.phase o := by
  rw [phase_leave refs.workers, if_neg ne]

theorem Referenced.leave_self : (s.leave tid).phase tid = none := by
  rw [phase_leave refs.workers, if_pos rfl]

section

variable (alive : s.refcount ≠ 0)
include alive

theorem Referenced.leave
    (here : s.phase tid = some old) (idle : Idle old) : Referenced (s.leave tid) :=
  referenced_leave here refs.count refs.workers alive (refs.idle_moved here idle refs.leave_moved)

theorem Referenced.requeue
    (here : s.phase tid = some (.interrupted node)) : Referenced (s.requeue tid node) := by
  unfold State.requeue
  split
  · have queued : Referenced { s with wqReqList := s.wqReqList ++ [node] } :=
      refs.counters rfl refs.count fun gone => absurd gone alive
    exact queued.leave alive here idle_interrupted
  · exact refs.leave alive here idle_interrupted

theorem Referenced.register (here : s.phase tid = some (.claimed packet)) (allocated : Bool) :
    Referenced (s.register tid packet allocated) := by
  unfold State.register
  split_ifs with stray fits
  · exact referenced_goto here refs.count refs.workers alive
      (refs.idle_moved here idle_claimed goto_moved)
  · exact referenced_goto here refs.count refs.workers alive
      { refs.idle_moved here idle_claimed goto_moved with
        recorded := refs.recorded.add goto_moved goto_self fits.2 }
  · exact refs.leave alive here idle_claimed

theorem Referenced.served (here : s.phase tid = some .handling)
    (found : s.findPerThreadData tid = some ptd) (single : atRest ptd.data = 1) :
    Referenced (((s.putPerThreadData tid).putPerThreadData tid).goto tid .entering) :=
  referenced_goto here refs.count refs.workers alive
    ⟨refs.waiting.of_moved goto_moved (not_of_phase here (by simp [Waits])),
      refs.exact.of_moved goto_moved (not_of_phase here (by simp [WaitsExact])),
      refs.recorded.finish goto_moved found (by rw [here]; rfl) single⟩

end

theorem Referenced.history (handed : List (Packet × Tid)) (answered released : List Packet) :
    Referenced { s with handed := handed, answered := answered, released := released } :=
  refs.counters rfl refs.count refs.gone

theorem Referenced.execute (alive : s.refcount ≠ 0) (here : s.phase tid = some .handling)
    (found : s.findPerThreadData tid = some ptd) :
    Referenced (s.execute tid ptd.data) := by
  unfold State.execute
  split
  iterate 3
    next isCall => exact (refs.history _ _ _).served alive here found (by simp [atRest, isCall])
  all_goals
    exact referenced_leave here refs.count refs.workers alive
      ⟨refs.waiting.of_moved refs.leave_moved (not_of_phase here (by simp [Waits])),
        refs.exact.of_moved refs.leave_moved (not_of_phase here (by simp [WaitsExact])),
        refs.recorded.put refs.leave_moved (by rw [here]; rfl) refs.leave_self⟩

theorem Referenced.quitBackward (alive : s.refcount ≠ 0)
    (here : s.phase tid = some .backward) :
    Referenced (({ s with wqListExact := State.unlist s.wqListExact tid }.putPerThreadData
      tid).leave tid) :=
  referenced_leave here refs.count refs.workers alive
    ⟨refs.waiting.of_moved refs.leave_moved (not_of_phase here (by simp [Waits])),
      refs.exact.unlist refs.leave_moved,
      refs.recorded.put refs.leave_moved (by rw [here]; rfl) refs.leave_self⟩

end

theorem phase_enter {phase : Phase} (inside : next.inside = ⟨tid, phase⟩ :: s.inside) :
    next.phase o = if o = tid then some phase else s.phase o := by
  rw [State.phase, inside]
  by_cases same : o = tid
  · simp [same]
  · rw [if_neg same, find?_cons_of_neg (by simpa using Ne.symm same), State.phase]

theorem nodup_enter (refs : Referenced s) (outside : s.phase tid = none) (phase : Phase) :
    ((⟨tid, phase⟩ :: s.inside : List Worker).map Worker.tid).Nodup := by
  rw [map_cons, nodup_cons]
  refine ⟨fun isTid => ?_, refs.workers⟩
  obtain ⟨worker, isWorker, named⟩ := mem_map.mp isTid
  have absent := find?_eq_none.mp (Option.map_eq_none_iff.mp outside) worker isWorker
  simp [named] at absent

theorem not_of_outside {belongs : Phase → Prop} (outside : s.phase tid = none) :
    ∀ current, s.phase tid = some current → ¬belongs current := by
  intro current isCurrent
  rw [outside] at isCurrent
  cases isCurrent

section

variable (refs : Referenced s) (outside : s.phase tid = none)
include refs outside

theorem Referenced.enter (free : s.findPerThreadData tid = none) :
    Referenced { s with
      refcount := s.refcount + 1, inside := ⟨tid, .entering⟩ :: s.inside } := by
  have count := refs.count
  have moved : ∀ o, o ≠ tid → phase { s with
      refcount := s.refcount + 1, inside := ⟨tid, .entering⟩ :: s.inside } o =
      s.phase o := fun o ne => by
    rw [phase_enter rfl, if_neg ne]
  refine ⟨?_, nodup_enter refs outside _, refs.waiting.of_moved moved (not_of_outside outside),
    refs.exact.of_moved moved (not_of_outside outside),
    refs.recorded.of_absent (fun ptd isPtd => ?_) moved, fun gone => absurd gone (by simp)⟩
  · simp only [length_cons]
    omega
  · simpa using find?_eq_none.mp free ptd isPtd

theorem Referenced.startBackward :
    Referenced ((s.startBackward tid).getPerThreadData tid) := by
  have count := refs.count
  have moved : ∀ o, o ≠ tid →
      ((s.startBackward tid).getPerThreadData tid).phase o = s.phase o :=
    fun o ne => by
      rw [phase_enter rfl, if_neg ne]
  have self : ((s.startBackward tid).getPerThreadData tid).phase tid = some .backward := by
    rw [phase_enter rfl, if_pos rfl]
  refine ⟨?_, nodup_enter refs outside _, refs.waiting.of_moved moved (not_of_outside outside),
    refs.exact.add (perm_append_singleton _ _) moved (not_of_outside outside) self rfl,
    refs.recorded.adjust (· + 1) moved (.inr (.inr self)) fun rest => ?_,
    fun gone => absurd gone ?_⟩
  · simp only [State.startBackward, State.getPerThreadData, length_cons]
    omega
  · rw [self, outside]
    rfl
  · simp [State.startBackward, State.getPerThreadData]

theorem Referenced.ret_records (found : s.findPerThreadData tid = some ptd)
    (ordinary : ptd.data.call ≠ .migrate) :
    putRecord tid (putRecord tid (getRecord tid s.perThreadData)) =
      s.perThreadData.eraseP (·.tid == tid) := by
  have refcount := refs.recorded.of_found found
  have single : atRest ptd.data = 1 := if_neg ordinary
  rw [putRecord_putRecord (find?_getRecord found) (by simp [refcount, single, outside, inUse]),
    eraseP_getRecord]

theorem Referenced.two_of_migrate (found : s.perThreadData.find? (·.tid == tid) = some ptd)
    (migrates : ptd.data.call = .migrate) : ptd.refcount = 2 := by
  rw [refs.recorded.of_found found, outside, atRest, if_pos migrates]
  rfl

theorem Referenced.ret (copied : Bool)
    (ordinary : ∀ ptd, s.findPerThreadData tid = some ptd → ptd.data.call ≠ .migrate) :
    Referenced (s.ret tid copied) := by
  unfold State.ret
  split
  · exact refs.pass
  next ptd found =>
    have passed := refs.pass
    have records := refs.ret_records outside found (ordinary ptd found)
    have removed : Referenced { s.pass with
        perThreadData := s.perThreadData.eraseP (·.tid == tid) } :=
      { passed with
        recorded := refs.recorded.remove fun _ _ => rfl
        gone := fun gone => absurd gone (by simp [State.pass]) }
    refine removed.counters ?_ ?_ ?_ <;> cases copied <;>
      simp only [State.putPerThreadData, State.getPerThreadData, State.release, State.answer,
        State.pass, Bool.false_eq_true, if_true, if_false, records]
    · exact passed.count
    · exact passed.count
    · simp
    · simp

theorem Referenced.terminate (host : tid ∈ s.hostThreads)
    (migrates : ∀ ptd, s.findPerThreadData tid = some ptd → ptd.data.call = .migrate)
    (taken : terminate { s with hostThreads := s.hostThreads.erase tid } tid tid =
      some next) : Referenced next := by
  have count := refs.count
  have fewer := length_erase_of_mem host
  have pos := length_pos_of_mem host
  have held : Referenced { s with
      hostThreads := s.hostThreads.erase tid
      refcount := s.refcount + 1
      puts := s.puts + 2 } := by
    refine refs.counters rfl ?_ fun gone => absurd gone (by simp)
    simp only
    omega
  unfold State.terminate at taken
  split at taken
  · cases taken
    exact held
  next ptd found =>
    have two := refs.two_of_migrate outside found (migrates ptd found)
    have records := putRecord_three found two
    simp only [ne_eq, not_true_eq_false, if_false, two, lt_irrefl] at taken
    cases taken
    refine ⟨held.count, held.workers, held.waiting, held.exact, ?_,
      fun gone => absurd gone (by simp [putPerThreadData, getPerThreadData,
        release, answer])⟩
    simp only [putPerThreadData, getPerThreadData, release, answer, records]
    exact refs.recorded.remove fun _ _ => rfl

end

end Steps

/-! ## For whom a packet is -/

/-- A request for any thread, or a migration of this one. -/
def Node.Fits (node : Node) : Prop :=
  ∀ packet, node.packet = some packet →
    packet.ttid = 0 ∨ packet.call = .migrate ∧ packet.ttid = node.rtid

/-- A result for the thread of the node. -/
def Node.Result (node : Node) : Prop :=
  ∀ packet, node.packet = some packet →
    packet.ttid = node.rtid ∧ packet.ttid ≠ 0 ∧ packet.call ≠ .migrate

/-- Packets are on the lists where they belong, and were handed to the right threads. -/
structure Directed (state : State) : Prop where
  waiting : ∀ node ∈ state.wqList, node.Fits
  exact : ∀ node ∈ state.wqListExact, node.Result
  queue : ∀ node ∈ state.wqReqList, node.Fits ∧ node.req = true
  interrupted : ∀ worker ∈ state.inside, ∀ node, worker.phase = .interrupted node → node.Fits
  handed : ∀ entry ∈ state.handed, entry.1.ttid = 0 ∨ entry.1.ttid = entry.2

section Directed

theorem Node.Fits.ttid (fits : node.Fits) (holds : node.packet = some packet) :
    packet.ttid = 0 ∨ packet.ttid = node.rtid :=
  (fits packet holds).imp_right And.right

section

variable (directed : Directed s)
include directed

theorem Directed.interrupted_cons {phase : Phase} {inside : List Worker}
    (there : inside.Sublist s.inside)
    (empty : ∀ node, phase = .interrupted node → node.Fits) :
    ∀ worker ∈ (⟨tid, phase⟩ :: inside : List Worker), ∀ node, worker.phase = .interrupted node →
      node.Fits := by
  intro worker isWorker node isNode
  rcases mem_cons.mp isWorker with rfl | isOld
  · exact empty node isNode
  · exact directed.interrupted worker (there.subset isOld) node isNode

theorem Directed.goto {phase : Phase}
    (empty : ∀ node, phase = .interrupted node → node.Fits) : Directed (s.goto tid phase) :=
  { directed with interrupted := directed.interrupted_cons eraseP_sublist empty }

theorem Directed.leave : Directed (s.leave tid) :=
  { directed with
    interrupted := fun worker isWorker => directed.interrupted worker (mem_of_mem_eraseP isWorker) }

theorem Directed.hand (right : packet.ttid = 0 ∨ packet.ttid = tid) :
    Directed (s.hand packet tid) :=
  { directed with
    handed := fun entry isEntry => by
      rcases mem_cons.mp isEntry with rfl | isEntry
      · exact right
      · exact directed.handed entry isEntry }

theorem Directed.congr (waiting : ∀ node ∈ next.wqList, node ∈ s.wqList)
    (exact : ∀ node ∈ next.wqListExact, node ∈ s.wqListExact)
    (queue : ∀ node ∈ next.wqReqList, node ∈ s.wqReqList)
    (inside : next.inside = s.inside) (handed : next.handed = s.handed) :
    Directed next where
  waiting node isNode := directed.waiting node (waiting node isNode)
  exact node isNode := directed.exact node (exact node isNode)
  queue node isNode := directed.queue node (queue node isNode)
  interrupted := by
    rw [inside]
    exact directed.interrupted
  handed := by
    rw [handed]
    exact directed.handed

theorem Directed.same (waiting : next.wqList = s.wqList)
    (exact : next.wqListExact = s.wqListExact) (queue : next.wqReqList = s.wqReqList)
    (inside : next.inside = s.inside) (handed : next.handed = s.handed) : Directed next :=
  directed.congr (by simp [waiting]) (by simp [exact]) (by simp [queue]) inside handed

end

theorem Node.Fits.of_empty (empty : node.packet = none) : node.Fits := by
  intro packet holds
  rw [empty] at holds
  cases holds

theorem Node.Result.of_empty (empty : node.packet = none) : node.Result := by
  intro packet holds
  rw [empty] at holds
  cases holds

theorem Directed.enqueue (directed : Directed s) (fits : node.Fits) (holds : node.req = true) :
    Directed { s with wqReqList := s.wqReqList ++ [node] } :=
  { directed with
    queue := fun item isItem => by
      rcases mem_append.mp isItem with isItem | isItem
      · exact directed.queue item isItem
      · rw [mem_singleton] at isItem
        rw [isItem]
        exact ⟨fits, holds⟩ }

theorem Directed.fillWaiting (directed : Directed s)
    (fits : ∀ node, s.wqList.find? test = some node → (fill packet node).Fits) :
    Directed { s with wqList := update test (fill packet) s.wqList } :=
  { directed with
    waiting := fun node isNode => by
      rcases mem_update isNode with isNode | ⟨old, found, rfl⟩
      · exact directed.waiting node isNode
      · exact fits old found }

theorem Directed.fillExact (directed : Directed s)
    (res : ∀ node, s.wqListExact.find? test = some node → (fill packet node).Result) :
    Directed { s with wqListExact := update test (fill packet) s.wqListExact } :=
  { directed with
    exact := fun node isNode => by
      rcases mem_update isNode with isNode | ⟨old, found, rfl⟩
      · exact directed.exact node isNode
      · exact res old found }

/-- A packet for one thread is its result, or a migration nobody waits for. -/
def Expected (state : State) (packet : Packet) : Prop :=
  packet.ttid ≠ 0 →
    (∃ node, state.wqListExact.find? (meantFor packet) = some node ∧ packet.call ≠ .migrate ∧
      node.packet = none) ∨
    state.wqListExact.find? (meantFor packet) = none ∧ packet.call = .migrate

theorem expected_of_regular (isRegular : Regular s (.deliver id))
    (found : s.arriving.find? (·.id == id) = some packet) : Expected s packet := by
  intro specific
  simp only [Regular, regular, found, Option.all_some, Bool.or_eq_true, beq_iff_eq, specific,
    false_or] at isRegular
  split at isRegular
  next node found =>
    simp only [Bool.and_eq_true, decide_eq_true_eq, Option.isNone_iff_eq_none] at isRegular
    exact .inl ⟨node, found, isRegular⟩
  next absent => exact .inr ⟨absent, of_decide_eq_true isRegular⟩

section

variable (directed : Directed s)
include directed

theorem Directed.deliver (expected : Expected s packet) :
    Directed (s.deliver packet) := by
  unfold State.deliver
  split_ifs with anyone waits migrates exactly
  · refine directed.fillWaiting fun node _ o holds => .inl ?_
    rw [← Option.some.inj holds]
    exact anyone
  · refine directed.enqueue (fun o holds => .inl ?_) rfl
    rw [← Option.some.inj holds]
    exact anyone
  · refine directed.fillWaiting fun node found o holds => .inr ?_
    have meant : node.rtid = packet.ttid := by simpa [meantFor] using find?_some found
    rw [← Option.some.inj holds]
    exact ⟨migrates.1, meant.symm⟩
  · refine directed.fillExact fun node found o holds => ?_
    have meant : node.rtid = packet.ttid := by simpa [meantFor] using find?_some found
    rw [← Option.some.inj holds]
    refine ⟨meant.symm, anyone, ?_⟩
    rcases expected anyone with ⟨_, _, stays, _⟩ | ⟨absent, _⟩
    · exact stays
    · rw [absent] at found
      cases found
  · refine directed.enqueue (fun o holds => .inr ?_) rfl
    have migrates : packet.call = .migrate := by
      rcases expected anyone with ⟨node, found, _⟩ | ⟨_, migrates⟩
      · refine absurd ?_ exactly
        rw [any_eq_true]
        exact ⟨node, mem_of_find?_eq_some found, find?_some found⟩
      · exact migrates
    rw [← Option.some.inj holds]
    exact ⟨migrates, by simp [queued, migrates]⟩

theorem Directed.takeQueued
    (found : s.wqReqList.find? test = some node) (right : node.rtid = tid ∨ node.rtid = 0)
    (taken : s.takeQueued tid test node = some next) : Directed next := by
  obtain ⟨packet, holds, rfl⟩ := Option.map_eq_some_iff.mp taken
  obtain ⟨fits, _⟩ := directed.queue node (mem_of_find?_eq_some found)
  have smaller : Directed { s with wqReqList := s.wqReqList.eraseP test } :=
    directed.congr (fun _ isNode => isNode) (fun _ isNode => isNode)
      (fun _ isNode => mem_of_mem_eraseP isNode) rfl rfl
  refine (smaller.hand ?_).goto nofun
  rcases fits.ttid holds with anyone | meant
  · exact .inl anyone
  · rcases right with own | unaddressed
    · exact .inr (meant.trans own)
    · exact .inl (meant.trans unaddressed)

theorem Directed.claim (taken : s.claim tid = some next) :
    Directed next := by
  unfold State.claim at taken
  split at taken
  next node found =>
    exact directed.takeQueued found (.inl (by simpa using find?_some found)) taken
  · split at taken
    next node found =>
      have test := find?_some found
      simp only [untaken, Bool.and_eq_true, beq_iff_eq] at test
      exact directed.takeQueued found (.inr test.1.1) taken
    · cases taken
      have added : Directed { s with wqList := ⟨some tid, tid, none⟩ :: s.wqList } := by
        refine ⟨fun node isNode => ?_, directed.exact, directed.queue, directed.interrupted,
          directed.handed⟩
        rcases mem_cons.mp isNode with rfl | isNode
        · exact .of_empty rfl
        · exact directed.waiting node isNode
      exact added.goto nofun

theorem Directed.unlist :
    Directed { s with wqList := unlist s.wqList tid } :=
  directed.congr (fun _ isNode => mem_of_mem_eraseP isNode) (fun _ isNode => isNode)
    (fun _ isNode => isNode) rfl rfl

theorem Directed.unlistExact :
    Directed { s with wqListExact := State.unlist s.wqListExact tid } :=
  directed.congr (fun _ isNode => isNode) (fun _ isNode => mem_of_mem_eraseP isNode)
    (fun _ isNode => isNode) rfl rfl

theorem Directed.requeue
    (here : s.phase tid = some (.interrupted node)) : Directed (s.requeue tid node) := by
  have fits := directed.interrupted _ (mem_of_find?_eq_some (exists_worker here)) node rfl
  unfold State.requeue
  split
  next holds => exact (directed.enqueue fits holds).leave
  · exact directed.leave

theorem Directed.register (allocated : Bool) :
    Directed (s.register tid packet allocated) := by
  unfold State.register
  split_ifs
  · have kept : Directed (s.release packet) := directed.same rfl rfl rfl rfl rfl
    exact kept.goto nofun
  · have kept : Directed (s.addPerThreadData tid packet) := directed.same rfl rfl rfl rfl rfl
    exact kept.goto nofun
  · exact directed.leave

theorem Directed.execute : Directed (s.execute tid packet) := by
  unfold State.execute
  split
  iterate 3
    apply Directed.goto
    · exact directed.same rfl rfl rfl rfl rfl
    · intro node isNode
      cases isNode
  all_goals exact Directed.leave (directed.same rfl rfl rfl rfl rfl)

theorem Directed.ret (copied : Bool) :
    Directed (s.ret tid copied) := by
  unfold State.ret
  split
  · exact directed.same rfl rfl rfl rfl rfl
  · cases copied <;> exact directed.same rfl rfl rfl rfl rfl

theorem Directed.terminate (taken : s.terminate tid tsk = some next) : Directed next := by
  unfold State.terminate at taken
  split at taken
  · cases taken
    exact directed.same rfl rfl rfl rfl rfl
  · split_ifs at taken <;> obtain rfl := Option.some.inj taken <;>
      exact directed.same rfl rfl rfl rfl rfl

theorem Directed.startBackward :
    Directed ((s.startBackward tid).getPerThreadData tid) := by
  refine { directed with
    interrupted := directed.interrupted_cons (List.Sublist.refl _) nofun
    exact := fun node isNode => ?_ }
  rcases mem_append.mp isNode with isNode | isNode
  · exact directed.exact node isNode
  · rw [mem_singleton] at isNode
    exact .of_empty (by rw [isNode])

theorem Directed.wakeBackward (found : s.wqListExact.find? (·.rtid == tid) = some node)
    (holds : node.packet = some packet) :
    Directed (((({ s with wqListExact := State.unlist s.wqListExact tid }.hand packet
      tid).release packet).putPerThreadData tid).leave tid) := by
  have meant : node.rtid = tid := by simpa using find?_some found
  have res := directed.exact node (mem_of_find?_eq_some found) packet holds
  have unlisted : Directed { s with wqListExact := State.unlist s.wqListExact tid } :=
    directed.unlistExact
  have handed := unlisted.hand (.inr (res.1.trans meant))
  exact Directed.leave (handed.same rfl rfl rfl rfl rfl)

end

end Directed

/-! ## One place for each packet -/

/-- A packet that has come is in one place, or has been released once; it waits for a thread,
has been handed to one or was not served; and what is owed an answer has been answered when it is
released. -/
structure Accounted (state : State) : Prop where
  balance : ∀ packet, state.pending packet + state.owned packet + state.released.count packet =
    state.received.count packet
  handed : ∀ packet, state.pending packet + state.handovers packet +
    state.unserved.count packet = state.received.count packet
  answers : ∀ packet, state.answered.count packet ≤ state.released.count packet ∧
    (packet.owed → state.answered.count packet = state.released.count packet)
  fresh : ∀ packet ∈ state.received, packet.id < state.received.length
  once : state.received.Nodup

section Accounted

/-- No answer without a release, and what is owed an answer has it when it is released. -/
def Answered (answered released : List Packet) : Prop :=
  ∀ packet : Packet, answered.count packet ≤ released.count packet ∧
    (packet.owed → answered.count packet = released.count packet)

section Answered

variable {answered released : List Packet} {finished : Packet}

theorem count_cons (packet o : Packet) (rest : List Packet) :
    (o :: rest).count packet = rest.count packet + packet.weight o := by
  rw [List.count_cons, Packet.weight]
  simp only [beq_iff_eq]

theorem Answered.append (answers : Answered answered released) (left : List Packet) :
    Answered (left ++ answered) (left ++ released) := by
  intro packet
  obtain ⟨bound, equal⟩ := answers packet
  rw [count_append, count_append]
  exact ⟨by omega, fun owed => by rw [equal owed]⟩

theorem Answered.drop (answers : Answered answered released) (free : ¬finished.owed) :
    Answered answered (finished :: released) := by
  intro packet
  obtain ⟨bound, equal⟩ := answers packet
  rw [count_cons]
  refine ⟨by omega, fun owed => ?_⟩
  have ne : finished ≠ packet := by
    rintro rfl
    exact free owed
  rw [equal owed, Packet.weight, if_neg ne, add_zero]

end Answered

theorem Accounted.move (accounted : Accounted s) (received : next.received = s.received)
    (moved : ∀ packet,
      next.pending packet + next.owned packet + next.released.count packet =
        s.pending packet + s.owned packet + s.released.count packet ∧
      next.pending packet + next.handovers packet + next.unserved.count packet =
        s.pending packet + s.handovers packet + s.unserved.count packet)
    (answers : Answered next.answered next.released) : Accounted next where
  balance packet := by
    rw [(moved packet).1, received]
    exact accounted.balance packet
  handed packet := by
    rw [(moved packet).2, received]
    exact accounted.handed packet
  answers := answers
  fresh := by
    rw [received]
    exact accounted.fresh
  once := by
    rw [received]
    exact accounted.once

section Totals

variable {old : Phase}

theorem total_goto (here : s.phase tid = some old) (phase : Phase) (weight : Worker → Nat) :
    total weight (s.goto tid phase).inside + weight ⟨tid, old⟩ =
      total weight s.inside + weight ⟨tid, phase⟩ := by
  have erased : total weight s.inside =
      weight ⟨tid, old⟩ + total weight (s.inside.eraseP (·.tid == tid)) :=
    total_eraseP (exists_worker here)
  simp only [goto, total_cons]
  omega

/-- A thread takes the packets of its phase along. -/
theorem totals_goto (here : s.phase tid = some old) (phase : Phase) (packet : Packet) :
    total (Worker.pendingWeight packet) (s.goto tid phase).inside +
        Worker.pendingWeight packet ⟨tid, old⟩ =
      total (Worker.pendingWeight packet) s.inside + Worker.pendingWeight packet ⟨tid, phase⟩ ∧
    total (Worker.claimedWeight packet) (s.goto tid phase).inside +
        Worker.claimedWeight packet ⟨tid, old⟩ =
      total (Worker.claimedWeight packet) s.inside + Worker.claimedWeight packet ⟨tid, phase⟩ :=
  ⟨total_goto here phase _, total_goto here phase _⟩

theorem totals_leave (here : s.phase tid = some old) (packet : Packet) :
    total (Worker.pendingWeight packet) (s.leave tid).inside +
        Worker.pendingWeight packet ⟨tid, old⟩ =
      total (Worker.pendingWeight packet) s.inside ∧
    total (Worker.claimedWeight packet) (s.leave tid).inside +
        Worker.claimedWeight packet ⟨tid, old⟩ =
      total (Worker.claimedWeight packet) s.inside := by
  have moved := totals_goto here .entering packet
  simp only [goto, total_cons, Worker.pendingWeight, Worker.claimedWeight] at moved
  simp only [leave, Worker.pendingWeight, Worker.claimedWeight]
  omega

theorem total_getRecord :
    total (PerThreadData.weight packet) (getRecord tid records) =
      total (PerThreadData.weight packet) records :=
  total_update_same fun _ => rfl

theorem total_putRecord
    (found : records.find? (·.tid == tid) = some ptd) (more : ptd.refcount ≠ 1) :
    total (PerThreadData.weight packet) (putRecord tid records) =
      total (PerThreadData.weight packet) records := by
  rw [putRecord_more found more]
  exact total_update_same fun _ => rfl

theorem count_data (records : List PerThreadData) :
    (records.map PerThreadData.data).count packet =
      total (PerThreadData.weight packet) records := by
  induction records with
  | nil => rfl
  | cons ptd rest ih =>
    rw [map_cons, count_cons, total_cons, ih, PerThreadData.weight, add_comm]

theorem count_packetsOf (nodes : List Node) :
    (packetsOf nodes).count packet = total (Node.weight packet) nodes := by
  induction nodes with
  | nil => rfl
  | cons node rest ih =>
    rw [total_cons, ← ih, packetsOf, packetsOf, Node.weight]
    cases holds : node.packet with
    | none => simp [holds]
    | some held => simp [holds, count_cons, add_comm]

theorem weight_of_empty (empty : node.packet = none) : node.weight packet = 0 := by
  rw [Node.weight, empty, Option.elim_none]

theorem empty_of_available (free : available node = true) : node.packet = none := by
  simp only [available, Node.req, Bool.and_eq_true, Bool.not_eq_true',
    Option.isSome_eq_false_iff, Option.isNone_iff_eq_none] at free
  exact free.2

variable {nodes : List Node} (found : nodes.find? test = some node)
include found

theorem total_fill (empty : node.packet = none) (packet o : Packet) :
    total (Node.weight o) (update test (fill packet) nodes) =
      total (Node.weight o) nodes + o.weight packet := by
  have filled : total (Node.weight o) (update test (fill packet) nodes) +
      node.weight o = total (Node.weight o) nodes + (fill packet node).weight o :=
    total_update found
  rw [weight_of_empty empty] at filled
  exact filled

theorem total_taken (holds : node.packet = some packet) (o : Packet) :
    total (Node.weight o) nodes =
      o.weight packet + total (Node.weight o) (nodes.eraseP test) := by
  rw [total_eraseP found, Node.weight, holds, Option.elim_some]

end Totals

variable {old : Phase}

theorem Accounted.same (accounted : Accounted s)
    (same : (next.received, next.handed, next.answered, next.released, next.unserved) =
      (s.received, s.handed, s.answered, s.released, s.unserved))
    (kept : ∀ packet, next.pending packet = s.pending packet ∧
      next.owned packet = s.owned packet) : Accounted next := by
  simp only [Prod.mk.injEq] at same
  obtain ⟨received, handed, answered, released, unserved⟩ := same
  refine accounted.move received (fun packet => ?_) ?_
  · rw [(kept packet).1, (kept packet).2, handovers, handovers, handed, released, unserved]
    exact ⟨rfl, rfl⟩
  · rw [answered, released]
    exact accounted.answers

theorem Accounted.putPerProcData (accounted : Accounted s) (refs : Referenced s)
    (pending : s.puts ≠ 0) :
    Accounted { s with puts := s.puts - 1 }.putPerProcData := by
  unfold State.putPerProcData
  split
  next last =>
    have last : s.refcount = 1 := last
    have count := refs.count
    have inside : s.inside = [] := eq_nil_of_length_eq_zero (by omega)
    obtain ⟨wqList, wqListExact⟩ := refs.no_waiters inside
    refine accounted.move rfl (fun packet => ?_) (Answered.append accounted.answers _)
    simp only [State.pending, State.owned, State.handovers, count_append, inside,
      wqList, wqListExact, total_nil, count_data, count_packetsOf]
    omega
  · exact accounted.same rfl fun _ => ⟨rfl, rfl⟩

theorem Accounted.arrive (accounted : Accounted s) {ttid : Tid} {call : Call} {valid : Bool}
    (isPacket : packet = ⟨s.received.length, ttid, call, valid⟩)
    (received : next.received = packet :: s.received)
    (moved : ∀ o,
      next.pending o + next.owned o + next.released.count o = s.pending o +
        s.owned o + s.released.count o + o.weight packet ∧
      next.pending o + next.handovers o + next.unserved.count o =
        s.pending o + s.handovers o + s.unserved.count o + o.weight packet)
    (answers : Answered next.answered next.released) : Accounted next where
  balance o := by
    have before := accounted.balance o
    rw [(moved o).1, received, count_cons]
    omega
  handed o := by
    have before := accounted.handed o
    rw [(moved o).2, received, count_cons]
    omega
  answers := answers
  fresh o isOther := by
    rw [received, mem_cons] at isOther
    rw [received, length_cons]
    rcases isOther with rfl | isOther
    · rw [isPacket]
      exact lt_succ_self _
    · exact lt_succ_of_lt (accounted.fresh o isOther)
  once := by
    rw [received, nodup_cons]
    refine ⟨fun isOld => ?_, accounted.once⟩
    have old := accounted.fresh packet isOld
    rw [isPacket] at old
    exact lt_irrefl _ old

section

variable (accounted : Accounted s)
include accounted

theorem Accounted.place
    (same : (next.received, next.handed, next.answered, next.released, next.unserved) =
      (s.received, s.handed, s.answered, s.released, s.unserved))
    (stays : (next.inside, next.perThreadData) = (s.inside, s.perThreadData))
    (left : ∀ o : Packet, total o.weight s.arriving =
      o.weight packet + total o.weight next.arriving)
    (placed : ∀ o, total (Node.weight o) next.wqList +
      total (Node.weight o) next.wqListExact + total (Node.weight o) next.wqReqList =
      total (Node.weight o) s.wqList + total (Node.weight o) s.wqListExact +
        total (Node.weight o) s.wqReqList + o.weight packet) : Accounted next := by
  simp only [Prod.mk.injEq] at stays
  obtain ⟨inside, records⟩ := stays
  refine accounted.same same fun o => ?_
  have leftOther := left o
  have placedOther := placed o
  simp only [pending, owned, inside, records, and_true]
  omega

theorem Accounted.deliver
    (found : s.arriving.find? (·.id == id) = some packet) (expected : Expected s packet) :
    Accounted ({ s with
      arriving := s.arriving.eraseP (·.id == id), puts := s.puts + 1 }.deliver packet) := by
  have left : ∀ o : Packet, total o.weight s.arriving =
      o.weight packet + total o.weight (s.arriving.eraseP (·.id == id)) :=
    fun o => total_eraseP found
  have queuedWeight : ∀ o, (queued packet).weight o = o.weight packet := fun _ => rfl
  unfold State.deliver
  split_ifs with anyone waits migrates exactly <;>
    refine accounted.place rfl rfl left fun o => ?_
  · obtain ⟨node, isNode⟩ :=
      Option.isSome_iff_exists.mp (find?_isSome.mpr (any_eq_true.mp waits))
    simp only [total_fill isNode (empty_of_available (find?_some isNode))]
    omega
  · simp only [total_append, total_cons, total_nil, queuedWeight]
    omega
  · obtain ⟨node, isNode, free⟩ := (Option.any_eq_true _ _).mp migrates.2
    simp only [total_fill isNode (empty_of_available free)]
    omega
  · rcases expected anyone with ⟨node, isNode, _, empty⟩ | ⟨absent, _⟩
    · simp only [total_fill isNode empty]
      omega
    · obtain ⟨node, isNode, meant⟩ := any_eq_true.mp exactly
      exact absurd meant (find?_eq_none.mp absent node isNode)
  · simp only [total_append, total_cons, total_nil, queuedWeight]
    omega

theorem Accounted.takeQueued
    (here : s.phase tid = some .entering) (found : s.wqReqList.find? test = some node)
    (taken : s.takeQueued tid test node = some next) : Accounted next := by
  obtain ⟨packet, holds, rfl⟩ := Option.map_eq_some_iff.mp taken
  refine accounted.move rfl (fun o => ?_) accounted.answers
  have erased := total_taken found holds o
  have moved := totals_goto here (.claimed packet) o
  simp only [pending, owned, handovers, goto, hand, total_cons,
    Worker.pendingWeight, Worker.claimedWeight] at moved ⊢
  omega

theorem Accounted.goto (here : s.phase tid = some old) {phase : Phase}
    (same : ∀ o, Worker.pendingWeight o ⟨tid, phase⟩ = Worker.pendingWeight o ⟨tid, old⟩ ∧
      Worker.claimedWeight o ⟨tid, phase⟩ = Worker.claimedWeight o ⟨tid, old⟩) :
    Accounted (s.goto tid phase) := by
  refine accounted.same rfl fun o => ?_
  have moved := totals_goto here phase o
  have sameOther := same o
  simp only [pending, owned]
  simp only [State.goto] at moved ⊢
  omega

theorem Accounted.claim (here : s.phase tid = some .entering)
    (taken : s.claim tid = some next) : Accounted next := by
  unfold State.claim at taken
  split at taken
  next node found => exact accounted.takeQueued here found taken
  · split at taken
    next node found => exact accounted.takeQueued here found taken
    · cases taken
      have added : Accounted { s with wqList := ⟨some tid, tid, none⟩ :: s.wqList } := by
        refine accounted.same rfl fun o => ⟨?_, rfl⟩
        simp only [pending, total_cons, weight_of_empty, zero_add]
      exact added.goto here fun _ => ⟨rfl, rfl⟩

theorem Accounted.wake (here : s.phase tid = some .waiting)
    (found : s.wqList.find? (·.rtid == tid) = some node) (holds : node.packet = some packet) :
    Accounted (({ s with wqList := unlist s.wqList tid }.hand packet tid).goto tid
      (.claimed packet)) := by
  refine accounted.move rfl (fun o => ?_) accounted.answers
  have erased := total_taken found holds o
  have moved := totals_goto here (.claimed packet) o
  simp only [State.pending, State.owned, State.handovers, State.goto, State.hand, State.unlist,
    total_cons, Worker.pendingWeight, Worker.claimedWeight] at moved ⊢
  omega

theorem Accounted.unlink (here : s.phase tid = some .signalled)
    (found : s.wqList.find? (·.rtid == tid) = some node) :
    Accounted ({ s with wqList := unlist s.wqList tid }.goto tid
      (.interrupted node)) := by
  refine accounted.same rfl fun o => ?_
  have erased : total (Node.weight o) s.wqList =
      node.weight o + total (Node.weight o) (unlist s.wqList tid) :=
    total_eraseP found
  have moved := totals_goto here (.interrupted node) o
  simp only [State.pending, State.owned, State.goto, Worker.pendingWeight, Worker.claimedWeight]
    at moved ⊢
  omega

theorem Accounted.requeue
    (here : s.phase tid = some (.interrupted node)) : Accounted (s.requeue tid node) := by
  unfold State.requeue
  split
  · refine accounted.same rfl fun o => ?_
    have left := totals_leave here o
    simp only [pending, owned, leave, Worker.pendingWeight, Worker.claimedWeight,
      total_append, total_cons, total_nil] at left ⊢
    omega
  next empty =>
    have none : node.packet = none := by simpa [Node.req] using empty
    refine accounted.same rfl fun o => ?_
    have left := totals_leave here o
    simp only [pending, owned, leave, Worker.pendingWeight, Worker.claimedWeight,
      weight_of_empty none] at left ⊢
    omega

theorem Accounted.register (refs : Referenced s)
    (here : s.phase tid = some (.claimed packet)) :
    Accounted (s.register tid packet true) := by
  unfold State.register
  split_ifs with stray fits
  · have free : ¬packet.owed := fun owed => by simp [owed.1] at stray
    refine accounted.move rfl (fun o => ?_) (Answered.drop accounted.answers free)
    have moved := totals_goto here .entering o
    simp only [State.pending, State.owned, State.handovers, State.goto, State.release, count_cons,
      Worker.pendingWeight, Worker.claimedWeight] at moved ⊢
    omega
  · refine accounted.same rfl fun o => ?_
    have moved := totals_goto here .handling o
    simp only [State.pending, State.owned, State.goto, State.addPerThreadData, total_append,
      total_cons, total_nil, PerThreadData.weight, Worker.pendingWeight, Worker.claimedWeight]
      at moved ⊢
    omega
  · refine absurd ⟨rfl, find?_eq_none.mpr fun ptd isPtd => ?_⟩ fits
    simpa using refs.recorded.absent (by simp [here, Holds]) ptd isPtd

theorem Accounted.finish (found : s.findPerThreadData tid = some ptd)
    (same : (next.received, next.arriving, next.wqList, next.wqListExact, next.wqReqList,
      next.handed, next.unserved) = (s.received, s.arriving, s.wqList, s.wqListExact,
      s.wqReqList, s.handed, s.unserved))
    (records : next.perThreadData = s.perThreadData.eraseP (·.tid == tid))
    (inside : ∀ o, total (Worker.pendingWeight o) next.inside =
        total (Worker.pendingWeight o) s.inside ∧
      total (Worker.claimedWeight o) next.inside =
        total (Worker.claimedWeight o) s.inside)
    (released : next.released = ptd.data :: s.released)
    (answered : next.answered = ptd.data :: s.answered ∨
      next.answered = s.answered ∧ ¬ptd.data.owed) : Accounted next := by
  simp only [Prod.mk.injEq] at same
  obtain ⟨received, arriving, wqList, wqListExact, wqReqList, handed, unserved⟩ := same
  refine accounted.move received (fun o => ?_) ?_
  · have erased : total (PerThreadData.weight o) s.perThreadData =
        ptd.weight o + total (PerThreadData.weight o)
          (s.perThreadData.eraseP (·.tid == tid)) := total_eraseP found
    rw [PerThreadData.weight] at erased
    simp only [pending, owned, handovers, arriving, wqList, wqListExact, wqReqList,
      inside, records, released, handed, unserved, count_cons, and_true]
    omega
  · rw [released]
    rcases answered with answered | ⟨answered, free⟩
    · rw [answered]
      exact Answered.append accounted.answers [ptd.data]
    · rw [answered]
      exact Answered.drop accounted.answers free

theorem Accounted.execute (refs : Referenced s) (here : s.phase tid = some .handling)
    (found : s.findPerThreadData tid = some ptd) :
    Accounted (s.execute tid ptd.data) := by
  have refcount := refs.recorded.of_found found
  rw [here, inUse] at refcount
  -- Neither the phase that ends here nor the next one holds a packet.
  have inside := totals_goto here .entering
  have finished : ptd.data.call ≠ .migrate →
      putRecord tid (putRecord tid s.perThreadData) =
        s.perThreadData.eraseP (·.tid == tid) := fun stays => by
    have single : atRest ptd.data = 1 := if_neg stays
    exact putRecord_putRecord found (by omega)
  have stays : ∀ o, total (PerThreadData.weight o) (putRecord tid s.perThreadData) =
      total (PerThreadData.weight o) s.perThreadData := fun o => by
    have pos : 0 < atRest ptd.data := atRest_pos
    exact total_putRecord found (by omega)
  -- The unfolded updates keep the unifier from comparing the nested states field by field.
  unfold State.execute
  split
  iterate 2
    next isCall =>
      simp only [putPerThreadData, release, answer]
      exact accounted.finish found rfl (finished (by simp [isCall])) inside rfl (.inl rfl)
  next isCall =>
    exact accounted.finish found rfl (finished (by simp [isCall])) inside rfl
      (.inr ⟨rfl, fun owed => owed.2.1 isCall⟩)
  all_goals
    refine accounted.same rfl fun o => ?_
    have left := totals_leave here o
    simp only [pending, owned, leave, putPerThreadData,
      Worker.pendingWeight, Worker.claimedWeight, stays] at left ⊢
    omega

theorem Accounted.ret (refs : Referenced s)
    (outside : s.phase tid = none) (ordinary : ∀ ptd, s.findPerThreadData tid = some ptd →
      ptd.data.call ≠ .migrate) : Accounted (s.ret tid true) := by
  unfold State.ret
  split
  · exact accounted.same rfl fun _ => ⟨rfl, rfl⟩
  next ptd found =>
    exact accounted.finish found rfl (refs.ret_records outside found (ordinary ptd found))
      (fun _ => ⟨rfl, rfl⟩) rfl (.inl rfl)

theorem Accounted.terminate (refs : Referenced s) (outside : s.phase tid = none)
    (migrates : ∀ ptd, s.findPerThreadData tid = some ptd → ptd.data.call = .migrate)
    (taken : terminate { s with hostThreads := s.hostThreads.erase tid } tid tid =
      some next) : Accounted next := by
  unfold State.terminate at taken
  split at taken
  · cases taken
    exact accounted.same rfl fun _ => ⟨rfl, rfl⟩
  next ptd found =>
    have two := refs.two_of_migrate outside found (migrates ptd found)
    simp only [ne_eq, not_true_eq_false, if_false, two, lt_irrefl] at taken
    cases taken
    exact accounted.finish found rfl (putRecord_three found two) (fun _ => ⟨rfl, rfl⟩) rfl
      (.inl rfl)

end

theorem total_putRecord_backward (refs : Referenced s)
    (here : s.phase tid = some .backward) :
    total (PerThreadData.weight packet) (putRecord tid s.perThreadData) =
      total (PerThreadData.weight packet) s.perThreadData := by
  cases found : s.perThreadData.find? (·.tid == tid) with
  | none => simp [putRecord, found]
  | some ptd =>
    have refcount := refs.recorded.of_found found
    rw [here, inUse] at refcount
    have pos : 0 < atRest ptd.data := atRest_pos
    exact total_putRecord found (by omega)

theorem Accounted.startBackward (accounted : Accounted s) :
    Accounted ((s.startBackward tid).getPerThreadData tid) := by
  refine accounted.same rfl fun o => ?_
  have empty : (⟨some tid, tid, none⟩ : Node).weight o = 0 := rfl
  simp only [State.pending, State.owned, State.startBackward, State.getPerThreadData, total_append,
    total_cons, total_nil, empty, total_getRecord, Worker.pendingWeight, Worker.claimedWeight]
  omega

theorem Accounted.wakeBackward (accounted : Accounted s) (refs : Referenced s)
    (directed : Directed s) (here : s.phase tid = some .backward)
    (found : s.wqListExact.find? (·.rtid == tid) = some node)
    (holds : node.packet = some packet) :
    Accounted (((({ s with wqListExact := unlist s.wqListExact tid }.hand packet
      tid).release packet).putPerThreadData tid).leave tid) := by
  obtain ⟨_, specific, stays⟩ := directed.exact node (mem_of_find?_eq_some found) packet holds
  have free : ¬packet.owed := fun owed => owed.2.2.elim specific stays
  refine accounted.move rfl (fun o => ?_) (Answered.drop accounted.answers free)
  have erased := total_taken found holds o
  have left := totals_leave here o
  simp only [pending, owned, handovers, leave, putPerThreadData,
    release, hand, unlist, count_cons, total_cons,
    total_putRecord_backward refs here, Worker.pendingWeight, Worker.claimedWeight] at left ⊢
  omega

theorem Accounted.quitBackward (accounted : Accounted s) (refs : Referenced s)
    (here : s.phase tid = some .backward)
    (empty : (s.wqListExact.find? (·.rtid == tid)).bind Node.packet = none) :
    Accounted (({ s with wqListExact := unlist s.wqListExact tid }.putPerThreadData
      tid).leave tid) := by
  have same : ∀ o, total (Node.weight o) (unlist s.wqListExact tid) =
      total (Node.weight o) s.wqListExact := fun o => by
    cases found : s.wqListExact.find? (·.rtid == tid) with
    | none =>
      rw [unlist, eraseP_of_forall_not fun node isNode => find?_eq_none.mp found node isNode]
    | some node =>
      rw [found, Option.bind_some] at empty
      rw [total_eraseP found, weight_of_empty empty, zero_add, unlist]
  refine accounted.same rfl fun o => ?_
  have left := totals_leave here o
  simp only [pending, owned, leave, putPerThreadData, same,
    total_putRecord_backward refs here, Worker.pendingWeight, Worker.claimedWeight] at left ⊢
  omega

/-- Every step of a regular run keeps the references right, the packets where they belong and
the account. -/
theorem exec_regular (refs : Referenced s) (directed : Directed s)
    (accounted : Accounted s) (isRegular : Regular s op)
    (taken : exec s op = some next) : Referenced next ∧ Directed next ∧ Accounted next := by
  have count := refs.count
  -- Steps that touch only the counters of references.
  have quiet : ∀ {next : State}, next = { s with
        refcount := next.refcount, opened := next.opened, puts := next.puts,
        hostThreads := next.hostThreads } → Directed next ∧ Accounted next := by
    intro next same
    rw [same]
    exact ⟨directed.same rfl rfl rfl rfl rfl,
      accounted.same rfl fun _ => ⟨rfl, rfl⟩⟩
  cases op with simp only [exec] at taken
  | create =>
    split_ifs at taken with absent <;> cases taken
    · have idle := refs.idle absent
      refine ⟨refs.counters rfl ?_ fun gone => absurd gone (by simp), quiet rfl⟩
      simp only [Bool.toNat_true]
      omega
    · exact ⟨refs.pass, quiet rfl⟩
  | destroy =>
    split_ifs at taken with closed absent <;> cases taken
    · refine ⟨refs.counters rfl ?_ refs.gone, quiet rfl⟩
      simp only [Bool.toNat_false]
      omega
    · have opened : s.opened.toNat = 1 := by
        rw [Bool.not_eq_false] at closed
        rw [closed, Bool.toNat_true]
      refine ⟨refs.counters rfl ?_ fun gone => absurd gone (by simp), quiet rfl⟩
      simp only [Bool.toNat_false]
      omega
  | put =>
    split_ifs at taken with idle
    cases taken
    refine ⟨refs.putPerProcData (not_or.mp idle).1, ?_,
      accounted.putPerProcData refs (not_or.mp idle).1⟩
    unfold putPerProcData
    split
    · exact directed.congr (fun _ isNode => by cases isNode) (fun _ isNode => by cases isNode)
        (fun _ isNode => by cases isNode) rfl rfl
    · exact directed.same rfl rfl rfl rfl rfl
  | arrive ttid call valid =>
    split_ifs at taken <;> cases taken
    · refine ⟨refs.counters rfl refs.count refs.gone, directed.same rfl rfl rfl rfl rfl,
        accounted.arrive rfl rfl (fun o => ?_) (Answered.append accounted.answers
          [⟨s.received.length, ttid, call, valid⟩])⟩
      simp only [pending, owned, handovers, answer, release,
        count_cons]
      omega
    · refine ⟨refs.counters rfl ?_ fun gone => absurd gone (by simp),
        directed.same rfl rfl rfl rfl rfl,
        accounted.arrive rfl rfl (fun o => ?_) accounted.answers⟩
      · simp only [length_cons]
        omega
      · simp only [pending, owned, handovers, total_cons]
        omega
  | deliver id =>
    split_ifs at taken with absent
    obtain ⟨packet, found, rfl⟩ := Option.map_eq_some_iff.mp taken
    have expected := expected_of_regular isRegular found
    exact ⟨refs.deliver absent found, Directed.deliver (directed.same rfl rfl rfl rfl rfl) expected,
      accounted.deliver found expected⟩
  | enter tid =>
    split_ifs at taken with inside absent busy <;> cases taken
    · exact ⟨refs, directed, accounted⟩
    · exact ⟨refs.pass, quiet rfl⟩
    · refine ⟨refs.enter (not_not.mp inside) (not_not.mp busy), { directed with
        interrupted := directed.interrupted_cons (List.Sublist.refl _) nofun },
        accounted.same rfl fun o => ?_⟩
      simp only [pending, owned, total_cons, Worker.pendingWeight,
        Worker.claimedWeight, zero_add, and_self]
  | claim tid =>
    split_ifs at taken with here
    exact ⟨refs.claim here.1 here.2 taken, directed.claim taken, accounted.claim here.2 taken⟩
  | wake tid =>
    split_ifs at taken with here
    obtain ⟨packet, holds, rfl⟩ := Option.map_eq_some_iff.mp taken
    obtain ⟨node, found, holds⟩ := Option.bind_eq_some_iff.mp holds
    have moved : Referenced
        ({ s with wqList := unlist s.wqList tid }.goto tid (.claimed packet)) :=
      refs.unlist here.1 here.2 (.inl rfl)
    have meant : node.rtid = tid := by simpa using find?_some found
    have fits := (directed.waiting node (mem_of_find?_eq_some found)).ttid holds
    rw [meant] at fits
    exact ⟨moved.history _ _ _,
      (directed.unlist.hand fits).goto nofun, accounted.wake here.2 found holds⟩
  | signal tid =>
    split_ifs at taken with here
    cases taken
    exact ⟨refs.signal here.1 here.2.1, directed.goto nofun,
      accounted.goto here.2.1 fun _ => ⟨rfl, rfl⟩⟩
  | unlink tid =>
    split_ifs at taken with here
    obtain ⟨node, found, rfl⟩ := Option.map_eq_some_iff.mp taken
    refine ⟨refs.unlist here.1 here.2 (.inr rfl), directed.unlist.goto fun o isNode => ?_,
      accounted.unlink here.2 found⟩
    cases isNode
    exact directed.waiting node (mem_of_find?_eq_some found)
  | requeue tid =>
    split at taken
    next node here =>
      split_ifs at taken with absent
      cases taken
      exact ⟨refs.requeue absent here, directed.requeue here, accounted.requeue here⟩
    · cases taken
  | register tid allocated =>
    obtain rfl : allocated = true := isRegular
    split at taken
    next packet here =>
      split_ifs at taken with absent
      cases taken
      exact ⟨refs.register absent here true, directed.register true, accounted.register refs here⟩
    · cases taken
  | execute tid =>
    split_ifs at taken with here
    obtain ⟨ptd, found, rfl⟩ := Option.map_eq_some_iff.mp taken
    exact ⟨refs.execute here.1 here.2 found, directed.execute, accounted.execute refs here.2 found⟩
  | ret tid readable copied =>
    simp only [Regular, regular, Bool.and_eq_true, Option.all_eq_true, decide_eq_true_eq]
      at isRegular
    obtain ⟨rfl, migrates⟩ := isRegular
    split_ifs at taken with inside <;> cases taken
    · exact ⟨refs, directed, accounted⟩
    · exact ⟨refs.ret (not_not.mp inside) true migrates, directed.ret true,
        accounted.ret refs (not_not.mp inside) migrates⟩
  | utilThread tid =>
    have alive : s.refcount ≠ 0 := of_decide_eq_true isRegular
    rw [if_neg alive] at taken
    cases taken
    refine ⟨refs.counters rfl ?_ fun gone => absurd gone (by simp), quiet rfl⟩
    simp only [length_cons]
    omega
  | terminate tid tsk =>
    simp only [Regular, regular, Bool.and_eq_true, Option.all_eq_true, decide_eq_true_eq,
      Option.isNone_iff_eq_none] at isRegular
    obtain ⟨⟨rfl, outside⟩, migrates⟩ := isRegular
    split_ifs at taken with host absent
    · have pos := length_pos_of_mem host
      omega
    · exact ⟨refs.terminate outside host migrates taken, Directed.terminate (quiet rfl).1 taken,
        accounted.terminate refs outside migrates taken⟩
    · cases taken
      exact ⟨refs, directed, accounted⟩
  | backward tid =>
    split_ifs at taken with inside absent busy <;> cases taken
    · exact ⟨refs, directed, accounted⟩
    · exact ⟨refs.pass, quiet rfl⟩
    · exact ⟨refs.startBackward (not_not.mp inside), directed.startBackward,
        accounted.startBackward⟩
  | backwardWake tid =>
    split_ifs at taken with here
    obtain ⟨packet, holds, rfl⟩ := Option.map_eq_some_iff.mp taken
    obtain ⟨node, found, holds⟩ := Option.bind_eq_some_iff.mp holds
    exact ⟨(refs.quitBackward here.1 here.2).history _ _ _, directed.wakeBackward found holds,
      accounted.wakeBackward refs directed here.2 found holds⟩
  | backwardQuit tid =>
    split_ifs at taken with here
    cases taken
    exact ⟨refs.quitBackward here.1 here.2,
      Directed.leave (directed.unlistExact.same rfl rfl rfl rfl rfl),
      accounted.quitBackward refs here.2 (Option.isNone_iff_eq_none.mp isRegular)⟩

end Accounted

/-! ## Regular runs -/

theorem boot_referenced : Referenced boot :=
  ⟨rfl, nodup_nil, .nil, .nil, ⟨nodup_nil, by simp [boot], by simp [boot]⟩,
    fun _ => ⟨rfl, rfl⟩⟩

theorem boot_directed : Directed boot :=
  ⟨by simp [boot], by simp [boot], by simp [boot], by simp [boot], by simp [boot]⟩

theorem boot_accounted : Accounted boot :=
  ⟨fun _ => rfl, fun _ => rfl, fun _ => ⟨le_refl _, fun _ => rfl⟩, by simp [boot], nodup_nil⟩

theorem invariants (reached : (machine.restrict Regular).Reachable s) :
    Referenced s ∧ Directed s ∧ Accounted s := by
  refine reached.invariant (fun s => Referenced s ∧ Directed s ∧ Accounted s) ?_ ?_
  · rintro _ rfl
    exact ⟨boot_referenced, boot_directed, boot_accounted⟩
  · rintro s op next _ ⟨refs, directed, accounted⟩ ⟨isRegular, taken⟩
    exact exec_regular refs directed accounted isRegular taken

end McKernel.Mcctrl
