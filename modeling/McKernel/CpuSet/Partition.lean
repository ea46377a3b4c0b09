import McKernel.CpuSet.Model

/-!
# The CPU sets of an execution are a partition

Choosing CPUs takes one unused CPU after the other.  Around it, the calls of an execution
form a queue: nobody is woken before all have joined, at most one call at a time has its
turn, and it passes the turn on to the next in the order of start times.
-/

namespace McKernel.CpuSet

open Errno List Function State Nat

/-! ## Choosing CPUs -/

namespace Topology

variable {topology : Topology} {used : List Nat} {cpu : Nat}

theorem nextUnused_spec (found : topology.nextUnused used = some cpu) :
    cpu < topology.nCpus ∧ cpu ∉ used := by
  obtain ⟨unused, member⟩ := And.intro (find?_some found) (mem_of_find?_eq_some found)
  exact ⟨mem_range.mp member, of_decide_eq_true unused⟩

theorem sameCache_spec (found : topology.sameCache top used = some cpu) :
    cpu < topology.nCpus ∧ cpu ∉ used := by
  obtain ⟨unused, member⟩ := And.intro (find?_some found) (mem_of_find?_eq_some found)
  obtain ⟨_, _, translated⟩ := mem_flatMap.mp member
  exact ⟨mem_range.mp (mem_filter.mp translated).1, of_decide_eq_true unused⟩

variable {before toUse used' : List Nat} {prev : Nat}

theorem sameNode_spec (found : topology.sameNode prev used = some cpu) :
    cpu < topology.nCpus ∧ cpu ∉ used := by
  obtain ⟨chosen, member⟩ := And.intro (find?_some found) (mem_of_find?_eq_some found)
  exact ⟨mem_range.mp member, (of_decide_eq_true chosen).1⟩

theorem nextCpu_spec (found : topology.nextCpu prev used = some cpu) :
    cpu < topology.nCpus ∧ cpu ∉ used := by
  unfold nextCpu at found
  split at found
  · cases found
  · rcases Option.or_eq_some_iff.mp found with cached | ⟨-, found⟩
    · exact sameCache_spec cached
    · rcases Option.or_eq_some_iff.mp found with near | ⟨-, unused⟩
      · exact sameNode_spec near
      · exact nextUnused_spec unused

/-- The CPUs of a share: valid, distinct and unused before. -/
structure Takes (topology : Topology) (before used toUse : List Nat) : Prop where
  nodup : toUse.Nodup
  inside : ∀ cpu ∈ toUse, cpu < topology.nCpus
  unused : ∀ cpu ∈ toUse, cpu ∉ before
  used : ∀ cpu, cpu ∈ used ↔ cpu ∈ toUse ∨ cpu ∈ before

theorem Takes.take (takes : Takes topology before used toUse)
    (inside : cpu < topology.nCpus) (unused : cpu ∉ used) :
    Takes topology before (cpu :: used) (cpu :: toUse) := by
  rw [takes.used, not_or] at unused
  refine ⟨nodup_cons.mpr ⟨unused.1, takes.nodup⟩, ?_, ?_, ?_⟩
  · rintro o (_ | ⟨_, member⟩)
    · exact inside
    · exact takes.inside o member
  · rintro o (_ | ⟨_, member⟩)
    · exact unused.2
    · exact takes.unused o member
  · intro o
    rw [mem_cons, mem_cons, takes.used, or_assoc]

theorem assign_spec {count : Nat} (takes : Takes topology before used toUse)
    (assigned : topology.assign count prev used toUse = some (used', toUse')) :
    Takes topology before used' toUse' ∧ toUse'.length = toUse.length + count := by
  induction count generalizing prev used toUse with
  | zero =>
    cases assigned
    exact ⟨takes, rfl⟩
  | succ count ih =>
    unfold assign at assigned
    split at assigned
    · cases assigned
    next cpu found =>
      obtain ⟨inside, unused⟩ := nextCpu_spec found
      obtain ⟨taken, length⟩ := ih (takes.take inside unused) assigned
      refine ⟨taken, ?_⟩
      rw [length, length_cons]
      omega

theorem select_spec (selected : topology.select used nrProcesses = some (used', toUse)) :
    Takes topology used used' toUse ∧
      toUse.length = max 1 (topology.nCpus / nrProcesses) := by
  unfold select at selected
  split at selected
  · cases selected
  next cpu found =>
    obtain ⟨inside, unused⟩ := nextUnused_spec found
    have nothing : Takes topology used used [] := ⟨nodup_nil, by simp, by simp, by simp⟩
    obtain ⟨taken, length⟩ := assign_spec (nothing.take inside unused) selected
    refine ⟨taken, ?_⟩
    rw [length, length_singleton]
    omega

end Topology

/-! ## The queue of an execution -/

variable {config : Config} {s next : State} {pe id : Nat}

def Config.start (config : Config) (id : Nat) : Nat := (config.request id).startTime

/-- The CPUs handed out in an execution so far. -/
structure Shares (config : Config) (exec : PartExec) : Prop where
  inside : ∀ handed ∈ exec.handed, ∀ cpu ∈ handed.cpus, cpu < config.topology.nCpus
  nodup : ∀ handed ∈ exec.handed, handed.cpus.Nodup
  size : ∀ handed ∈ exec.handed,
    handed.cpus.length = max 1 (config.topology.nCpus / exec.nrProcesses.toNat)
  disjoint : exec.handed.Pairwise fun left right => ∀ cpu ∈ left.cpus, cpu ∉ right.cpus
  used : ∀ handed ∈ exec.handed, ∀ cpu ∈ handed.cpus, cpu ∈ exec.cpusUsed
  ranks : exec.handed.map Handed.rank = (List.range exec.handed.length).map Int.ofNat
  ordered : exec.handed.Pairwise fun left right => config.start left.call ≤ config.start right.call

theorem Shares.congr {exec exec' : PartExec} (shares : Shares config exec)
    (handed : exec'.handed = exec.handed) (used : exec'.cpusUsed = exec.cpusUsed)
    (processes : exec'.nrProcesses = exec.nrProcesses) : Shares config exec' where
  inside := handed ▸ shares.inside
  nodup := handed ▸ shares.nodup
  size := by
    rw [handed, processes]
    exact shares.size
  disjoint := handed ▸ shares.disjoint
  used := by
    rw [handed, used]
    exact shares.used
  ranks := handed ▸ shares.ranks
  ordered := handed ▸ shares.ordered

/-- The call has been woken for its turn. -/
def Turn (state : State) (pe id : Nat) : Prop :=
  (state.calls id).phase = .waiting ∧ (state.calls id).pe = pe ∧ (state.calls id).ready = true ∧
    (state.calls id).timeout = false

/-- The call whose turn it is comes first and is alone. -/
structure TurnOk (config : Config) (state : State) (pe id : Nat) : Prop where
  only : ∀ other, Turn state pe other → other = id
  rank : (state.execs pe).processRank = (state.execs pe).handed.length
  after : ∀ handed ∈ (state.execs pe).handed, config.start handed.call ≤ config.start id
  before : ∀ other ∈ (state.execs pe).pliList, config.start id ≤ config.start other

/-- What holds of an execution. -/
structure ExecOk (config : Config) (state : State) (pe : Nat) : Prop where
  shares : Shares config (state.execs pe)
  sorted : (state.execs pe).pliList.Pairwise fun left right =>
    config.start left ≤ config.start right
  nodup : (state.execs pe).pliList.Nodup
  listed : ∀ id ∈ (state.execs pe).pliList, (state.calls id).phase ≠ .outside ∧
    (state.calls id).pe = pe ∧ (state.calls id).ready = false
  later : ∀ handed ∈ (state.execs pe).handed, ∀ id ∈ (state.execs pe).pliList,
    config.start handed.call ≤ config.start id
  joining : (state.execs pe).nrProcessesJoined < (state.execs pe).nrProcesses →
    (state.execs pe).nrProcessesLeft =
      (state.execs pe).nrProcesses - (state.execs pe).nrProcessesJoined ∧
    (state.execs pe).handed = [] ∧ ∀ id, ¬ Turn state pe id
  turn : ∀ id, Turn state pe id → TurnOk config state pe id
  asked : ∀ id, (state.calls id).phase = .waiting → (state.calls id).pe = pe →
    (config.request id).nrProcesses = (state.execs pe).nrProcesses

/-- What holds of all executions. -/
structure Ok (config : Config) (state : State) : Prop where
  execs : ∀ pe, ExecOk config state pe
  known : ∀ id, (state.calls id).phase = .waiting → (state.calls id).pe < state.nextExec
  started : ∀ id, (state.calls id).phase = .outside → ∀ pe, id ∉ (state.execs pe).pliList

/-- An execution is as it was when its turns are no more than before and the calls in its
list are not touched. -/
theorem ExecOk.frame (ok : ExecOk config s pe) (same : next.execs pe = s.execs pe)
    (turns : ∀ id, Turn next pe id → Turn s pe id)
    (listed : ∀ id ∈ (s.execs pe).pliList, (next.calls id).phase ≠ .outside ∧
      (next.calls id).pe = pe ∧ (next.calls id).ready = false)
    (asked : ∀ id, (next.calls id).phase = .waiting → (next.calls id).pe = pe →
      (s.calls id).phase = .waiting ∧ (s.calls id).pe = pe) : ExecOk config next pe where
  shares := same ▸ ok.shares
  sorted := same ▸ ok.sorted
  nodup := same ▸ ok.nodup
  listed := same ▸ listed
  later := same ▸ ok.later
  joining := by
    rw [same]
    intro joining
    obtain ⟨left, nothing, noTurn⟩ := ok.joining joining
    exact ⟨left, nothing, fun id turn => noTurn id (turns id turn)⟩
  turn id turn := by
    obtain ⟨only, rank, after, before⟩ := ok.turn id (turns id turn)
    exact ⟨fun o again => only o (turns o again), same ▸ rank, same ▸ after,
      same ▸ before⟩
  asked id waiting here := by
    obtain ⟨waited, there⟩ := asked id waiting here
    exact same ▸ ok.asked id waited there

theorem ExecOk.kept (ok : ExecOk config s pe) (same : next.execs pe = s.execs pe)
    (calls : next.calls = s.calls) : ExecOk config next pe :=
  ok.frame same (fun _ turn => by rwa [Turn, calls] at turn) (calls ▸ ok.listed)
    (fun _ waits here => ⟨calls ▸ waits, calls ▸ here⟩)

/-- A call that has not started is in no list, since those in a list have. -/
theorem Ok.of_execs (execs : ∀ pe, ExecOk config s pe)
    (known : ∀ id, (s.calls id).phase = .waiting → (s.calls id).pe < s.nextExec) :
    Ok config s :=
  ⟨execs, known, fun id outside pe member => ((execs pe).listed id member).1 outside⟩

/-- What is known of the record of an execution, in one piece. -/
theorem ExecOk.of_exec {exec : PartExec} (same : s.execs pe = exec)
    (shares : Shares config exec)
    (sorted : exec.pliList.Pairwise fun left right => config.start left ≤ config.start right)
    (nodup : exec.pliList.Nodup)
    (listed : ∀ id ∈ exec.pliList, (s.calls id).phase ≠ .outside ∧
      (s.calls id).pe = pe ∧ (s.calls id).ready = false)
    (later : ∀ handed ∈ exec.handed, ∀ id ∈ exec.pliList,
      config.start handed.call ≤ config.start id)
    (joining : exec.nrProcessesJoined < exec.nrProcesses →
      exec.nrProcessesLeft = exec.nrProcesses - exec.nrProcessesJoined ∧ exec.handed = [] ∧
        ∀ id, ¬ Turn s pe id)
    (turn : ∀ id, Turn s pe id → (∀ o, Turn s pe o → o = id) ∧
      exec.processRank = exec.handed.length ∧
      (∀ handed ∈ exec.handed, config.start handed.call ≤ config.start id) ∧
      ∀ o ∈ exec.pliList, config.start id ≤ config.start o)
    (asked : ∀ id, (s.calls id).phase = .waiting → (s.calls id).pe = pe →
      (config.request id).nrProcesses = exec.nrProcesses) : ExecOk config s pe := by
  subst same
  refine ⟨shares, sorted, nodup, listed, later, joining, fun id isTurn => ?_, asked⟩
  obtain ⟨only, rank, after, before⟩ := turn id isTurn
  exact ⟨only, rank, after, before⟩

/-- A step that touches one execution and calls that belong to it, or to none so far. -/
theorem Ok.of_exec (ok : Ok config s) (own : ExecOk config next pe)
    (execs : ∀ o, o ≠ pe → next.execs o = s.execs o)
    (calls : ∀ id, next.calls id = s.calls id ∨ (next.calls id).pe = pe ∧
      ((s.calls id).phase = .outside ∨ (s.calls id).pe = pe))
    (known : ∀ id, (next.calls id).phase = .waiting → (next.calls id).pe < next.nextExec) :
    Ok config next := by
  refine .of_execs (fun o => ?_) known
  by_cases same : o = pe
  · exact same ▸ own
  have kept : ∀ id, (next.calls id).pe = o → next.calls id = s.calls id :=
    fun id here => (calls id).resolve_right fun moved => same (here.symm.trans moved.1)
  refine (ok.execs o).frame (execs o same) (fun id turn => ?_) (fun id member => ?_)
    fun id waits here => ?_
  · rwa [Turn, kept id turn.2.1] at turn
  · have listed := (ok.execs o).listed id member
    rcases calls id with unchanged | ⟨-, outside | moved⟩
    · rwa [unchanged]
    · exact absurd outside listed.1
    · exact absurd (listed.2.1.symm.trans moved) same
  · rw [kept id here] at waits here
    exact ⟨waits, here⟩

/-- What a call has written, and that it has returned, is of no concern to the executions. -/
theorem Ok.updateCall (ok : Ok config s) (id : Nat) (change : Call → Call)
    (kept : ∀ call, (change call).pe = call.pe ∧ (change call).ready = call.ready ∧
      (change call).timeout = call.timeout)
    (phase : ∀ call, (change call).phase = call.phase ∨
      ∃ ret, (change call).phase = .returned ret) :
    Ok config (s.updateCall id change) := by
  generalize nextEq : s.updateCall id change = next
  have calls : ∀ o, next.calls o = s.calls o ∨
      next.calls o = change (s.calls o) := by
    intro o
    by_cases same : o = id
    · exact .inr (by simp [← nextEq, State.updateCall, same])
    · exact .inl (by simp [← nextEq, State.updateCall, same])
  have same : ∀ o, (next.calls o).pe = (s.calls o).pe ∧
      (next.calls o).ready = (s.calls o).ready ∧
        (next.calls o).timeout = (s.calls o).timeout := by
    intro o
    rcases calls o with same | changed
    · simp [same]
    · simp [changed, kept]
  have phase : ∀ o, (next.calls o).phase = (s.calls o).phase ∨
      ∃ ret, (next.calls o).phase = .returned ret := by
    intro o
    rcases calls o with same | changed
    · exact .inl (by rw [same])
    · exact changed ▸ phase _
  have waiting : ∀ o, (next.calls o).phase = .waiting →
      (s.calls o).phase = .waiting := by
    intro o waits
    rcases phase o with kept | ⟨ret, returned⟩
    · exact kept ▸ waits
    · cases returned.symm.trans waits
  refine .of_execs (fun pe => (ok.execs pe).frame (nextEq ▸ rfl) ?_ ?_ ?_) ?_
  · rintro o ⟨waits, turn⟩
    rw [(same o).1, (same o).2.1, (same o).2.2] at turn
    exact ⟨waiting o waits, turn⟩
  · intro o member
    obtain ⟨started, listed⟩ := (ok.execs pe).listed o member
    rw [(same o).1, (same o).2.1]
    refine ⟨?_, listed⟩
    rcases phase o with kept | ⟨ret, returned⟩
    · exact kept ▸ started
    · rw [returned]
      exact nofun
  · intro o waits here
    exact ⟨waiting o waits, (same o).1 ▸ here⟩
  · intro o waits
    rw [(same o).1, ← nextEq]
    exact ok.known o (waiting o waits)

theorem Ok.return_ (ok : Ok config s) (id : Nat) (ret : Int) :
    Ok config (s.return_ id ret) :=
  ok.updateCall id _ (fun _ => ⟨rfl, rfl, rfl⟩) fun _ => .inr ⟨ret, rfl⟩

theorem Ok.write (ok : Ok config s) (id : Nat) (written : Bool) :
    Ok config (s.updateCall id fun call => { call with written }) :=
  ok.updateCall id _ (fun _ => ⟨rfl, rfl, rfl⟩) fun _ => .inl rfl

theorem not_turn_return (only : ∀ o, Turn s pe o → o = id) (ret : Int)
    (o : Nat) : ¬ Turn (s.return_ id ret) pe o := by
  rintro ⟨waits, there, ready, noTimeout⟩
  by_cases same : o = id
  · subst same
    simp [return_, updateCall] at waits
  · simp only [return_, updateCall, update_of_ne same] at *
    exact same (only o ⟨waits, there, ready, noTimeout⟩)

theorem Ok.count (ok : Ok config s) (pe : Nat) (change : PartExec → PartExec)
    (kept : ∀ exec, change exec = { exec with
      nrProcessesLeft := (change exec).nrProcessesLeft
      nrProcessesJoined := (change exec).nrProcessesJoined
      processRank := (change exec).processRank })
    (rank : (change (s.execs pe)).processRank = (s.execs pe).processRank ∨
      ∀ id, ¬ Turn s pe id)
    (joining : (change (s.execs pe)).nrProcessesJoined < (s.execs pe).nrProcesses →
      (change (s.execs pe)).nrProcessesLeft =
        (s.execs pe).nrProcesses - (change (s.execs pe)).nrProcessesJoined ∧
      (s.execs pe).handed = [] ∧ ∀ id, ¬ Turn s pe id) :
    Ok config (s.updateExec pe change) := by
  obtain ⟨shares, sorted, listNodup, listed, later, -, turn, asked⟩ := ok.execs pe
  refine ok.of_exec (.of_exec ((update_self ..).trans (kept _))
    (shares.congr rfl rfl rfl) sorted listNodup listed later joining (fun id isTurn => ?_) asked)
    (fun o ne => update_of_ne ne ..) (fun _ => .inl rfl) ok.known
  obtain ⟨only, rankEq, after, before⟩ := turn id isTurn
  refine ⟨only, ?_, after, before⟩
  rcases rank with same | noTurn
  · exact same.trans rankEq
  · exact absurd isTurn (noTurn id)

/-- Some calls leave the list and are woken. -/
theorem Ok.wake (ok : Ok config s) {rest : List Nat} {calls : Nat → Call}
    (nextEq : next = { s.updateExec pe (fun exec => { exec with pliList := rest }) with
      calls := calls })
    (sublist : rest.Sublist (s.execs pe).pliList)
    (woken : ∀ id, calls id = s.calls id ∨ (id ∈ (s.execs pe).pliList ∧ id ∉ rest) ∧
      (calls id).phase = (s.calls id).phase ∧ (calls id).pe = (s.calls id).pe)
    (joining : (s.execs pe).nrProcessesJoined < (s.execs pe).nrProcesses →
      ∀ id, Turn next pe id → Turn s pe id)
    (turn : ∀ id, Turn next pe id → (∀ o, Turn next pe o → o = id) ∧
      (s.execs pe).processRank = (s.execs pe).handed.length ∧
      (∀ handed ∈ (s.execs pe).handed, config.start handed.call ≤ config.start id) ∧
      ∀ o ∈ rest, config.start id ≤ config.start o) : Ok config next := by
  have own := ok.execs pe
  have phase : ∀ id, (calls id).phase = (s.calls id).phase ∧
      (calls id).pe = (s.calls id).pe :=
    fun id => (woken id).elim (fun same => by rw [same]; exact ⟨rfl, rfl⟩) And.right
  subst nextEq
  refine ok.of_exec (.of_exec (update_self ..) (own.shares.congr rfl rfl rfl)
    (own.sorted.sublist sublist) (own.nodup.sublist sublist) (fun id member => ?_)
    (fun handed isHanded id member => own.later handed isHanded id (sublist.subset member))
    (fun few => ?_) turn fun id waits here => ?_)
    (fun o ne => update_of_ne ne ..) (fun id => ?_) fun id waits => ?_
  · have unchanged := (woken id).resolve_right fun gone => gone.1.2 member
    simp only [unchanged]
    exact own.listed id (sublist.subset member)
  · obtain ⟨left, nothing, noTurn⟩ := own.joining few
    exact ⟨left, nothing, fun id isTurn => noTurn id (joining few id isTurn)⟩
  · exact own.asked id ((phase id).1 ▸ waits) ((phase id).2 ▸ here)
  · refine (woken id).imp_right fun ⟨⟨member, _⟩, _⟩ => ?_
    have here := (own.listed id member).2.1
    exact ⟨(phase id).2.trans here, .inr here⟩
  · simp only [(phase id).2]
    exact ok.known id ((phase id).1 ▸ waits)

theorem Ok.wakeFirst (ok : Ok config s) (noTurn : ∀ id, ¬ Turn s pe id)
    (rank : (s.execs pe).processRank = (s.execs pe).handed.length)
    (full : ¬ (s.execs pe).nrProcessesJoined < (s.execs pe).nrProcesses) :
    Ok config (wakeFirst s pe) := by
  unfold CpuSet.wakeFirst
  split
  next => exact .of_execs (fun o => (ok.execs o).kept rfl rfl) ok.known
  next first rest list =>
    have own := ok.execs pe
    have firstNew := (nodup_cons.mp (list ▸ own.nodup)).1
    have turns : ∀ o, Turn ((s.updateExec pe fun exec =>
        { exec with pliList := rest }).updateCall first fun call => { call with ready := true }) pe
          o → o = first := by
      intro o turn
      by_contra ne
      simp only [Turn, State.updateCall, Function.update_of_ne ne] at turn
      exact noTurn o turn
    refine ok.wake rfl (list ▸ List.sublist_cons_self first rest) (fun id => ?_)
      (fun joining => absurd joining full) fun id turn => ?_
    · by_cases same : id = first
      · subst same
        exact .inr ⟨⟨by simp [list], firstNew⟩, by simp [updateExec]⟩
      · exact .inl (update_of_ne same ..)
    · obtain rfl := turns id turn
      exact ⟨turns, rank, fun handed isHanded => own.later handed isHanded id (by simp [list]),
        (pairwise_cons.mp (list ▸ own.sorted)).1⟩

/-! ## The steps -/

/-- Listed executions exist. -/
def Listed (state : State) : Prop := ∀ pe ∈ state.partExecList, pe < state.nextExec

theorem findExec_ok {request : Request} {failure : Option Failure}
    (ok : Ok config s) (listed : Listed s)
    (called : findExec s request failure = (found, next)) :
    Ok config next ∧ Listed next ∧ next.calls = s.calls ∧ ∀ pe ∈ found, pe < next.nextExec := by
  unfold findExec at called
  split at called
  next pe isFound =>
    cases called
    refine ⟨ok, listed, rfl, ?_⟩
    rintro _ ⟨⟩
    exact listed pe (mem_reverse.mp (mem_of_find?_eq_some isFound))
  · have kept : ∀ pe ∈ (if peListMaxlen ≤ s.partExecList.length then s.partExecList.tail
        else s.partExecList), pe < s.nextExec := by
      intro pe member
      split at member
      · exact listed pe (mem_of_mem_tail member)
      · exact listed pe member
    simp only at called
    split at called
    · cases called
      exact ⟨.of_execs (fun pe => (ok.execs pe).kept rfl rfl) ok.known, kept, rfl, by simp⟩
    · cases called
      have nobody : ∀ id, (s.calls id).phase = .waiting → (s.calls id).pe ≠ s.nextExec :=
        fun id waits => Nat.ne_of_lt (ok.known id waits)
      refine ⟨.of_execs (fun pe => ?_) ?_, ?_, rfl, ?_⟩
      · by_cases same : pe = s.nextExec
        · subst same
          constructor
          · constructor <;> simp [updateExec, newExec]
          · simp [updateExec, newExec]
          · simp [updateExec, newExec]
          · simp [updateExec, newExec]
          · simp [updateExec, newExec]
          · intro _
            refine ⟨by simp [updateExec, newExec], by simp [updateExec, newExec], ?_⟩
            exact fun id turn => nobody id turn.1 turn.2.1
          · exact fun id turn => absurd turn.2.1 (nobody id turn.1)
          · exact fun id waits here => absurd here (nobody id waits)
        · exact (ok.execs pe).kept (by simp [updateExec, same]) rfl
      · exact fun id waits => lt_succ_of_lt (ok.known id waits)
      · intro pe member
        rcases mem_append.mp member with earlier | now
        · exact lt_succ_of_lt (kept pe earlier)
        · rw [mem_singleton.mp now]
          exact lt_succ_self _
      · rintro _ ⟨⟩
        exact lt_succ_self _

theorem mem_insertPli :
    o ∈ insertPli config id list ↔ o = id ∨ o ∈ list := by
  induction list with
  | nil => simp [insertPli]
  | cons head rest ih =>
    unfold insertPli
    split
    · simp
    · rw [mem_cons, ih, mem_cons]
      tauto

theorem insertPli_sorted
    (sorted : list.Pairwise fun left right => config.start left ≤ config.start right) :
    (insertPli config id list).Pairwise fun left right =>
      config.start left ≤ config.start right := by
  induction list with
  | nil => simp [insertPli]
  | cons head rest ih =>
    obtain ⟨least, restSorted⟩ := pairwise_cons.mp sorted
    unfold insertPli
    split
    next earlier =>
      refine pairwise_cons.mpr ⟨?_, sorted⟩
      rintro o (_ | ⟨_, member⟩)
      · exact le_of_lt earlier
      · exact le_trans (le_of_lt earlier) (least o member)
    next notEarlier =>
      refine pairwise_cons.mpr ⟨?_, ih restSorted⟩
      intro o member
      rcases mem_insertPli.mp member with rfl | member
      · exact Nat.le_of_not_lt notEarlier
      · exact least o member

theorem insertPli_nodup (nodup : list.Nodup) (new : id ∉ list) :
    (insertPli config id list).Nodup := by
  induction list with
  | nil => simp [insertPli]
  | cons head rest ih =>
    obtain ⟨headNew, restNodup⟩ := nodup_cons.mp nodup
    rw [mem_cons, not_or] at new
    unfold insertPli
    split
    · exact nodup_cons.mpr ⟨by simp [new], nodup⟩
    · refine nodup_cons.mpr ⟨?_, ih restNodup new.2⟩
      rw [mem_insertPli, not_or]
      exact ⟨Ne.symm new.1, headNew⟩

theorem Ok.enlist (ok : Ok config s) (outside : (s.calls id).phase = .outside)
    (known : pe < s.nextExec) (nothing : (s.execs pe).handed = [])
    (noTurn : ∀ o, ¬ Turn s pe o)
    (asked : (config.request id).nrProcesses = (s.execs pe).nrProcesses) :
    Ok config (enlist config s id pe) ∧
      ∀ o, ¬ Turn (enlist config s id pe) pe o := by
  have own := ok.execs pe
  generalize nextEq : CpuSet.enlist config s id pe = next
  have calls : ∀ o, o ≠ id → next.calls o = s.calls o := by
    intro o ne
    simp [← nextEq, CpuSet.enlist, State.updateCall, State.updateExec, ne]
  have self : (next.calls id).phase = .waiting ∧ (next.calls id).pe = pe ∧
      (next.calls id).ready = false := by
    simp [← nextEq, CpuSet.enlist, State.updateCall, State.updateExec]
  have exec : next.execs pe =
      { s.execs pe with pliList := insertPli config id (s.execs pe).pliList } := by
    simp [← nextEq, CpuSet.enlist, State.updateCall, State.updateExec]
  have execs : ∀ o, o ≠ pe → next.execs o = s.execs o := by
    intro o ne
    simp [← nextEq, CpuSet.enlist, State.updateCall, State.updateExec, ne]
  have notListed : ∀ pe o, o ∈ (s.execs pe).pliList → o ≠ id := by
    rintro pe o member rfl
    exact ok.started o outside pe member
  have turns : ∀ pe o, Turn next pe o → Turn s pe o := by
    intro pe o turn
    have ne : o ≠ id := by
      rintro rfl
      simp [Turn, self.2.2] at turn
    rwa [Turn, calls o ne] at turn
  have waiting : ∀ call, call ≠ id → (next.calls call).phase = .waiting →
      (s.calls call).phase = .waiting ∧ (next.calls call).pe = (s.calls call).pe := by
    intro call old waits
    rw [calls call old] at waits ⊢
    exact ⟨waits, rfl⟩
  refine ⟨ok.of_exec (.of_exec exec (own.shares.congr rfl rfl rfl)
    (insertPli_sorted own.sorted) (insertPli_nodup own.nodup (ok.started id outside pe))
    (fun call member => ?_) (by simp [nothing]) (fun joining => ?_)
    (fun call turn => absurd (turns pe call turn) (noTurn call)) fun call waits here => ?_) execs
    (fun call => ?_) fun call waits => ?_, fun o turn => noTurn o (turns pe o turn)⟩
  · rcases mem_insertPli.mp member with rfl | member
    · exact ⟨by simp [self.1], self.2⟩
    · rw [calls call (notListed pe call member)]
      exact own.listed call member
  · obtain ⟨left, noHanded, -⟩ := own.joining joining
    exact ⟨left, noHanded, fun call turn => noTurn call (turns pe call turn)⟩
  · by_cases new : call = id
    · subst new
      exact asked
    · obtain ⟨waits, same⟩ := waiting call new waits
      exact own.asked call waits (same.symm.trans here)
  · by_cases new : call = id
    · subst new
      exact .inr ⟨self.2.1, .inl outside⟩
    · exact .inl (calls call new)
  · by_cases new : call = id
    · subst new
      rw [self.2.1, ← nextEq]
      exact known
    · obtain ⟨waits, same⟩ := waiting call new waits
      rw [same, ← nextEq]
      exact ok.known call waits

theorem wakeFirst_reset :
    (wakeFirst s pe).updateExec pe .reset = wakeFirst (s.updateExec pe .reset) pe := by
  have same : ((s.updateExec pe .reset).execs pe).pliList = (s.execs pe).pliList := by
    simp [updateExec, PartExec.reset]
  unfold wakeFirst
  rw [same]
  split
  · rfl
  · simp [updateExec, updateCall, PartExec.reset]

theorem join_ok {failure : Option Failure} (ok : Ok config s)
    (outside : (s.calls id).phase = .outside) (known : pe < s.nextExec) :
    Ok config (join config s id pe failure) := by
  unfold join
  simp only
  split
  · exact ok.return_ id EINVAL.code
  next asked =>
    rw [not_not] at asked
    split
    · exact ok.return_ id EINVAL.code
    next room =>
      obtain ⟨left, nothing, noTurn⟩ := (ok.execs pe).joining (by omega)
      have counted : Ok config (s.updateExec pe .count) := by
        refine ok.count pe _ (fun _ => rfl) (.inl rfl) (fun _ => ⟨?_, nothing, noTurn⟩)
        simp only [PartExec.count]
        omega
      split
      · exact counted.return_ id 0
      · obtain ⟨enlisted, stillNoTurn⟩ := counted.enlist outside known
          (by simpa [updateExec, PartExec.count] using nothing) noTurn
          (by simpa [updateExec, PartExec.count] using asked.symm)
        split
        next last =>
          rw [wakeFirst_reset]
          have full : ¬ (s.execs pe).nrProcessesJoined + 1 < (s.execs pe).nrProcesses := by
            simp only [enlist, updateExec, updateCall, update_self,
              PartExec.count] at last
            omega
          have reset := enlisted.count pe .reset (fun _ => rfl) (.inr stillNoTurn) (by
              simp only [enlist, updateExec, updateCall, update_self,
                PartExec.count, PartExec.reset]
              exact fun joining => absurd joining full)
          refine reset.wakeFirst stillNoTurn ?_ ?_
          · simp [enlist, updateExec, updateCall, PartExec.count, PartExec.reset, nothing]
          · simp only [enlist, updateExec, updateCall, update_self,
              PartExec.count, PartExec.reset]
            exact full
        · exact enlisted

theorem Shares.hand {exec : PartExec} {used toUse : List Nat} (shares : Shares config exec)
    (selected : config.topology.select exec.cpusUsed exec.nrProcesses.toNat = some (used, toUse))
    (rank : exec.processRank = exec.handed.length)
    (after : ∀ handed ∈ exec.handed, config.start handed.call ≤ config.start id) :
    Shares config (exec.hand id used toUse) := by
  obtain ⟨takes, length⟩ := Topology.select_spec selected
  have members : ∀ property : Handed → Prop, (∀ handed ∈ exec.handed, property handed) →
      property ⟨id, exec.processRank, toUse⟩ →
      ∀ handed ∈ (exec.hand id used toUse).handed, property handed := by
    intro property earlier now handed member
    rcases mem_append.mp member with isOld | isNew
    · exact earlier handed isOld
    · rw [mem_singleton.mp isNew]
      exact now
  refine ⟨members _ shares.inside takes.inside, members _ shares.nodup takes.nodup,
    members _ shares.size length, ?_, members _ (fun handed earlier cpu inHanded => ?_)
    (fun cpu inNew => (takes.used cpu).mpr (.inl inNew)), ?_, ?_⟩
  · refine pairwise_append.mpr ⟨shares.disjoint, pairwise_singleton _ _, ?_⟩
    intro handed earlier new isNew cpu inHanded inNew
    rw [mem_singleton.mp isNew] at inNew
    exact takes.unused cpu inNew (shares.used handed earlier cpu inHanded)
  · exact (takes.used cpu).mpr (.inr (shares.used handed earlier cpu inHanded))
  · simp only [PartExec.hand, map_append, map_cons, map_nil, length_append,
      length_singleton, range_succ, shares.ranks, rank]
    rfl
  · refine pairwise_append.mpr ⟨shares.ordered, pairwise_singleton _ _, ?_⟩
    intro handed earlier new isNew
    rw [mem_singleton.mp isNew]
    exact after handed earlier

section Hand

-- The caller had the turn and its CPUs are selected.
variable {used toUse : List Nat} (ok : Ok config s)
  (noTurn : ∀ o, ¬ Turn s pe o)
  (selected : config.topology.select (s.execs pe).cpusUsed
    (s.execs pe).nrProcesses.toNat = some (used, toUse))
  (rank : (s.execs pe).processRank = (s.execs pe).handed.length)
  (after : ∀ handed ∈ (s.execs pe).handed, config.start handed.call ≤ config.start id)
  (before : ∀ o ∈ (s.execs pe).pliList, config.start id ≤ config.start o)
  (full : ¬ (s.execs pe).nrProcessesJoined < (s.execs pe).nrProcesses)

include ok noTurn selected rank after before full

theorem Ok.hand : Ok config (s.updateExec pe fun exec => exec.hand id used toUse) := by
  have own := ok.execs pe
  refine ok.of_exec (.of_exec (update_self ..) (own.shares.hand selected rank after)
    own.sorted own.nodup own.listed (fun handed member call listed => ?_)
    (fun joining => absurd joining full) (fun call turn => absurd turn (noTurn call)) own.asked)
    (fun o ne => update_of_ne ne ..) (fun _ => .inl rfl) ok.known
  rcases mem_append.mp member with earlier | now
  · exact own.later handed earlier call listed
  · rw [mem_singleton.mp now]
    exact before call listed

theorem Ok.passTurn : Ok config (CpuSet.wakeFirst ((s.updateExec pe fun exec =>
      exec.hand id used toUse).updateExec pe .nextRank) pe) := by
  have handed := ok.hand noTurn selected rank after before full
  have ranked := handed.count pe .nextRank (fun _ => rfl) (.inr noTurn) (by
      simp only [updateExec, update_self, PartExec.hand, PartExec.nextRank]
      exact fun joining => absurd joining full)
  refine ranked.wakeFirst noTurn ?_ ?_
  · simp [updateExec, PartExec.hand, PartExec.nextRank, rank]
  · simpa [updateExec, PartExec.hand, PartExec.nextRank] using full

end Hand

theorem takeCpus_ok {failure : Option Failure} (ok : Ok config s) (turn : Turn s pe id) :
    Ok config (takeCpus config s id pe failure) := by
  have full : ¬ (s.execs pe).nrProcessesJoined < (s.execs pe).nrProcesses :=
    fun joining => ((ok.execs pe).joining joining).2.2 id turn
  obtain ⟨only, rank, after, before⟩ := (ok.execs pe).turn id turn
  have asked := (ok.execs pe).asked id turn.1 turn.2.1
  have counted : Ok config (s.updateExec pe .leave) :=
    ok.count pe _ (fun _ => rfl) (.inl rfl)
      (fun joining => absurd joining full)
  unfold takeCpus
  simp only
  split
  · exact counted.return_ id ENOMEM.code
  split
  · exact counted.return_ id EINVAL.code
  next used toUse selected =>
    split
    · exact counted.return_ id EINVAL.code
    have written := counted.write id true
    split
    · exact written.return_ id EINVAL.code
    · have exec : (((s.updateExec pe .leave).updateCall id fun call =>
          { call with written := true }).return_ id 0).execs pe = (s.execs pe).leave := by
        simp [updateExec, updateCall, return_]
      have noTurn : ∀ o, ¬ Turn (((s.updateExec pe .leave).updateCall id fun call =>
          { call with written := true }).return_ id 0) pe o := by
        refine not_turn_return (fun o isTurn => ?_) 0
        by_contra ne
        rw [Turn] at isTurn
        simp only [updateCall, updateExec, update_of_ne ne] at isTurn
        exact ne (only o isTurn)
      have selected' : config.topology.select (s.execs pe).cpusUsed
          (s.execs pe).nrProcesses.toNat = some (used, toUse) := by
        rw [← asked]
        simpa [updateExec, PartExec.leave] using selected
      split
      · exact (written.return_ id 0).passTurn noTurn (by rw [exec]; exact selected')
          (by rw [exec]; exact rank) (by rw [exec]; exact after) (by rw [exec]; exact before)
          (by rw [exec]; exact full)
      · exact (written.return_ id 0).hand noTurn (by rw [exec]; exact selected')
          (by rw [exec]; exact rank) (by rw [exec]; exact after) (by rw [exec]; exact before)
          (by rw [exec]; exact full)

theorem timeOut_ok (ok : Ok config s) : Ok config (timeOut s id pe) := by
  unfold timeOut
  refine Ok.return_ ?_ id ETIMEDOUT.code
  generalize nextEq : ({ s.updateExec pe (fun exec => { exec with pliList := [] }) with
    calls := fun call =>
      if call ∈ (s.execs pe).pliList then
        { s.calls call with ready := true, timeout := true }
      else s.calls call } : State) = next
  have turns : ∀ call, Turn next pe call → Turn s pe call := by
    intro call turn
    simp only [Turn, ← nextEq] at turn
    split at turn
    · simp at turn
    · exact turn
  refine ok.wake nextEq.symm (nil_sublist _) (fun call => ?_) (fun _ => turns)
    fun call turn => ?_
  · split
    next member => exact .inr ⟨⟨member, not_mem_nil⟩, rfl, rfl⟩
    · exact .inl rfl
  · obtain ⟨only, rank, after, -⟩ := (ok.execs pe).turn call (turns call turn)
    exact ⟨fun again turnAgain => only again (turns again turnAgain), rank, after, nofun⟩

/-! ## All runs -/

/-- The list of executions, and how many there have been, are left alone. -/
structure KeepsList (state next : State) : Prop where
  list : next.partExecList = state.partExecList
  nextExec : next.nextExec = state.nextExec

theorem wakeFirst_keeps : KeepsList s (wakeFirst s pe) := by
  unfold wakeFirst
  split <;> exact ⟨rfl, rfl⟩

theorem join_keeps {failure : Option Failure} : KeepsList s
    (join config s id pe failure) := by
  unfold join
  simp only
  split
  · exact ⟨rfl, rfl⟩
  split
  · exact ⟨rfl, rfl⟩
  split
  · exact ⟨rfl, rfl⟩
  split
  · exact ⟨wakeFirst_keeps.list, wakeFirst_keeps.nextExec⟩
  · exact ⟨rfl, rfl⟩

theorem takeCpus_keeps {failure : Option Failure} :
    KeepsList s (takeCpus config s id pe failure) := by
  unfold takeCpus
  simp only
  split
  · exact ⟨rfl, rfl⟩
  split
  · exact ⟨rfl, rfl⟩
  split
  · exact ⟨rfl, rfl⟩
  split
  · exact ⟨rfl, rfl⟩
  split
  · exact ⟨wakeFirst_keeps.list, wakeFirst_keeps.nextExec⟩
  · exact ⟨rfl, rfl⟩

theorem Listed.keeps (listed : Listed s) (keeps : KeepsList s next) : Listed next := by
  unfold Listed
  rw [keeps.list, keeps.nextExec]
  exact listed

theorem listCall_ok {failure : Option Failure} (ok : Ok config s) :
    Ok config (listCall s id failure) ∧ KeepsList s (listCall s id failure) := by
  unfold listCall
  split
  · exact ⟨ok.return_ id ENOMEM.code, rfl, rfl⟩
  · exact ⟨ok.return_ id ENOMEM.code, rfl, rfl⟩
  · exact ⟨ok.return_ id EINVAL.code, rfl, rfl⟩
  · exact ⟨ok.return_ id EINVAL.code, rfl, rfl⟩
  · exact ⟨ok.return_ id EINVAL.code, rfl, rfl⟩
  · exact ⟨(ok.write id true).return_ id 0, rfl, rfl⟩

/-- What a step can do. -/
theorem exec_cases {holds : State → Prop} (taken : exec config s op = some next)
    (lists : ∀ id failure, holds (listCall s id failure))
    (fails : ∀ id failure middle, findExec s (config.request id) failure = (none, middle) →
      holds (middle.return_ id ENOMEM.code))
    (joins : ∀ id failure pe middle, op = .call id failure → (s.calls id).phase = .outside →
      findExec s (config.request id) failure = (some pe, middle) →
        holds (join config middle id pe failure))
    (corrupts : holds { s with corrupted := true })
    (ends : ∀ id, holds (timeOut s id (s.calls id).pe))
    (returns : ∀ id ret, ret ≠ 0 → holds (s.return_ id ret))
    (goesOn : ∀ id failure, Turn s (s.calls id).pe id →
      holds (takeCpus config s id (s.calls id).pe failure)) : holds next := by
  unfold exec at taken
  split at taken
  · cases taken
  · cases op with
    | call id failure =>
      simp only at taken
      split at taken
      · cases taken
      next outside =>
        split at taken
        · cases taken
          exact lists id failure
        · split at taken
          next middle found =>
            cases taken
            exact fails id failure middle found
          next pe middle found =>
            cases taken
            exact joins id failure pe middle rfl (not_not.mp outside) found
    | resume id wake failure =>
      simp only [resume] at taken
      split at taken
      · cases taken
      next waits =>
        split at taken
        · cases taken
          exact corrupts
        · cases wake with
          | timedOut =>
            cases taken
            exact ends id
          | interrupted =>
            cases taken
            exact returns id ERESTARTSYS.code (by decide)
          | woken =>
            simp only at taken
            split at taken
            · cases taken
            next ready =>
              split at taken
              · cases taken
                exact returns id ETIMEDOUT.code (by decide)
              next inTime =>
                cases taken
                exact goesOn id failure ⟨not_not.mp waits, rfl, Bool.eq_true_of_not_eq_false ready,
                  Bool.eq_false_of_not_eq_true inTime⟩

theorem exec_ok (ok : Ok config s) (listed : Listed s)
    (taken : exec config s op = some next) : Ok config next ∧ Listed next := by
  refine @exec_cases _ _ _ _ (fun next => Ok config next ∧ Listed next) taken
    (fun id failure => ?_) (fun id failure middle found => ?_)
    (fun id failure pe middle _ outside found => ?_)
    ⟨.of_execs (fun pe => (ok.execs pe).kept rfl rfl) ok.known, listed⟩
    (fun id => ⟨timeOut_ok ok, listed⟩) (fun id ret _ => ⟨ok.return_ id ret, listed⟩)
    fun id failure turn => ⟨takeCpus_ok ok turn, listed.keeps takeCpus_keeps⟩
  · obtain ⟨nextOk, keeps⟩ := listCall_ok ok
    exact ⟨nextOk, listed.keeps keeps⟩
  · obtain ⟨middleOk, middleListed, -⟩ := findExec_ok ok listed found
    exact ⟨middleOk.return_ id ENOMEM.code, middleListed⟩
  · obtain ⟨middleOk, middleListed, calls, known⟩ := findExec_ok ok listed found
    exact ⟨join_ok middleOk (by rw [calls]; exact outside) (known pe rfl),
      middleListed.keeps join_keeps⟩

theorem initial_ok (initial : Initial s) : Ok config s ∧ Listed s := by
  obtain ⟨list, number, -, execs, calls⟩ := initial
  refine ⟨⟨fun pe => ?_, ?_, ?_⟩, ?_⟩
  · constructor
    · constructor <;> simp [execs]
    · simp [execs]
    · simp [execs]
    · simp [execs]
    · simp [execs]
    · simp [execs]
    · exact fun id turn => by simp [Turn, calls] at turn
    · simp [calls]
  · simp [calls]
  · simp [execs]
  · simp [Listed, list]

/-- A call returns `0` only if its caller has been written to. -/
def Truthful (state : State) : Prop :=
  ∀ id, (state.calls id).phase = .returned 0 → (state.calls id).written = true

/-- What can fail in a step. -/
def Op.failure : Op → Option Failure
  | .call _ failure => failure
  | .resume _ _ failure => failure

section

variable (truthful : Truthful s)
include truthful

theorem Truthful.return_ {ret : Int}
    (honest : ret ≠ 0 ∨ (s.calls id).written = true) : Truthful (s.return_ id ret) := by
  intro o returned
  by_cases same : o = id
  · subst same
    simp only [return_, updateCall, update_self, Phase.returned.injEq]
      at returned ⊢
    rcases honest with failed | written
    · exact absurd returned failed
    · exact written
  · simp only [State.return_, State.updateCall, Function.update_of_ne same] at returned ⊢
    exact truthful o returned

theorem Truthful.of_calls (same : ∀ id, (next.calls id).phase = (s.calls id).phase ∧
      (next.calls id).written = (s.calls id).written) : Truthful next := by
  intro id returned
  rw [(same id).1] at returned
  rw [(same id).2]
  exact truthful id returned

theorem Truthful.wakeFirst : Truthful (wakeFirst s pe) := by
  unfold CpuSet.wakeFirst
  split
  · exact truthful
  next first _ _ =>
    refine truthful.of_calls fun id => ?_
    by_cases same : id = first
    · subst same
      simp [updateCall, updateExec]
    · simp [updateCall, updateExec, same]

theorem Truthful.write :
    Truthful (s.updateCall id fun call => { call with written := true }) := by
  intro o returned
  by_cases same : o = id
  · subst same
    simp [updateCall]
  · simp only [updateCall, update_of_ne same] at returned ⊢
    exact truthful o returned

theorem Truthful.join {failure : Option Failure}
    (allocated : failure ≠ some .pli) : Truthful (join config s id pe failure) := by
  unfold CpuSet.join
  simp only
  split
  · exact truthful.return_ (.inl (by decide))
  split
  · exact truthful.return_ (.inl (by decide))
  have enlisted : Truthful (enlist config (s.updateExec pe .count) id pe) := by
    intro o returned
    by_cases same : o = id
    · subst same
      simp [enlist, updateCall, updateExec] at returned
    · simp only [enlist, updateCall, updateExec, update_of_ne same]
        at returned ⊢
      exact truthful o returned
  split
  · exact Truthful.wakeFirst enlisted
  · exact enlisted

theorem Truthful.takeCpus {failure : Option Failure} :
    Truthful (takeCpus config s id pe failure) := by
  have counted : Truthful (s.updateExec pe .leave) := truthful
  unfold CpuSet.takeCpus
  simp only
  split
  · exact counted.return_ (.inl (by decide))
  split
  · exact counted.return_ (.inl (by decide))
  split
  · exact counted.return_ (.inl (by decide))
  split
  · exact counted.write.return_ (.inl (by decide))
  next used toUse _ _ _ =>
    have handed : Truthful ((((s.updateExec pe .leave).updateCall id fun call =>
        { call with written := true }).updateExec pe fun exec =>
          exec.hand id used toUse).return_ id 0) :=
      Truthful.return_ counted.write (.inr (by simp [updateCall]))
    split
    · exact Truthful.wakeFirst handed
    · exact handed

theorem Truthful.timeOut : Truthful (timeOut s id pe) := by
  refine Truthful.return_ ?_ (.inl (by decide))
  refine truthful.of_calls fun call => ?_
  simp only
  split <;> exact ⟨rfl, rfl⟩

theorem Truthful.listCall {failure : Option Failure} :
    Truthful (listCall s id failure) := by
  unfold CpuSet.listCall
  split
  iterate 5 exact truthful.return_ (.inl (by decide))
  exact truthful.write.return_ (.inr (by simp [updateCall]))

theorem exec_truthful (ok : Ok config s)
    (listed : Listed s) (allocated : op.failure ≠ some .pli)
    (taken : exec config s op = some next) : Truthful next := by
  have found {id : Nat} {failure : Option Failure} {pe : Option Nat} {middle : State}
      (isFound : findExec s (config.request id) failure = (pe, middle)) : Truthful middle := by
    obtain ⟨-, -, calls, -⟩ := findExec_ok ok listed isFound
    exact truthful.of_calls fun o => by rw [calls]; exact ⟨rfl, rfl⟩
  refine exec_cases taken (fun _ _ => truthful.listCall)
    (fun id failure middle isFound => (found isFound).return_ (.inl (by decide))) ?_ truthful
    (fun _ => truthful.timeOut) (fun _ _ failed => truthful.return_ (.inl failed))
    fun _ _ _ => truthful.takeCpus
  rintro id failure pe middle rfl _ isFound
  exact (found isFound).join allocated

end

theorem ok_of_reachable (reached : (machine config).Reachable s) :
    Ok config s ∧ Listed s :=
  reached.invariant (fun s => Ok config s ∧ Listed s)
    (fun _ initial => initial_ok initial)
    (fun _ _ _ _ ok taken => exec_ok ok.1 ok.2 taken)

/-- The step has memory for its list item. -/
def HasPli (_ : State) (op : Op) : Prop := op.failure ≠ some .pli

/-- In every run, whatever fails, times out or is interrupted: the CPU sets handed out in an
execution are disjoint, exist, and have the share of a process but at least one CPU, and the
ranks are `0`, `1` and so on, in the order of the start times.  When no list item fails to be
allocated, a call returns `0` only after it has written to its caller. -/
theorem cpu_partitioning (config : Config) {state : State}
    (reached : (machine config).Reachable state) :
    (∀ pe, Shares config (state.execs pe)) ∧
      (((machine config).restrict HasPli).Reachable state → Truthful state) := by
  refine ⟨fun pe => ((ok_of_reachable reached).1.execs pe).shares, fun restricted => ?_⟩
  refine restricted.invariant Truthful (fun state initial id returned => ?_) ?_
  · rw [initial.2.2.2.2 id] at returned
    cases returned
  · rintro state op next before truthful ⟨allocated, taken⟩
    obtain ⟨ok, listed⟩ := ok_of_reachable before.of_restrict
    exact exec_truthful truthful ok listed allocated taken

/-! ## Executions -/

def fourCpus : Topology where
  nCpus := 4
  mapping cpu := cpu + 8
  cpuToNode cpu := if cpu < 10 then 0 else 1
  numaMapping := [0, 1]
  cpuTopologyList := [⟨0, [[8, 9]]⟩, ⟨1, [[8, 9]]⟩, ⟨2, [[10, 11]]⟩, ⟨3, [[10, 11]]⟩]

/-- Every call belongs to one execution; the start times go down. -/
def sameProxy (topology : Topology) (nrProcesses : Int) : Config where
  topology := topology
  request id := ⟨nrProcesses, 77, 100 - id, none⟩

def noCalls : State where
  execs _ := ⟨0, 0, 0, 0, 0, [], [], []⟩
  partExecList := []
  nextExec := 0
  calls _ := ⟨.outside, 0, false, false, false⟩
  corrupted := false

theorem noCalls_initial : Initial noCalls := ⟨rfl, rfl, rfl, fun _ => rfl, fun _ => rfl⟩

/-- The process that started last calls first. -/
def twoCalls : List Op :=
  [.call 0 none, .call 1 none, .resume 1 .woken none, .resume 0 .woken none]

theorem cpu_partitioning_two :
    ∃ state, (machine (sameProxy fourCpus 2)).Reachable state ∧
      (state.execs 0).handed = [⟨1, 0, [1, 0]⟩, ⟨0, 1, [3, 2]⟩] ∧
      Shares (sameProxy fourCpus 2) (state.execs 0) := by
  obtain ⟨state, reached, isHanded⟩ : ∃ state, (machine (sameProxy fourCpus 2)).Reachable state ∧
      (state.execs 0).handed = [⟨1, 0, [1, 0]⟩, ⟨0, 1, [3, 2]⟩] :=
    Machine.exists_run noCalls_initial (fun _ _ _ => id) twoCalls (by decide +kernel)
  exact ⟨state, reached, isHanded, (cpu_partitioning _ reached).1 0⟩

/-- A call whose list item cannot be allocated returns `0` without writing anything; when
there are more processes than CPUs, the first gets a CPU although its share is none; and
when two of three processes have timed out before the third one comes, the third one takes
the head of an empty list for a call. -/
theorem cpu_partitioning_exceptions :
    (∃ state, (machine (sameProxy fourCpus 2)).Reachable state ∧
      (state.calls 0).phase = .returned 0 ∧ (state.calls 0).written = false) ∧
    (∃ state, (machine (sameProxy { fourCpus with nCpus := 1 } 2)).Reachable state ∧
      (state.execs 0).handed = [⟨1, 0, [0]⟩] ∧ 1 / 2 ≠ [0].length) ∧
    ∃ state, (machine (sameProxy fourCpus 3)).Reachable state ∧ state.corrupted = true :=
  ⟨Machine.exists_run noCalls_initial (fun _ _ _ => id) [.call 0 (some .pli)] (by decide +kernel),
    Machine.exists_run noCalls_initial (fun _ _ _ => id)
      [.call 0 none, .call 1 none, .resume 1 .woken none] (by decide +kernel),
    Machine.exists_run noCalls_initial (fun _ _ _ => id)
      [.call 0 none, .call 1 none, .resume 0 .timedOut none, .resume 1 .woken none, .call 2 none,
        .resume 2 .woken none] (by decide +kernel)⟩

end McKernel.CpuSet
