import McKernel.Sysfs.Model

/-!
# One request at a time

As long as requests and responses are delivered and no release is interrupted, `busy` tells
whether a request is outstanding, a call reads the result of its own request, and no node is
freed under a response that names it.
-/

namespace McKernel.Sysfs

open FirstMatch List Function State Option

variable {ops : List Op} {node size : Nat}

variable {s next : State} {call old : Call} {id : Nat}

/-! ## What holds of a call -/

/-- `lresult` is the answer to the call. -/
def State.Answers (state : State) (id : Nat) : Prop := ∃ value, state.lresult = some (id, value)

/-- What a call relies on in its phase. -/
structure Call.Fits (state : State) (call : Call) : Prop where
  inited : call.isDone = false → state.inited = true
  holder : call.holds = true → state.holder = some call.id
  send : call.phase = .send → state.busy = false
  wait : call.phase = .wait →
    state.outstanding = [⟨call.id, call.node⟩] ∨ state.busy = false ∧ state.Answers call.id
  read : call.phase = .read → state.busy = false ∧ state.Answers call.id
  gone : state.nodes call.node ≠ .live → call.kind = .release ∨ call.isDone = true
  removed : call.kind = .release → state.nodes call.node ≠ .live
  released : call.kind = .release → call.isDone = true →
    ∀ request ∈ state.outstanding, request.node ≠ call.node

theorem Call.Fits.release_of_gone (fits : call.Fits s) (active : call.isDone = false)
    (notLive : s.nodes call.node ≠ .live) : call.kind = .release :=
  (fits.gone notLive).resolve_right (ne_true_of_eq_false active)

theorem Call.Fits.bystander (fits : call.Fits s) (idle : call.holds = false)
    (inited : next.inited = s.inited) (nodes : next.nodes = s.nodes)
    (released : call.kind = .release → call.isDone = true →
      ∀ request ∈ next.outstanding, request.node ≠ call.node) : call.Fits next where
  inited active := inited.trans (fits.inited active)
  holder holds := by
    rw [idle] at holds
    cases holds
  send phase := by simp [Call.holds, phase] at idle
  wait phase := by simp [Call.holds, phase] at idle
  read phase := by simp [Call.holds, phase] at idle
  gone := by
    rw [nodes]
    exact fits.gone
  removed := by
    rw [nodes]
    exact fits.removed
  released := released

/-! ## What holds of the state -/

/-- One request at a time, and only a finished release frees a node. -/
structure Inv (state : State) : Prop where
  nodup : (state.calls.map (·.id)).Nodup
  fits : ∀ call ∈ state.calls, call.Fits state
  single : state.outstanding.length ≤ 1
  busy : state.busy = true ↔ state.outstanding ≠ []
  release : ∀ left ∈ state.calls, ∀ right ∈ state.calls, left.kind = .release →
    right.kind = .release → left.node = right.node → left.id = right.id
  freed : ∀ node, state.nodes node = .freed →
    ∃ call ∈ state.calls, call.kind = .release ∧ call.node = node ∧ call.isDone = true
  early : state.inited = false → state.outstanding = []

theorem mem_of_find (found : s.find id = some call) : call ∈ s.calls :=
  mem_of_find?_eq_some found

theorem id_of_find (found : s.find id = some call) : call.id = id := by
  simpa using find?_some found

namespace Inv

section

variable (inv : Inv s)
include inv

theorem idle_of_free (free : s.busy = false) : s.outstanding = [] := by
  by_contra some
  rw [inv.busy.mpr some] at free
  cases free

theorem idle_of_holder (holder : s.holder = some id)
    (isOther : o ∈ s.calls) (ne : o.id ≠ id) : o.holds = false := by
  by_contra holds
  have same := (inv.fits o isOther).holder (eq_true_of_ne_false holds)
  rw [holder] at same
  exact ne (Option.some.inj same).symm

section

variable (found : s.find id = some old)
include found

theorem advance (phase : Phase)
    (calls : next.calls = s.calls) (nodes : next.nodes = s.nodes)
    (self : (old.goto phase).Fits next)
    (others : ∀ o ∈ s.calls, o.id ≠ id → o.Fits next)
    (active : old.isDone = false) (single : next.outstanding.length ≤ 1)
    (busy : next.busy = true ↔ next.outstanding ≠ [])
    (early : next.inited = false → next.outstanding = []) : Inv (next.goto id phase) := by
  have isOld := mem_of_find found
  -- Every call of the next state is one of before, or the one that has gone on.
  have cases : ∀ call ∈ (next.goto id phase).calls,
      (call ∈ s.calls ∧ call.id ≠ id) ∨ call = old.goto phase := by
    intro call isCall
    simp only [goto, calls] at isCall
    rcases mem_update_key inv.nodup isCall with same | ⟨o, isOther, named, rfl⟩
    · exact .inl same
    · have same : o = old := by
        have foundOther := inj_on_of_nodup_map inv.nodup isOther isOld
        exact foundOther (named.trans (id_of_find found).symm)
      exact .inr (by rw [same])
  have kept : ∀ call ∈ s.calls, call.id ≠ id → call ∈ (next.goto id phase).calls := by
    intro call isCall ne
    simp only [goto, calls]
    exact mem_update_of_mem isCall (by simpa using ne)
  refine ⟨?_, ?_, single, busy, ?_, ?_, early⟩
  · have same : (next.goto id phase).calls.map (·.id) = s.calls.map (·.id) := by
      simp only [goto, calls]
      exact map_update fun _ => rfl
    rw [same]
    exact inv.nodup
  · intro call isCall
    rcases cases call isCall with ⟨isCall, ne⟩ | rfl
    · exact { others call isCall ne with }
    · exact { self with }
  · intro left isLeft right isRight leftKind rightKind sameNode
    rcases cases left isLeft with ⟨isLeft, _⟩ | rfl <;>
      rcases cases right isRight with ⟨isRight, _⟩ | rfl
    · exact inv.release left isLeft right isRight leftKind rightKind sameNode
    · exact inv.release left isLeft old isOld leftKind rightKind sameNode
    · exact inv.release old isOld right isRight leftKind rightKind sameNode
    · rfl
  · intro node isFreed
    have before : s.nodes node = .freed := by
      rw [← nodes]
      exact isFreed
    obtain ⟨call, isCall, isRelease, isNode, isDone⟩ := inv.freed node before
    have ne : call.id ≠ id := by
      intro same
      have equal := inj_on_of_nodup_map inv.nodup isCall isOld
        (same.trans (id_of_find found).symm)
      rw [equal, active] at isDone
      cases isDone
    exact ⟨call, kept call isCall ne, isRelease, isNode, isDone⟩

theorem finish (outcome : Outcome) (active : old.isDone = false)
    (released : old.kind = .release → ∀ request ∈ s.outstanding, request.node ≠ old.node) :
    Inv (s.finish old outcome) := by
  have isOld := mem_of_find found
  have named := id_of_find found
  subst named
  have fits := inv.fits old isOld
  refine inv.advance found (.done outcome) rfl rfl ?_ ?_ active inv.single inv.busy inv.early
  · exact ⟨nofun, nofun, nofun, nofun, nofun, fun _ => .inr rfl, fits.removed,
      fun isRelease _ => released isRelease⟩
  · intro o isOther ne
    have otherFits := inv.fits o isOther
    by_cases holds : old.holds = true
    · have idle := inv.idle_of_holder (fits.holder holds) isOther ne
      exact otherFits.bystander idle rfl rfl otherFits.released
    · exact { otherFits with
        holder := fun otherHolds => (if_neg holds).trans (otherFits.holder otherHolds) }

theorem down (phase : old.phase = .down)
    (free : s.holder = none) : Inv ({ s with holder := some id }.goto id .wait0) := by
  have isOld := mem_of_find found
  have named := id_of_find found
  have fits := inv.fits old isOld
  have active : old.isDone = false := by simp [Call.isDone, phase]
  refine inv.advance found .wait0 rfl rfl ?_ ?_ active inv.single inv.busy inv.early
  · exact ⟨fun _ => fits.inited active, fun _ => by simp [Call.goto, named], nofun, nofun, nofun,
      fun notLive => .inl (fits.release_of_gone active notLive), fits.removed, nofun⟩
  · intro o isOther _
    have otherFits := inv.fits o isOther
    have idle : o.holds = false := by
      by_contra holds
      have held := otherFits.holder (eq_true_of_ne_false holds)
      rw [free] at held
      cases held
    exact otherFits.bystander idle rfl rfl otherFits.released

theorem pass (phase : Phase) (holds : old.holds = true) (stays : (old.goto phase).holds = true)
    (send : phase = .send → s.busy = false) (wait : phase ≠ .wait)
    (read : phase = .read → s.busy = false ∧ s.Answers id) :
    Inv (s.goto id phase) := by
  have isOld := mem_of_find found
  have named := id_of_find found
  have fits := inv.fits old isOld
  have activeOf : ∀ call : Call, call.holds = true → call.isDone = false := by
    intro call holds
    unfold Call.holds at holds
    unfold Call.isDone
    split at holds <;> simp_all
  have active := activeOf old holds
  refine inv.advance found phase rfl rfl ?_ (fun o isOther _ => inv.fits o isOther)
    active inv.single inv.busy inv.early
  refine ⟨fun _ => fits.inited active, fun _ => fits.holder holds, send,
    fun isWait => absurd isWait wait, ?_,
    fun notLive => .inl (fits.release_of_gone active notLive), fits.removed, fun _ isDone => ?_⟩
  · intro isRead
    have answered := read isRead
    rw [← named] at answered
    exact answered
  · rw [activeOf _ stays] at isDone
    cases isDone

theorem send (phase : old.phase = .send) :
    Inv ({ s with
      busy := true, outstanding := ⟨id, old.node⟩ :: s.outstanding }.goto id .wait) := by
  have isOld := mem_of_find found
  have named := id_of_find found
  have fits := inv.fits old isOld
  have active : old.isDone = false := by simp [Call.isDone, phase]
  have holds : old.holds = true := by simp [Call.holds, phase]
  have holder := fits.holder holds
  have empty := inv.idle_of_free (fits.send phase)
  -- A node that has been removed is only named by its one release.
  have onlyRelease := fits.release_of_gone active
  refine inv.advance found .wait rfl rfl ?_ ?_ active (by simp [empty]) (by simp) ?_
  · refine ⟨fun _ => fits.inited active, fun _ => holder, nofun,
      fun _ => .inl (by simp [Call.goto, named, empty]), nofun,
      fun notLive => .inl (onlyRelease notLive), fits.removed, nofun⟩
  · intro o isOther ne
    have otherFits := inv.fits o isOther
    rw [named] at holder
    refine otherFits.bystander (inv.idle_of_holder holder isOther ne) rfl rfl ?_
    intro isRelease _ request isRequest sameNode
    simp only [empty, mem_singleton] at isRequest
    subst isRequest
    have notLive := otherFits.removed isRelease
    rw [← sameNode] at notLive
    have same := inv.release o isOther old isOld isRelease (onlyRelease notLive) sameNode.symm
    exact ne (same.trans named)
  · intro notInited
    rw [fits.inited active] at notInited
    cases notInited

end

theorem respond (isRequest : request ∈ s.outstanding)
    (v : Int) : Inv (s.respond request v) := by
  have only : s.outstanding = [request] := by
    have single := inv.single
    match outstanding : s.outstanding with
    | [] => simp [outstanding] at isRequest
    | [first] =>
      rw [outstanding, mem_singleton] at isRequest
      rw [isRequest]
    | _ :: _ :: _ => simp [outstanding] at single
  have empty : (s.respond request v).outstanding = [] := by
    simp [State.respond, only]
  have isBusy : s.busy = true := inv.busy.mpr (by simp [only])
  refine ⟨inv.nodup, ?_, by simp [empty], ?_, inv.release, inv.freed, fun _ => empty⟩
  · intro call isCall
    have fits := inv.fits call isCall
    refine ⟨fits.inited, fits.holder, fun _ => rfl, fun phase => .inr ⟨rfl, ?_⟩, fun phase => ?_,
      fits.gone, fits.removed, fun _ _ => by simp [empty]⟩
    · rcases fits.wait phase with own | ⟨free, _⟩
      · rw [only, List.cons.injEq] at own
        exact ⟨v, by simp [State.respond, own.1]⟩
      · rw [isBusy] at free
        cases free
    · have free := (fits.read phase).1
      rw [isBusy] at free
      cases free
  · rw [empty]
    exact ⟨nofun, fun some => absurd rfl some⟩

theorem free (isCall : call ∈ s.calls) (isRelease : call.kind = .release)
    (isDone : call.isDone = true) : Inv (s.setNode call.node .freed) := by
  have notLive := (inv.fits call isCall).removed isRelease
  have gone : ∀ node, s.nodes node = .live →
      (s.setNode call.node .freed).nodes node = .live := by
    intro node live
    have ne : node ≠ call.node := fun same => notLive (same ▸ live)
    simpa [setNode, ne] using live
  have removed : ∀ node, s.nodes node ≠ .live →
      (s.setNode call.node .freed).nodes node ≠ .live := by
    intro node notLive
    by_cases same : node = call.node
    · simp [setNode, same]
    · simpa [setNode, same] using notLive
  refine ⟨inv.nodup, fun o isOther => ?_, inv.single, inv.busy, inv.release, ?_, inv.early⟩
  · have fits := inv.fits o isOther
    exact { fits with
      gone := fun notLive => fits.gone fun live => notLive (gone _ live)
      removed := fun isRelease => removed _ (fits.removed isRelease) }
  · intro node isFreed
    by_cases same : node = call.node
    · exact ⟨call, isCall, isRelease, same.symm, isDone⟩
    · exact inv.freed node (by simpa [setNode, same] using isFreed)

theorem fits_start (kind : Kind) (nodes : Nat → Node) (gone : nodes node ≠ .live → kind = .release)
    (removed : kind = .release → nodes node ≠ .live) :
    Call.Fits { s with nodes := nodes } ⟨id, kind, node, size, s.start kind⟩ := by
  cases isInited : s.inited with
  | true =>
    have phase : s.start kind = .down := by simp [start, isInited]
    rw [phase]
    exact ⟨fun _ => rfl, nofun, nofun, nofun, nofun, fun notLive => .inl (gone notLive), removed,
      nofun⟩
  | false =>
    -- Without a buffer the call ends at once, and nothing has ever been sent.
    have phase : ∃ outcome, s.start kind = .done outcome := by
      cases kind <;> simp [start, isInited]
    obtain ⟨outcome, phase⟩ := phase
    have empty : ({ s with nodes := nodes } : State).outstanding = [] := inv.early isInited
    rw [phase]
    exact ⟨nofun, nofun, nofun, nofun, nofun, fun _ => .inr rfl, removed,
      fun _ _ request isRequest => by
        rw [empty] at isRequest
        cases isRequest⟩

theorem nodup_cons (absent : s.find id = none)
    (named : call.id = id) : ((call :: s.calls).map (·.id)).Nodup := by
  rw [List.map_cons, List.nodup_cons]
  refine ⟨fun isId => ?_, inv.nodup⟩
  obtain ⟨o, isOther, same⟩ := mem_map.mp isId
  have ne := find?_eq_none.mp absent o isOther
  simp [same, named] at ne

theorem start (live : s.nodes node = .live)
    (absent : s.find id = none) (o : kind ≠ .release) :
    Inv { s with calls := ⟨id, kind, node, size, s.start kind⟩ :: s.calls } := by
  have fits : Call.Fits s ⟨id, kind, node, size, s.start kind⟩ :=
    inv.fits_start kind s.nodes (fun notLive => absurd live notLive) fun isRelease =>
      absurd isRelease o
  refine ⟨inv.nodup_cons absent rfl, ?_, inv.single, inv.busy, ?_, ?_, inv.early⟩
  · intro call isCall
    rcases mem_cons.mp isCall with rfl | isCall
    · exact { fits with }
    · exact { inv.fits call isCall with }
  · intro left isLeft right isRight leftKind rightKind sameNode
    rcases mem_cons.mp isLeft with rfl | isLeft
    · exact absurd leftKind o
    · rcases mem_cons.mp isRight with rfl | isRight
      · exact absurd rightKind o
      · exact inv.release left isLeft right isRight leftKind rightKind sameNode
  · intro freed isFreed
    obtain ⟨call, isCall, rest⟩ := inv.freed freed isFreed
    exact ⟨call, mem_cons_of_mem _ isCall, rest⟩

theorem unlink (live : s.nodes node = .live)
    (absent : s.find id = none) (drained : s.drained node = true) :
    Inv (({ s with
      calls := ⟨id, .release, node, size, s.start .release⟩ :: s.calls }).setNode node
        .removed) := by
  have fits : Call.Fits { s with nodes := Function.update s.nodes node .removed }
      ⟨id, .release, node, size, s.start .release⟩ :=
    inv.fits_start .release _ (fun _ => rfl) fun _ => by simp
  -- Before this there was no release of the node.
  have first : ∀ call ∈ s.calls, call.kind = .release → call.node ≠ node := by
    intro call isCall isRelease same
    exact (inv.fits call isCall).removed isRelease (same ▸ live)
  refine ⟨inv.nodup_cons absent rfl, ?_, inv.single, inv.busy, ?_, ?_, inv.early⟩
  · intro call isCall
    rcases mem_cons.mp isCall with rfl | isCall
    · exact { fits with }
    · have callFits := inv.fits call isCall
      refine { callFits with
        gone := fun notLive => ?_
        removed := fun isRelease => ?_ }
      · by_cases same : call.node = node
        · have passed := all_eq_true.mp drained call isCall
          simp only [same, bne_self_eq_false, Bool.false_or] at passed
          exact .inr passed
        · exact callFits.gone (by simpa [setNode, same] using notLive)
      · have ne := first call isCall isRelease
        simpa [setNode, ne] using callFits.removed isRelease
  · intro left isLeft right isRight leftKind rightKind sameNode
    rcases mem_cons.mp isLeft with rfl | isLeft <;>
      rcases mem_cons.mp isRight with rfl | isRight
    · rfl
    · exact absurd sameNode.symm (first right isRight rightKind)
    · exact absurd sameNode (first left isLeft leftKind)
    · exact inv.release left isLeft right isRight leftKind rightKind sameNode
  · intro freed isFreed
    have ne : freed ≠ node := fun same => by simp [setNode, same] at isFreed
    obtain ⟨call, isCall, rest⟩ := inv.freed freed (by
      simpa [setNode, ne] using isFreed)
    exact ⟨call, mem_cons_of_mem _ isCall, rest⟩

end

end Inv

/-! ## Runs -/

/-- The condition on the steps: requests and responses are delivered, and signals interrupt no
release. -/
def regular (state : State) : Op → Bool
  | .send _ error => error.isNone
  | .interrupt id => (state.find id).all fun call => call.kind != .release
  | .respond _ _ delivered => delivered
  | _ => true

/-- `regular` as a proposition. -/
def Regular (state : State) (op : Op) : Prop := regular state op = true

theorem exec_inv (inv : Inv s) (isRegular : Regular s op)
    (ran : exec s op = some next) : Inv next := by
  cases op with simp only [exec, bind_eq_bind, bind_eq_some_iff,
      ite_none_right_eq_some, ite_none_left_eq_some, Option.some.injEq] at ran
  | setup bufsize =>
    obtain ⟨_, rfl⟩ := ran
    exact { inv with
      fits := fun call isCall => { inv.fits call isCall with inited := fun _ => rfl }
      early := nofun }
  | call id kind node size =>
    obtain ⟨free, ran⟩ := ran
    cases kind with
    | «show» | store =>
      cases ran
      exact inv.start free.1 free.2 (by decide)
    | release =>
      obtain ⟨drained, ⟨⟩⟩ := ite_none_right_eq_some.mp ran
      exact inv.unlink free.1 free.2 drained
  | down id =>
    obtain ⟨call, found, here, rfl⟩ := ran
    exact inv.down found here.1 here.2
  | proceed id =>
    obtain ⟨call, found, here, ran⟩ := ran
    have holds : call.holds = true := by simp [Call.holds, here.1]
    split at ran
    next tooLarge =>
      cases ran
      refine inv.finish found .ENOSPC (by simp [Call.isDone, here.1]) fun isRelease => ?_
      rw [tooLarge.1] at isRelease
      cases isRelease
    · cases ran
      exact inv.pass found .send holds rfl (fun _ => here.2) (by decide) (by simp)
  | send id error =>
    obtain rfl := isNone_iff_eq_none.mp isRegular
    obtain ⟨call, found, here, ran⟩ := ran
    cases ran
    exact inv.send found here
  | wake id =>
    obtain ⟨call, found, here, rfl⟩ := ran
    have holds : call.holds = true := by simp [Call.holds, here.1]
    refine inv.pass found .read holds rfl (by simp) (by decide) fun _ => ?_
    rcases (inv.fits call (mem_of_find found)).wait here.1 with own | answered
    · rw [inv.idle_of_free here.2] at own
      cases own
    · rw [id_of_find found] at answered
      exact answered
  | read id =>
    obtain ⟨call, found, ⟨_, v⟩, _, here, rfl⟩ := ran
    have fits := inv.fits call (mem_of_find found)
    refine inv.finish found (.result v) (by simp [Call.isDone, here]) fun _ request isRequest => ?_
    rw [inv.idle_of_free (fits.read here).1] at isRequest
    cases isRequest
  | interrupt id =>
    obtain ⟨call, found, ran⟩ := ran
    have notRelease : call.kind ≠ .release := by
      simpa [Regular, regular, found] using isRegular
    have ends : call.isDone = false → s.finish call .EINTR = next → Inv next := by
      rintro active rfl
      exact inv.finish found .EINTR active fun isRelease => absurd isRelease notRelease
    split at ran
    iterate 3 next phase => exact ends (by simp [Call.isDone, phase]) (Option.some.inj ran)
    all_goals cases ran
  | free id =>
    obtain ⟨call, found, here, rfl⟩ := ran
    exact inv.free (mem_of_find found) here.1 here.2.1
  | respond request v delivered =>
    obtain ⟨isRequest, ran⟩ := ran
    have isDelivered : delivered = true := isRegular
    rw [isDelivered, if_pos rfl] at ran
    cases ran
    exact inv.respond isRequest v

theorem inv_of_reachable (reached : (machine.restrict Regular).Reachable s) : Inv s := by
  refine reached.invariant Inv ?_ ?_
  · rintro start rfl
    exact ⟨nodup_nil, nofun, Nat.zero_le _, by simp [boot],
      nofun, nofun, fun _ => rfl⟩
  · intro s op next _ inv taken
    exact exec_inv inv taken.1 taken.2

/-- In every run in which requests and responses are delivered and no release is interrupted:
at most one request is outstanding, `busy` is set exactly while there is one, its response
makes the channel free again, a call that reads the result reads that of its own request, and
the node that a response will name has not been freed. -/
theorem channel_sound (reached : (machine.restrict Regular).Reachable state) :
    state.outstanding.length ≤ 1 ∧ (state.busy = true ↔ state.outstanding ≠ []) ∧
      (∀ call ∈ state.calls, call.phase = .read → state.Answers call.id) ∧
      ∀ request ∈ state.outstanding, state.nodes request.node ≠ .freed ∧
        ∀ value, ∃ next, exec state (.respond request value true) = some next ∧
          next.busy = false := by
  have inv := inv_of_reachable reached
  refine ⟨inv.single, inv.busy, fun call isCall phase => ((inv.fits call isCall).read phase).2, ?_⟩
  intro request isRequest
  refine ⟨fun isFreed => ?_, fun value =>
    ⟨state.respond request value, by simp only [exec, isRequest, if_true], rfl⟩⟩
  obtain ⟨call, isCall, isRelease, isNode, isDone⟩ := inv.freed request.node isFreed
  exact (inv.fits call isCall).released isRelease isDone request isRequest isNode.symm

/-- A `show` is interrupted while McKernel works on it; the next call waits until the late
response has come, and then sends its own request. -/
theorem channel_sound_interrupted :
    ∃ state, (machine.restrict Regular).Reachable state ∧ state.outstanding = [⟨1, 4⟩] ∧
      state.busy = true ∧ state.outstanding.length ≤ 1 := by
  obtain ⟨state, reached, isState⟩ : ∃ state, (machine.restrict Regular).Reachable state ∧
      state.outstanding = [⟨1, 4⟩] ∧ state.busy = true :=
    Machine.exists_restrict_run (fun _ _ => id) rfl (fun _ _ _ => id)
      [.setup 4096, .call 0 .show 3 0, .down 0, .proceed 0, .send 0 none, .interrupt 0,
        .call 1 .store 4 100, .down 1, .respond ⟨0, 3⟩ 5 true, .proceed 1, .send 1 none]
      (by decide +kernel)
  exact ⟨state, reached, isState.1, isState.2, (channel_sound reached).1⟩

/-! ## A channel that stays busy -/

/-- The channel is busy without a request that would make it free. -/
structure Stuck (state : State) : Prop where
  busy : state.busy = true
  outstanding : state.outstanding = []
  calls : ∀ call ∈ state.calls, call.phase ≠ .send

theorem Stuck.goto (stuck : Stuck s) (o : phase ≠ .send)
    (busy : next.busy = true) (outstanding : next.outstanding = [])
    (calls : next.calls = s.calls) : Stuck (next.goto id phase) := by
  refine ⟨busy, outstanding, fun call isCall => ?_⟩
  simp only [State.goto, calls] at isCall
  rcases mem_update isCall with isCall | ⟨_, _, rfl⟩
  · exact stuck.calls call isCall
  · exact o

theorem Stuck.exec (stuck : Stuck s) (ran : exec s op = some next) :
    Stuck next := by
  have notFree : s.busy ≠ false := by simp [stuck.busy]
  cases op with simp only [Sysfs.exec, bind_eq_bind, bind_eq_some_iff,
      ite_none_right_eq_some, ite_none_left_eq_some, Option.some.injEq] at ran
  | setup bufsize =>
    obtain ⟨_, rfl⟩ := ran
    exact ⟨stuck.busy, stuck.outstanding, stuck.calls⟩
  | call id kind node size =>
    have begins : ∀ call ∈ (⟨id, kind, node, size, s.start kind⟩ : Call) :: s.calls,
        call.phase ≠ .send := by
      intro call isCall
      rcases mem_cons.mp isCall with rfl | isCall
      · cases kind <;> cases isInited : s.inited <;> simp [start, isInited]
      · exact stuck.calls call isCall
    obtain ⟨_, ran⟩ := ran
    cases kind with
    | «show» | store =>
      cases ran
      exact ⟨stuck.busy, stuck.outstanding, begins⟩
    | release =>
      obtain ⟨_, ⟨⟩⟩ := ite_none_right_eq_some.mp ran
      exact ⟨stuck.busy, stuck.outstanding, begins⟩
  | down id =>
    obtain ⟨call, found, _, rfl⟩ := ran
    exact stuck.goto (by decide) stuck.busy stuck.outstanding rfl
  | proceed id =>
    obtain ⟨call, found, here, _⟩ := ran
    exact absurd here.2 notFree
  | send id error =>
    obtain ⟨call, found, here, _⟩ := ran
    exact absurd here (stuck.calls call (mem_of_find found))
  | wake id =>
    obtain ⟨call, found, here, _⟩ := ran
    exact absurd here.2 notFree
  | read id =>
    obtain ⟨call, found, ⟨_, v⟩, _, _, rfl⟩ := ran
    exact stuck.goto (by simp) stuck.busy stuck.outstanding rfl
  | interrupt id =>
    obtain ⟨call, found, ran⟩ := ran
    split at ran
    case h_1 | h_2 | h_3 =>
      cases ran
      exact stuck.goto (by simp) stuck.busy stuck.outstanding rfl
    all_goals cases ran
  | free id =>
    obtain ⟨call, found, _, rfl⟩ := ran
    exact ⟨stuck.busy, stuck.outstanding, stuck.calls⟩
  | respond request v delivered =>
    rw [stuck.outstanding] at ran
    exact absurd ran.1 not_mem_nil

theorem Stuck.run (stuck : Stuck s)
    (res : Machine.run (fun _ _ => true) Sysfs.exec s ops = some next) : Stuck next := by
  induction ops generalizing s with
  | nil =>
    cases res
    exact stuck
  | cons op rest ih =>
    obtain ⟨middle, ran, res⟩ := bind_eq_some_iff.mp res
    exact ih (stuck.exec ran) res

/-- No run ever clears the busy flag again. -/
def State.BusyForever (state : State) : Prop :=
  ∀ ops next, Machine.run (fun _ _ => true) exec state ops = some next → next.busy = true

instance (state : State) : Decidable (Stuck state) :=
  decidable_of_iff (state.busy = true ∧ state.outstanding = [] ∧
    ∀ call ∈ state.calls, call.phase ≠ .send)
    ⟨fun ⟨busy, outstanding, calls⟩ => ⟨busy, outstanding, calls⟩,
      fun stuck => ⟨stuck.busy, stuck.outstanding, stuck.calls⟩⟩

theorem exists_stuck (ops : List Op) (res : (Machine.run (fun _ _ => true) exec boot ops).any
      (fun s => decide (s.find 0 = some call ∧ Stuck s)) = true) :
    ∃ s, machine.Reachable s ∧ s.outstanding = [] ∧ s.find 0 = some call ∧
      s.BusyForever := by
  obtain ⟨s, reached, isCall, stuck⟩ : ∃ s, machine.Reachable s ∧
      s.find 0 = some call ∧ Stuck s := Machine.exists_run rfl (fun _ _ _ => id) ops res
  exact ⟨s, reached, stuck.outstanding, isCall, fun _ _ res => (stuck.run res).busy⟩

/-- A request that cannot be sent leaves the channel busy forever, and so does a response that
is lost; a release that is interrupted frees a node that a response will name. -/
theorem channel_broken :
    (∃ state, machine.Reachable state ∧ state.outstanding = [] ∧
      state.find 0 = some ⟨0, .show, 3, 0, .done (.sendFailed (-12))⟩ ∧ state.BusyForever) ∧
    (∃ state, machine.Reachable state ∧ state.outstanding = [] ∧
      state.find 0 = some ⟨0, .store, 3, 9, .wait⟩ ∧ state.BusyForever) ∧
    ∃ state, machine.Reachable state ∧ state.outstanding = [⟨0, 3⟩] ∧ state.nodes 3 = .freed :=
  ⟨exists_stuck [.setup 4096, .call 0 .show 3 0, .down 0, .proceed 0, .send 0 (some (-12))]
      (by decide +kernel),
    exists_stuck [.setup 4096, .call 0 .store 3 9, .down 0, .proceed 0, .send 0 none,
      .respond ⟨0, 3⟩ 9 false] (by decide +kernel),
    Machine.exists_run rfl (fun _ _ _ => id) [.setup 4096, .call 0 .release 3 0, .down 0,
      .proceed 0, .send 0 none, .interrupt 0, .free 0] (by decide +kernel)⟩

end McKernel.Sysfs
