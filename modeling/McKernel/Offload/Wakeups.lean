import McKernel.Offload.Handshake

/-!
# No wake-up is lost

As long as no backward call is given up, the two sides agree on the block: Linux notifies
a requester that is spinning or has announced its sleep, a sleeping requester that has been
notified has a message on its way, and the status `COMPLETED` is the last thing Linux
writes.
-/

namespace McKernel.Offload

open Option

variable {sleep : Bool} {s next : State}

/-! ## The invariant -/

def Requester.InLoop : Requester → Prop
  | .outside | .publish _ | .clear _ | .send _ | .handle => False
  | _ => True

def Requester.Sleepy : Requester → Prop
  | .prepare | .asleep => True
  | _ => False

/-- The requester has no answer yet and is not to be woken. -/
structure Waiting (state : State) : Prop where
  inLoop : state.requester.InLoop
  status : state.block.status = .inProgress
  notNotified : state.block.reqThreadStatus ≠ .toBeWoken
  announced : state.requester.Sleepy → state.block.reqThreadStatus ≠ .spinning

/-- The answer is there; a sleeper has its wake-up. -/
structure Notified (state : State) : Prop where
  inLoop : state.requester.InLoop
  notified : state.block.reqThreadStatus = .toBeWoken
  message : state.requester.Sleepy → 0 < state.wakeups

def NoPackets (state : State) : Prop := state.requests = 0 ∧ state.replies = 0

/-- What the two sides know of each other. -/
def Agree (state : State) : Responder → Prop
  | .idle =>
    (NoPackets state ∧ (state.requester = .outside ∨ state.requester = .publish false ∨
      state.requester = .clear false ∧ state.block.reqThreadStatus = .spinning ∨
      state.requester = .send false ∧ state.block = ⟨.spinning, .inProgress⟩)) ∨
    (state.requests = 1 ∧ state.replies = 0 ∧ Waiting state) ∨
    (NoPackets state ∧ state.block.status = .completed ∧ Notified state)
  | .serving => NoPackets state ∧ Waiting state
  | .fill _ => NoPackets state ∧ Waiting state
  | .notify _ => NoPackets state ∧ Waiting state
  | .recheck _ =>
    NoPackets state ∧ state.requester.InLoop ∧ state.block = ⟨.descheduled, .inProgress⟩
  | .notifySlow _ =>
    NoPackets state ∧ state.requester.InLoop ∧ state.block = ⟨.descheduled, .inProgress⟩
  | .wake _ => NoPackets state ∧ state.requester.InLoop ∧ state.block = ⟨.toBeWoken, .inProgress⟩
  | .post _ => NoPackets state ∧ state.block.status = .inProgress ∧ Notified state
  | .waiting _ =>
    (NoPackets state ∧ state.block.status = .syscall ∧ Notified state) ∨
    (NoPackets state ∧ (state.requester = .handle ∨ state.requester = .publish true)) ∨
    (NoPackets state ∧ state.requester = .clear true ∧
      state.block.reqThreadStatus = .spinning) ∨
    (NoPackets state ∧ state.requester = .send true ∧ state.block = ⟨.spinning, .inProgress⟩) ∨
    (state.requests = 0 ∧ state.replies = 1 ∧ Waiting state)

/-- The two sides agree, and nothing is touched too late. -/
structure Consistent (state : State) : Prop where
  agree : Agree state state.responder
  live : state.requester ≠ .outside → state.live = true
  notInconsistent : state.inconsistent = false
  noLateTouch : state.lateTouch = false

/-- The responder is not interrupted five times. -/
def Patient (state : State) : Action → Prop
  | .interrupt =>
    match state.responder with
    | .waiting retry => retry + 1 < 5
    | _ => True
  | _ => True

instance (state : State) (action : Action) : Decidable (Patient state action) := by
  unfold Patient
  split
  · split <;> infer_instance
  · infer_instance

theorem Consistent.quiet (quiet : Quiet s) : Consistent s := by
  obtain ⟨_, outside, idle, noRequests, noReplies, notInconsistent, noLateTouch⟩ := quiet
  refine ⟨?_, fun inside => absurd outside inside, notInconsistent, noLateTouch⟩
  rw [idle]
  exact .inl ⟨⟨noRequests, noReplies⟩, .inl outside⟩

/-! ## Steps of the requester -/

/-- The requester touches neither the packets nor what Linux does. -/
structure Stays (state next : State) : Prop where
  responder : next.responder = state.responder
  wakeups : next.wakeups = state.wakeups
  requests : next.requests = state.requests
  replies : next.replies = state.replies
  inconsistent : next.inconsistent = state.inconsistent
  lateTouch : next.lateTouch = state.lateTouch

theorem Stays.goto (s : State) (requester : Requester) : Stays s (s.goto requester) :=
  ⟨rfl, rfl, rfl, rfl, rfl, rfl⟩

theorem Stays.noPackets (stays : Stays s next) (noPackets : NoPackets s) : NoPackets next :=
  ⟨stays.requests.trans noPackets.1, stays.replies.trans noPackets.2⟩

/-- A step in the loops while the status is `IN_PROGRESS`. The requester falls asleep only
after it has announced this. -/
structure LoopStep (state next : State) : Prop where
  stays : Stays state next
  live : next.live = state.live
  inLoop : next.requester.InLoop
  status : next.block.status = state.block.status
  announces : next.block.reqThreadStatus = state.block.reqThreadStatus ∨
    state.block.reqThreadStatus = .spinning ∧ next.block.reqThreadStatus = .descheduled
  sleepy : next.requester.Sleepy →
    state.requester.Sleepy ∨ next.block.reqThreadStatus = .descheduled

theorem LoopStep.goto (inLoop : requester.InLoop) (sleepy : requester.Sleepy →
      s.requester.Sleepy ∨ s.block.reqThreadStatus = .descheduled) :
    LoopStep s (s.goto requester) :=
  ⟨.goto s requester, rfl, inLoop, rfl, .inl rfl, sleepy⟩

theorem loopStep_of_inProgress (inLoop : s.requester.InLoop)
    (status : s.block.status = .inProgress) (stepped : requesterStep sleep s = some next) :
    LoopStep s next := by
  cases place : s.requester with
  | outside | publish | clear | send | handle =>
    rw [place] at inLoop
    exact inLoop.elim
  | asleep => simp [requesterStep, place] at stepped
  | outer =>
    simp only [requesterStep, place, status, reduceCtorEq, ↓reduceIte,
      some.injEq] at stepped
    exact stepped ▸ .goto trivial False.elim
  | inner =>
    simp only [requesterStep, place, status, ↓reduceIte, some.injEq] at stepped
    exact stepped ▸ .goto trivial False.elim
  | decide =>
    simp only [requesterStep, place, some.injEq] at stepped
    subst stepped
    cases sleep <;> exact .goto trivial False.elim
  | load =>
    simp only [requesterStep, place, some.injEq] at stepped
    subst stepped
    split
    next descheduled => exact .goto trivial fun _ => .inr descheduled
    · exact .goto trivial False.elim
  | cas =>
    simp only [requesterStep, place] at stepped
    split at stepped
    next spinning =>
      cases stepped
      exact ⟨⟨rfl, rfl, rfl, rfl, rfl, rfl⟩, rfl, trivial, rfl, .inr ⟨spinning, rfl⟩,
        fun _ => .inr rfl⟩
    · cases stepped
      exact .goto trivial False.elim
  | prepare =>
    simp only [requesterStep, place, some.injEq] at stepped
    subst stepped
    exact .goto trivial fun _ => .inl (by simp [place, Requester.Sleepy])
  | after =>
    simp only [requesterStep, place, status, reduceCtorEq, ↓reduceIte,
      some.injEq] at stepped
    exact stepped ▸ .goto trivial False.elim

theorem Waiting.loopStep (waiting : Waiting s) (step : LoopStep s next) : Waiting next := by
  refine ⟨step.inLoop, step.status.trans waiting.status, ?_, ?_⟩
  · rcases step.announces with same | ⟨_, descheduled⟩
    · rw [same]
      exact waiting.notNotified
    · simp [descheduled]
  · intro sleepy
    rcases step.sleepy sleepy with before | descheduled
    · rcases step.announces with same | ⟨spinning, _⟩
      · rw [same]
        exact waiting.announced before
      · exact absurd spinning (waiting.announced before)
    · simp [descheduled]

theorem Notified.loopStep (notified : Notified s) (step : LoopStep s next) :
    Notified next := by
  have same : next.block.reqThreadStatus = .toBeWoken := by
    rcases step.announces with same | ⟨spinning, _⟩
    · exact same.trans notified.notified
    · simp [notified.notified] at spinning
  refine ⟨step.inLoop, same, fun sleepy => ?_⟩
  rcases step.sleepy sleepy with before | descheduled
  · exact step.stays.wakeups ▸ notified.message before
  · simp [same] at descheduled

theorem LoopStep.block_eq (step : LoopStep s next) {b : SyscallResponse}
    (before : s.block = b) (notSpinning : b.reqThreadStatus ≠ .spinning) :
    next.block = b := by
  subst before
  rcases step.announces with same | ⟨spinning, _⟩
  · exact SyscallResponse.ext same step.status
  · exact absurd spinning notSpinning

theorem Notified.requesterStep (notified : Notified s)
    (answered : s.block.status ≠ .inProgress)
    (stepped : requesterStep sleep s = some next) :
    (LoopStep s next ∧ next.block = s.block) ∨
      (s.block.status = .completed ∧
        next = { s with live := false, requester := .outside }) ∨
      (s.block.status = .syscall ∧ next = s.goto .handle) := by
  have loops {requester : Requester} (reached : some (s.goto requester) = some next)
      (inLoop : requester.InLoop) (sleepy : requester.Sleepy → s.requester.Sleepy) :
      LoopStep s next ∧ next.block = s.block := by
    cases reached
    exact ⟨.goto inLoop fun falls => .inl (sleepy falls), rfl⟩
  have inLoop := notified.inLoop
  cases place : s.requester with
  | outside | publish | clear | send | handle =>
    rw [place] at inLoop
    exact inLoop.elim
  | asleep => simp [Offload.requesterStep, place] at stepped
  | outer =>
    simp only [Offload.requesterStep, place] at stepped
    split at stepped
    next completed =>
      cases stepped
      exact .inr (.inl ⟨completed, rfl⟩)
    · exact .inl (loops stepped trivial False.elim)
  | inner =>
    simp only [Offload.requesterStep, place, if_neg answered] at stepped
    exact .inl (loops stepped trivial False.elim)
  | decide =>
    simp only [Offload.requesterStep, place] at stepped
    cases sleep <;> exact .inl (loops stepped trivial False.elim)
  | load =>
    simp only [Offload.requesterStep, place, notified.notified, reduceCtorEq,
      ↓reduceIte] at stepped
    exact .inl (loops stepped trivial False.elim)
  | cas =>
    simp only [Offload.requesterStep, place, notified.notified, reduceCtorEq,
      ↓reduceIte] at stepped
    exact .inl (loops stepped trivial False.elim)
  | prepare =>
    simp only [Offload.requesterStep, place] at stepped
    exact .inl (loops stepped trivial fun _ => by simp [place, Requester.Sleepy])
  | after =>
    simp only [Offload.requesterStep, place] at stepped
    split at stepped
    next syscall =>
      cases stepped
      exact .inr (.inr ⟨syscall, rfl⟩)
    · exact .inl (loops stepped trivial False.elim)

theorem Consistent.advance (consistent : Consistent s) (place : s.responder = responder)
    (live : next.live = true) (same : next.responder = s.responder)
    (inconsistent : next.inconsistent = s.inconsistent)
    (lateTouch : next.lateTouch = s.lateTouch) (agree : Agree next responder) :
    Consistent next :=
  ⟨(same.trans place).symm ▸ agree, fun _ => live, inconsistent.trans consistent.notInconsistent,
    lateTouch.trans consistent.noLateTouch⟩

theorem requesterStep_consistent (consistent : Consistent s)
    (stepped : requesterStep sleep s = some next) : Consistent next := by
  have agree := consistent.agree
  have inside : s.requester ≠ .outside := by
    intro outside
    simp [requesterStep, outside] at stepped
  have live := consistent.live inside
  -- In the loops only `Agree` is left to show.
  have loops {responder : Responder} (place : s.responder = responder)
      (step : LoopStep s next) (agreeNext : Agree next responder) : Consistent next :=
    consistent.advance place (step.live.trans live) step.stays.responder step.stays.inconsistent
      step.stays.lateTouch agreeNext
  have waits (waiting : Waiting s) : LoopStep s next :=
    loopStep_of_inProgress waiting.inLoop waiting.status stepped
  have fixed {b : SyscallResponse} (inLoop : s.requester.InLoop)
      (before : s.block = b) (status : b.status = .inProgress) :
      LoopStep s next :=
    loopStep_of_inProgress inLoop (before ▸ status) stepped
  cases place : s.responder with
  | idle =>
    rw [place] at agree
    rcases agree with ⟨noPackets, quiet⟩ | ⟨requested, noReplies, waiting⟩ |
      ⟨noPackets, completed, notified⟩
    · rcases quiet with outside | publish | ⟨clear, spinning⟩ | ⟨send, b⟩
      · exact absurd outside inside
      · simp only [requesterStep, publish, some.injEq] at stepped
        subst stepped
        exact consistent.advance place live rfl rfl rfl <|
          .inl ⟨noPackets, .inr (.inr (.inl ⟨rfl, rfl⟩))⟩
      · simp only [requesterStep, clear, some.injEq] at stepped
        subst stepped
        exact consistent.advance place live rfl rfl rfl <|
          .inl ⟨noPackets, .inr (.inr (.inr ⟨rfl, SyscallResponse.ext spinning rfl⟩))⟩
      · simp only [requesterStep, send, some.injEq] at stepped
        subst stepped
        refine consistent.advance place live rfl rfl rfl <|
          .inr (.inl ⟨by simp [noPackets.1], noPackets.2, trivial, ?_, ?_, False.elim⟩)
        · simp [b]
        · simp [b]
    · have step := waits waiting
      exact loops place step <| .inr (.inl ⟨step.stays.requests.trans requested,
        step.stays.replies.trans noReplies,
        waiting.loopStep step⟩)
    · rcases notified.requesterStep (by simp [completed]) stepped with
        ⟨step, b⟩ | ⟨_, rfl⟩ | ⟨syscall, _⟩
      · exact loops place step <| .inr (.inr ⟨step.stays.noPackets noPackets, b ▸ completed,
          notified.loopStep step⟩)
      · refine { consistent with agree := ?_, live := fun outside => absurd rfl outside }
        rw [place]
        exact .inl ⟨noPackets, .inl rfl⟩
      · simp [completed] at syscall
  | serving | fill | notify =>
    rw [place] at agree
    have step := waits agree.2
    exact loops place step <| ⟨step.stays.noPackets agree.1, agree.2.loopStep step⟩
  | recheck | notifySlow | wake =>
    rw [place] at agree
    have step := fixed agree.2.1 agree.2.2 rfl
    exact loops place step <| ⟨step.stays.noPackets agree.1, step.inLoop,
      step.block_eq agree.2.2 (by simp)⟩
  | post =>
    rw [place] at agree
    have step := loopStep_of_inProgress agree.2.2.inLoop agree.2.1 stepped
    exact loops place step <| ⟨step.stays.noPackets agree.1, step.status.trans agree.2.1,
      agree.2.2.loopStep step⟩
  | waiting =>
    rw [place] at agree
    rcases agree with ⟨noPackets, syscall, notified⟩ | ⟨noPackets, handle | publish⟩ |
      ⟨noPackets, clear, spinning⟩ | ⟨noPackets, send, b⟩ | ⟨noRequests, replied, waiting⟩
    · rcases notified.requesterStep (by simp [syscall]) stepped with
        ⟨step, b⟩ | ⟨completed, _⟩ | ⟨_, rfl⟩
      · exact loops place step <| .inl ⟨step.stays.noPackets noPackets, b ▸ syscall,
        notified.loopStep step⟩
      · simp [syscall] at completed
      · exact consistent.advance place live rfl rfl rfl <| .inr (.inl ⟨noPackets, .inl rfl⟩)
    · simp only [requesterStep, handle, some.injEq] at stepped
      subst stepped
      exact consistent.advance place live rfl rfl rfl <| .inr (.inl ⟨noPackets, .inr rfl⟩)
    · simp only [requesterStep, publish, some.injEq] at stepped
      subst stepped
      exact consistent.advance place live rfl rfl rfl <| .inr (.inr (.inl ⟨noPackets, rfl, rfl⟩))
    · simp only [requesterStep, clear, some.injEq] at stepped
      subst stepped
      exact consistent.advance place live rfl rfl rfl <| .inr (.inr (.inr (.inl ⟨noPackets, rfl,
        SyscallResponse.ext spinning rfl⟩)))
    · simp only [requesterStep, send, some.injEq] at stepped
      subst stepped
      refine consistent.advance place live rfl rfl rfl <|
        .inr (.inr (.inr (.inr ⟨noPackets.1, by simp [noPackets.2], trivial, ?_, ?_,
        False.elim⟩)))
      · simp [b]
      · simp [b]
    · have step := waits waiting
      exact loops place step <| .inr (.inr (.inr (.inr ⟨step.stays.requests.trans noRequests,
        step.stays.replies.trans replied, waiting.loopStep step⟩)))

/-! ## Messages -/

/-- What Linux and the requester agree on does not depend on a requester in the loops that
does not fall asleep. -/
theorem Agree.transfer (agree : Agree s responder) (b : next.block = s.block)
    (packets : next.requests = s.requests ∧ next.replies = s.replies)
    (inLoop : s.requester.InLoop → next.requester.InLoop)
    (outOfLoop : ¬s.requester.InLoop → next.requester = s.requester)
    (sleepy : next.requester.Sleepy → s.requester.Sleepy ∧ s.wakeups ≤ next.wakeups) :
    Agree next responder := by
  have noPackets (none : NoPackets s) : NoPackets next :=
    ⟨packets.1.trans none.1, packets.2.trans none.2⟩
  have waits (waiting : Waiting s) : Waiting next :=
    ⟨inLoop waiting.inLoop, b ▸ waiting.status, b ▸ waiting.notNotified,
      fun asleep => b ▸ waiting.announced (sleepy asleep).1⟩
  have notifies (notified : Notified s) : Notified next :=
    ⟨inLoop notified.inLoop, b ▸ notified.notified,
      fun asleep => (notified.message (sleepy asleep).1).trans_le (sleepy asleep).2⟩
  have out {place : Requester} (at_ : s.requester = place) (notIn : ¬place.InLoop) :
      next.requester = place :=
    (outOfLoop (at_ ▸ notIn)).trans at_
  cases responder with
  | idle =>
    rcases agree with ⟨none, quiet⟩ | ⟨requested, noReplies, waiting⟩ | ⟨none, completed, notified⟩
    · refine .inl ⟨noPackets none, ?_⟩
      rcases quiet with outside | publish | ⟨clear, spinning⟩ | ⟨send, sent⟩
      · exact .inl (out outside id)
      · exact .inr (.inl (out publish id))
      · exact .inr (.inr (.inl ⟨out clear id, b ▸ spinning⟩))
      · exact .inr (.inr (.inr ⟨out send id, b.trans sent⟩))
    · exact .inr (.inl ⟨packets.1.trans requested, packets.2.trans noReplies, waits waiting⟩)
    · exact .inr (.inr ⟨noPackets none, b ▸ completed, notifies notified⟩)
  | serving | fill | notify => exact ⟨noPackets agree.1, waits agree.2⟩
  | recheck | notifySlow | wake =>
    exact ⟨noPackets agree.1, inLoop agree.2.1, b.trans agree.2.2⟩
  | post => exact ⟨noPackets agree.1, b ▸ agree.2.1, notifies agree.2.2⟩
  | waiting =>
    rcases agree with ⟨none, syscall, notified⟩ | ⟨none, handle | publish⟩ |
      ⟨none, clear, spinning⟩ | ⟨none, send, sent⟩ | ⟨noRequests, replied, waiting⟩
    · exact .inl ⟨noPackets none, b ▸ syscall, notifies notified⟩
    · exact .inr (.inl ⟨noPackets none, .inl (out handle id)⟩)
    · exact .inr (.inl ⟨noPackets none, .inr (out publish id)⟩)
    · exact .inr (.inr (.inl ⟨noPackets none, out clear id, b ▸ spinning⟩))
    · exact .inr (.inr (.inr (.inl ⟨noPackets none, out send id, b.trans sent⟩)))
    · exact .inr (.inr (.inr (.inr
        ⟨packets.1.trans noRequests, packets.2.trans replied, waits waiting⟩)))

theorem woken_consistent (consistent : Consistent s)
    (interruptible : s.requester.interruptible = true) (wakeups : Nat) :
    Consistent { s with wakeups := wakeups, requester := s.requester.woken } := by
  have awake : ¬s.requester.woken.Sleepy := by
    cases place : s.requester <;>
      simp_all [Requester.woken, Requester.Sleepy, Requester.interruptible]
  have inLoop : s.requester.InLoop → s.requester.woken.InLoop := by
    cases s.requester <;> simp [Requester.woken, Requester.InLoop]
  have outOfLoop : ¬s.requester.InLoop → s.requester.woken = s.requester := by
    cases s.requester <;> simp [Requester.woken, Requester.InLoop]
  refine { consistent with
    agree := consistent.agree.transfer rfl ⟨rfl, rfl⟩ inLoop outOfLoop fun sleepy =>
      absurd sleepy awake
    live := fun inside => consistent.live fun outside => inside ?_ }
  exact (outOfLoop (by simp [outside, Requester.InLoop])).trans outside

/-! ## Steps of the responder -/

theorem touch_eq (consistent : Consistent s) (inLoop : s.requester.InLoop) :
    s.touch = s := by
  have live : s.live = true := by
    refine consistent.live fun outside => ?_
    rw [outside] at inLoop
    exact inLoop
  have same : (s.lateTouch || !s.live) = s.lateTouch := by simp [live]
  unfold State.touch
  rw [same]

theorem Waiting.respond (waiting : Waiting s) (responder : Responder) :
    Waiting (s.respond responder) :=
  { waiting with }

theorem responderStep_consistent (consistent : Consistent s)
    (stepped : responderStep s = some next) : Consistent next := by
  have agree := consistent.agree
  have build {after : State} (live : after.live = s.live)
      (requester : after.requester = s.requester)
      (inconsistent : after.inconsistent = s.inconsistent)
      (lateTouch : after.lateTouch = s.lateTouch) (agreeAfter : Agree after after.responder) :
      Consistent after :=
    ⟨agreeAfter, fun inside => live.trans (consistent.live (requester ▸ inside)),
      inconsistent.trans consistent.notInconsistent, lateTouch.trans consistent.noLateTouch⟩
  cases place : s.responder with
  | idle | serving | waiting => simp [responderStep, place] at stepped
  | fill reply =>
    rw [place] at agree
    simp only [responderStep, place, touch_eq consistent agree.2.inLoop,
      some.injEq] at stepped
    subst stepped
    exact build rfl rfl rfl rfl ⟨agree.1, agree.2.respond _⟩
  | notify reply =>
    rw [place] at agree
    obtain ⟨noPackets, waiting⟩ := agree
    simp only [responderStep, place, touch_eq consistent waiting.inLoop] at stepped
    split at stepped
    next spinning =>
      cases stepped
      exact build rfl rfl rfl rfl ⟨noPackets, waiting.status, waiting.inLoop, rfl,
        fun sleepy => absurd spinning (waiting.announced sleepy)⟩
    next notSpinning =>
      cases stepped
      refine build rfl rfl rfl rfl ⟨noPackets, waiting.inLoop,
        SyscallResponse.ext ?_ waiting.status⟩
      have notNotified := waiting.notNotified
      simp only [State.respond]
      cases reqThreadStatus : s.block.reqThreadStatus <;> simp_all
  | recheck reply =>
    rw [place] at agree
    simp only [responderStep, place, touch_eq consistent agree.2.1,
      some.injEq] at stepped
    subst stepped
    exact build rfl rfl rfl rfl agree
  | notifySlow reply =>
    rw [place] at agree
    obtain ⟨noPackets, inLoop, b⟩ := agree
    simp only [responderStep, place, touch_eq consistent inLoop, b, ↓reduceIte,
      some.injEq] at stepped
    subst stepped
    exact build rfl rfl rfl rfl ⟨noPackets, inLoop, by simp [State.setReqThreadStatus,
      State.respond, b]⟩
  | wake reply =>
    rw [place] at agree
    obtain ⟨noPackets, inLoop, b⟩ := agree
    simp only [responderStep, place, some.injEq] at stepped
    subst stepped
    exact build rfl rfl rfl rfl ⟨noPackets, by simp [b], inLoop, by simp [b],
      fun _ => Nat.succ_pos _⟩
  | post reply =>
    rw [place] at agree
    obtain ⟨noPackets, status, notified⟩ := agree
    cases reply with
    | final =>
      simp only [responderStep, place, touch_eq consistent notified.inLoop,
        some.injEq] at stepped
      subst stepped
      exact build rfl rfl rfl rfl (.inr (.inr ⟨noPackets, rfl, { notified with }⟩))
    | backward =>
      simp only [responderStep, place, touch_eq consistent notified.inLoop,
        some.injEq] at stepped
      subst stepped
      exact build rfl rfl rfl rfl (.inl ⟨noPackets, rfl, { notified with }⟩)

/-! ## Runs -/

/-- What the requester can rely on, wherever the responder is. -/
inductive Stage (state : State) (responder : Responder) : Prop where
  | out (noPackets : NoPackets state) (out : ¬state.requester.InLoop)
    (idle : state.requester = .outside → responder = .idle)
  | waits (waiting : Waiting state)
    (replied : 0 < state.replies →
      ∃ retry, responder = .waiting retry ∧ state.requests = 0 ∧ state.replies = 1)
  | served (noPackets : NoPackets state) (inLoop : state.requester.InLoop)
    (status : state.block.status = .inProgress)
  | notified (noPackets : NoPackets state) (notified : Notified state)

theorem Agree.stage (agree : Agree s responder) : Stage s responder := by
  have unreplied (none : NoPackets s) (replied : 0 < s.replies) :
      ∃ retry, responder = .waiting retry ∧ s.requests = 0 ∧ s.replies = 1 :=
    absurd none.2 replied.ne'
  cases responder with
  | idle =>
    rcases agree with ⟨none, quiet⟩ | ⟨_, noReplies, waiting⟩ | ⟨none, _, notified⟩
    · refine .out none ?_ fun _ => rfl
      rcases quiet with place | place | ⟨place, _⟩ | ⟨place, _⟩ <;> simp [place, Requester.InLoop]
    · exact .waits waiting fun replied => absurd noReplies replied.ne'
    · exact .notified none notified
  | serving | fill | notify => exact .waits agree.2 (unreplied agree.1)
  | recheck | notifySlow | wake => exact .served agree.1 agree.2.1 (by rw [agree.2.2])
  | post => exact .notified agree.1 agree.2.2
  | waiting retry =>
    rcases agree with ⟨none, _, notified⟩ | ⟨none, place | place⟩ | ⟨none, place, _⟩ |
      ⟨none, place, _⟩ | ⟨noRequests, replied, waiting⟩
    · exact .notified none notified
    iterate 4 exact .out none (by simp [place, Requester.InLoop]) (by simp [place])
    · exact .waits waiting fun _ => ⟨retry, rfl, noRequests, replied⟩

theorem Consistent.idle_of_outside (consistent : Consistent s)
    (outside : s.requester = .outside) : s.responder = .idle ∧ NoPackets s := by
  have out : ¬s.requester.InLoop := by simp [outside, Requester.InLoop]
  cases consistent.agree.stage with
  | out noPackets _ idle => exact ⟨idle outside, noPackets⟩
  | waits waiting => exact absurd waiting.inLoop out
  | served _ inLoop => exact absurd inLoop out
  | notified _ notified => exact absurd notified.inLoop out

theorem Consistent.waiting_of_replies (consistent : Consistent s)
    (replied : 0 < s.replies) :
    ∃ retry, s.responder = .waiting retry ∧ s.requests = 0 ∧ s.replies = 1 ∧
      Waiting s := by
  cases consistent.agree.stage with
  | out noPackets | served noPackets | notified noPackets => exact absurd noPackets.2 replied.ne'
  | waits waiting single =>
    obtain ⟨retry, place, noRequests, one⟩ := single replied
    exact ⟨retry, place, noRequests, one, waiting⟩

theorem Agree.interrupted {retry : Nat} (agree : Agree s (.waiting retry)) :
    Agree (s.respond (.waiting (retry + 1))) (.waiting (retry + 1)) :=
  have later : Agree s (.waiting (retry + 1)) := agree
  later.transfer rfl ⟨rfl, rfl⟩ id (fun _ => rfl) fun sleepy => ⟨sleepy, Nat.le_refl _⟩

theorem exec_consistent (consistent : Consistent s)
    (patient : Patient s action) (ran : exec s action = some next) :
    Consistent next := by
  have agree := consistent.agree
  cases action with simp only [exec, ite_none_right_eq_some, some.injEq] at ran
  | call stale =>
    obtain ⟨outside, rfl⟩ := ran
    refine { consistent with agree := ?_, live := fun _ => rfl }
    have idle := consistent.idle_of_outside outside
    rw [idle.1]
    exact .inl ⟨idle.2, .inr (.inl rfl)⟩
  | requester sleep => exact requesterStep_consistent consistent ran
  | deliver =>
    obtain ⟨enabled, rfl⟩ := ran
    exact woken_consistent consistent enabled.2 _
  | spurious =>
    obtain ⟨asleep, rfl⟩ := ran
    have woken := woken_consistent consistent (by simp [asleep, Requester.interruptible])
      s.wakeups
    rw [asleep] at woken
    exact woken
  | accept =>
    obtain ⟨enabled, rfl⟩ := ran
    refine { consistent with agree := ?_ }
    rw [enabled.2] at agree
    rcases agree with ⟨noPackets, _⟩ | ⟨requested, noReplies, waiting⟩ | ⟨noPackets, _⟩
    · exact absurd noPackets.1 (Nat.ne_of_gt enabled.1)
    · exact ⟨⟨by simp [requested], noReplies⟩, { waiting with }⟩
    · exact absurd noPackets.1 (Nat.ne_of_gt enabled.1)
  | begin reply =>
    obtain ⟨serving, rfl⟩ := ran
    rw [serving] at agree
    exact { consistent with agree := ⟨agree.1, agree.2.respond _⟩ }
  | responder => exact responderStep_consistent consistent ran
  | arrive =>
    obtain ⟨replied, ran⟩ := ran
    obtain ⟨retry, place, noRequests, single, waiting⟩ := consistent.waiting_of_replies replied
    simp only [place] at ran
    cases ran
    exact { consistent with agree := ⟨⟨noRequests, by simp [single]⟩, { waiting with }⟩ }
  | interrupt =>
    split at ran
    next retry place =>
      cases ran
      rw [place] at agree
      simp only [Patient, place] at patient
      rw [if_pos patient]
      exact { consistent with agree := agree.interrupted }
    · cases ran

theorem consistent_of_reachable (reached : (machine.restrict Patient).Reachable s) :
    Consistent s := by
  refine reached.invariant Consistent (fun _ quiet => .quiet quiet) ?_
  intro before action after _ consistent taken
  exact exec_consistent consistent taken.1 taken.2

theorem Consistent.message (consistent : Consistent s)
    (answered : s.block.status ≠ .inProgress) (asleep : s.requester = .asleep) :
    0 < s.wakeups := by
  cases consistent.agree.stage with
  | out _ out => simp [asleep, Requester.InLoop] at out
  | waits waiting => exact absurd waiting.status answered
  | served _ _ status => exact absurd status answered
  | notified _ notified => exact notified.message (by simp [asleep, Requester.Sleepy])

/-- As long as no backward call is given up: the responder never finds an inconsistent
requester and never touches a block that is gone, and a requester that sleeps although its status
is `COMPLETED` or `SYSCALL` has a wake-up message on its way, which wakes it up. -/
theorem offload_handshake {state : State} (reached : (machine.restrict Patient).Reachable state) :
    (state.inconsistent = false ∧ state.lateTouch = false) ∧
    (state.block.status ≠ .inProgress → state.requester = .asleep → 0 < state.wakeups ∧
      ∃ next, machine.step state .deliver next ∧ next.requester = .inner) := by
  have consistent := consistent_of_reachable reached
  refine ⟨⟨consistent.notInconsistent, consistent.noLateTouch⟩, fun answered asleep => ?_⟩
  have message := consistent.message answered asleep
  refine ⟨message, _, if_pos ⟨message, by rw [asleep]; rfl⟩, ?_⟩
  simp [asleep, Requester.woken]

/-- An offloaded call with a backward call: the requester falls asleep before it is announced. -/
def servedCall : List Action :=
  [.call ⟨.toBeWoken, .completed⟩, .requester false, .requester false, .requester false,
    .accept, .requester false, .requester false, .requester true, .requester false,
    .requester false, .requester false, .begin .backward, .responder, .responder, .responder,
    .responder, .responder, .responder]

/-- No call has been made. The block is the one the last call leaves behind. -/
def quietState : State :=
  ⟨⟨.toBeWoken, .completed⟩, false, .outside, .idle, 0, 0, 0, false, false⟩

theorem quietState_quiet : Quiet quietState := by decide

/-- The requester sleeps when the backward call is announced, and is woken up. -/
theorem offload_handshake_served :
    ∃ state, (machine.restrict Patient).Reachable state ∧ state.inconsistent = false ∧
      state.block.status = .syscall ∧ state.requester = .asleep ∧
      ∃ next, machine.step state .deliver next ∧ next.requester = .inner := by
  obtain ⟨state, reached, status, asleep⟩ : ∃ state, (machine.restrict Patient).Reachable state ∧
      state.block.status = .syscall ∧ state.requester = .asleep :=
    Machine.exists_restrict_run (fun _ _ => of_decide_eq_true) quietState_quiet (fun _ _ _ => id)
      servedCall (by decide +kernel)
  obtain ⟨flags, wakes⟩ := offload_handshake reached
  exact ⟨state, reached, flags.1, status, asleep, (wakes (by rw [status]; decide) asleep).2⟩

/-- A worker gives a backward call up. -/
def abandonedCall : List Action :=
  [.call ⟨.spinning, .inProgress⟩, .requester false, .requester false, .requester false, .accept,
    .begin .backward, .responder, .responder, .responder, .interrupt, .interrupt, .interrupt,
    .interrupt, .interrupt]

/-- When a backward call is given up, the final return finds the requester notified
already; and the late result of the call is served as a request of its own, after
`do_syscall` has returned. -/
theorem abandoned_call_breaks_handshake :
    (∃ state, machine.Reachable state ∧ state.inconsistent = true) ∧
      ∃ state, machine.Reachable state ∧ state.lateTouch = true :=
  ⟨Machine.exists_run quietState_quiet (fun _ _ _ => id) (abandonedCall.append
      [.begin .final, .responder, .responder, .responder, .responder]) (by decide +kernel),
    Machine.exists_run quietState_quiet (fun _ _ _ => id) (abandonedCall.append
      [.requester false, .requester false, .requester false, .requester false,
        .requester false, .requester false, .requester false, .begin .final, .responder,
        .responder, .responder, .requester false, .arrive, .accept, .begin .final,
        .responder]) (by decide +kernel)⟩

end McKernel.Offload
