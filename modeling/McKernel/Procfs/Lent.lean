import McKernel.Procfs.Forward

/-!
# Memory lent to McKernel

The request block of a call that has given up is left to the answer, its data buffer is not.
As long as nobody gives up on a request with a data buffer, neither is freed before the answer
has come, and what a program reads has been stored by McKernel.  What a program writes is never
copied into the buffer.
-/

namespace McKernel.Procfs

open Option Function

variable {state next : State} {call after : Call} {id : Nat}

/-! ## What McKernel stores -/

theorem memLoop_le (pages : Nat → PageOutcome) (fuel off left ans : Nat) :
    (memLoop pages fuel off left ans).1 ≤ (memLoop pages fuel off left ans).2 := by
  induction fuel generalizing off left ans with
  | zero => simp [memLoop]
  | succ fuel ih =>
    rw [memLoop]
    split
    · simp
    · cases pages off with
      | ok => exact ih _ _ _
      | fault =>
        simp only [Errno.code]
        split <;> omega
      | foreign =>
        simp only [Errno.code]
        omega

theorem pagemapLoop_full (count start : Nat) :
    pagemapLoop count start (start + count * pageSize) = count := by
  induction count generalizing start with
  | zero => rfl
  | succ count ih =>
    have more : start < start + (count + 1) * pageSize := by
      simp only [pageSize]
      omega
    have shift : start + (count + 1) * pageSize = start + pageSize + count * pageSize := by
      simp only [pageSize]
      omega
    rw [pagemapLoop, if_pos more, shift, ih]

/-- The addresses of a request for `pagemap` do not wrap around. -/
def Request.NoWrap (request : Request) : Prop :=
  request.start + request.count / 8 * pageSize < 2 ^ 64

instance (request : Request) : Decidable request.NoWrap := inferInstanceAs (Decidable (_ < _))

theorem pagemap_le {request : Request} (noWrap : request.NoWrap) :
    request.pagemap.1 ≤ request.pagemap.2 := by
  rw [Request.pagemap]
  split
  · simp only [Errno.code]
    omega
  next aligned =>
    have same : request.end_ = request.start + request.count / 8 * pageSize :=
      Nat.mod_eq_of_lt noWrap
    simp only [same, pagemapLoop_full]
    omega

theorem handle_le {request : Request} (noWrap : request.entry = .pagemap → request.NoWrap)
    (handling : Handling) : (request.handle handling).1.ret ≤ (request.handle handling).2 := by
  cases handling with
  | failed => simp [Request.handle, Errno.code]
  | refused ret =>
    simp only [Request.handle]
    omega
  | handled pages =>
    rw [Request.handle]
    cases entry : request.entry with
    | mem => exact memLoop_le pages request.count request.offset request.count 0
    | pagemap => exact pagemap_le (noWrap entry)
    | buffered => simp

/-! ## What holds of a call -/

/-- McKernel has stored the byte. -/
def Byte.Produced (byte : Byte) : Prop := ∃ position, byte = .mckernel position

/-- A request that is not answered has its waiter, or has left its block, without a data
buffer, to the callback; and a read holds and delivers what McKernel has stored. -/
structure Call.Sound (call : Call) : Prop where
  waiting : call.phase = .waiting → call.pending = true
  owned : call.phase = .loop ∨ call.phase = .waiting ∨ call.phase = .check →
    call.block = .caller
  lent : call.pending = true →
    call.phase = .waiting ∨ call.block = .callback ∧ call.entry = .buffered
  left : call.block = .callback → call.pending = true
  freed : call.bufferFreed = true → (∃ ret, call.phase = .returned ret) ∧ call.entry ≠ .buffered
  stored : call.write = false → ∀ reply, call.reply = some reply →
    ∀ index : Nat, index < reply.ret → (call.buffer index).Produced
  delivered : call.write = false → call.delivered.length = call.copied ∧
    ∀ byte ∈ call.delivered, byte.Produced

namespace Call.Sound

theorem create (entry : Entry) (write : Bool) (off count size : Nat) (allocated : Bool) :
    (create entry write off count size allocated).Sound := by
  cases allocated <;>
    exact ⟨nofun, fun phase => by simp_all [Procfs.create],
      nofun, nofun, nofun,
      nofun, fun _ => ⟨rfl, nofun⟩⟩

section

variable (sound : call.Sound)
include sound

theorem settled (phase : call.phase = .loop ∨ call.phase = .check) :
    call.pending = false := by
  have owned := sound.owned (by
    rcases phase with phase | phase
    · exact .inl phase
    · exact .inr (.inr phase))
  by_contra pending
  rcases sound.lent (eq_true_of_ne_false pending) with waiting | ⟨left, _⟩
  · rcases phase with phase | phase <;> simp [phase] at waiting
  · rw [owned] at left
    cases left

theorem unfreed (running : ∀ ret, call.phase ≠ .returned ret) :
    call.bufferFreed = false := by
  by_contra freed
  obtain ⟨ret, returned⟩ := (sound.freed (eq_true_of_ne_false freed)).1
  exact running ret returned

theorem toOut (settled : call.pending = false)
    (running : ∀ ret, call.phase ≠ .returned ret) (ret : Int) :
    { call with phase := .out ret }.Sound where
  waiting phase := (nomatch phase)
  owned phase := by simp at phase
  lent pending := by
    rw [settled] at pending
    cases pending
  left := sound.left
  freed freed := by
    rw [sound.unfreed running] at freed
    cases freed
  stored := sound.stored
  delivered := sound.delivered

theorem send (sent : call.send error = some after) :
    after.Sound := by
  unfold Call.send at sent
  split at sent
  next phase =>
    have running : ∀ ret, call.phase ≠ .returned ret := by simp [phase]
    cases error with
    | some error =>
      cases sent
      exact sound.toOut (sound.settled (.inl phase)) running _
    | none =>
      cases sent
      refine ⟨fun _ => rfl, fun _ => sound.owned (.inl phase), fun _ => .inl rfl, fun _ => rfl,
        fun freed => ?_, nofun, sound.delivered⟩
      rw [sound.unfreed running] at freed
      cases freed
  · cases sent

theorem process (noWrap : call.write = false → call.entry = .pagemap → call.request.NoWrap)
    (processed : call.process handling = some after) : after.Sound := by
  unfold Call.process at processed
  split at processed
  · simp only [some.injEq] at processed
    split at processed
    next isWrite =>
      subst processed
      refine ⟨sound.waiting, sound.owned, sound.lent, sound.left, sound.freed, fun isRead => ?_,
        fun isRead => ?_⟩ <;>
      · rw [isWrite] at isRead
        cases isRead
    next isRead =>
      subst processed
      refine ⟨sound.waiting, sound.owned, sound.lent, sound.left, sound.freed,
        fun _ reply isReply i less => ?_, sound.delivered⟩
      simp only [some.injEq] at isReply
      subst isReply
      have counted : (call.request.handle handling).1.ret ≤ (call.request.handle handling).2 :=
        handle_le (noWrap (eq_false_of_ne_true isRead)) handling
      have inside : i < (call.request.handle handling).2 := by omega
      exact ⟨call.offset + i, if_pos inside⟩
  · cases processed

theorem answer (answered : call.answer = some after) : after.Sound := by
  obtain ⟨reply, isReply, answered⟩ := bind_eq_some_iff.mp answered
  split at answered
  next pending =>
    split at answered
    next phase =>
      cases answered
      have owned := sound.owned (.inr (.inl phase))
      have unfreed := sound.unfreed (by simp [phase])
      refine ⟨fun waiting => ?_, fun _ => owned, nofun, fun left => ?_,
        fun freed => ?_, sound.stored, sound.delivered⟩
      · simp only at waiting
        split at waiting <;> cases waiting
      · rw [owned] at left
        cases left
      · rw [unfreed] at freed
        cases freed
    next phase =>
      -- The answer comes late: the block was left to the callback.
      cases answered
      have left : call.block = .callback := by
        rcases sound.lent pending with waiting | ⟨left, _⟩
        · exact absurd waiting phase
        · exact left
      refine ⟨fun waiting => absurd waiting phase, fun running => ?_,
        nofun, fun isLeft => ?_, sound.freed, sound.stored,
        sound.delivered⟩
      · have owned := sound.owned running
        rw [left] at owned
        cases owned
      · simp [left] at isLeft
  · cases answered

theorem giveUp (isBuffered : call.entry = .buffered)
    (gaveUp : call.giveUp error true = some after) : after.Sound := by
  unfold Call.giveUp at gaveUp
  split at gaveUp
  next phase =>
    cases gaveUp
    refine ⟨nofun, fun running => by simp at running,
      fun _ => .inr ⟨rfl, isBuffered⟩, fun _ => sound.waiting phase, fun freed => ?_, sound.stored,
      sound.delivered⟩
    rw [sound.unfreed (by simp [phase])] at freed
    cases freed
  · cases gaveUp

theorem check (checked : call.check copies = some after) :
    after.Sound := by
  obtain ⟨reply, isReply, checked⟩ := bind_eq_some_iff.mp checked
  split at checked
  next phase =>
    have settled := sound.settled (.inr phase)
    have running : ∀ ret, call.phase ≠ .returned ret := by simp [phase]
    have owned := sound.owned (.inr (.inr phase))
    split at checked
    · cases checked
      exact sound.toOut settled running _
    next pos =>
      split at checked
      · cases checked
        exact sound.toOut settled running _
      · cases checked
        refine ⟨fun waiting => ?_, fun _ => owned, fun pending => ?_, fun left => ?_,
          fun freed => ?_, sound.stored, fun isRead => ?_⟩
        · simp only at waiting
          split at waiting <;> cases waiting
        · rw [settled] at pending
          cases pending
        · rw [owned] at left
          cases left
        · rw [sound.unfreed running] at freed
          cases freed
        · have before := sound.delivered isRead
          simp only at isRead
          simp only [isRead, Bool.false_eq_true, if_false, List.length_append, List.length_map,
            List.length_range, before.1, true_and]
          intro byte isByte
          rcases List.mem_append.mp isByte with old | new
          · exact before.2 byte old
          · obtain ⟨i, inside, rfl⟩ := List.mem_map.mp new
            refine sound.stored isRead reply isReply i ?_
            have := List.mem_range.mp inside
            omega
  · cases checked

theorem out (ended : call.out = some after) : after.Sound := by
  unfold Call.out at ended
  split at ended
  next ret phase =>
    cases ended
    refine ⟨nofun, fun running => by simp at running, fun pending => ?_,
      fun left => ?_, fun freed => ⟨⟨ret, rfl⟩, by simpa using freed⟩, sound.stored,
      sound.delivered⟩
    · rcases sound.lent pending with waiting | ⟨left, isBuffered⟩
      · rw [phase] at waiting
        cases waiting
      · exact .inr ⟨by simp [left], isBuffered⟩
    · have isLeft : call.block = .callback := by
        by_contra o
        split at left
        · cases left
        · exact o left
      exact sound.left isLeft
  · cases ended

end

end Call.Sound

/-! ## Whole runs -/

/-- The condition on the steps: nobody gives up on a request with a data buffer, or after the
data of the OS are gone; no block is left to the callback when they go; and the addresses of a
read of `pagemap` do not wrap around. -/
def Regular (state : State) : Op → Prop
  | .giveUp id _ => state.usrdata = true ∧ ∀ call ∈ state.calls id, call.entry = .buffered
  | .process id _ => ∀ call ∈ state.calls id, call.write = false → call.entry = .pagemap →
    call.request.NoWrap
  | .destroyIkcChannels => ∀ id, ∀ call ∈ state.calls id, call.block ≠ .callback
  | _ => True

theorem update_holds {property : Call → Prop} (holds : ∀ id call, state.calls id = some call →
    property call) {step : Call → Option Call}
    (kept : ∀ call after, state.calls id = some call → property call → step call = some after →
      property after)
    (updated : state.update id step = some next) :
    ∀ id call, next.calls id = some call → property call := by
  obtain ⟨call, found, updated⟩ := bind_eq_some_iff.mp updated
  obtain ⟨after, stepped, updated⟩ := bind_eq_some_iff.mp updated
  cases updated
  intro o otherCall isOther
  by_cases same : o = id
  · subst same
    simp only [update_self, some.injEq] at isOther
    exact isOther ▸ kept call after found (holds _ call found) stepped
  · simp only [update_of_ne same] at isOther
    exact holds o otherCall isOther

theorem create_holds {property : Call → Prop} (holds : ∀ id call, state.calls id = some call →
    property call)
    (fresh : property (create entry write off count size allocated))
    (ran : exec state (.create id entry write off count size allocated) = some next) :
    ∀ id call, next.calls id = some call → property call := by
  simp only [exec] at ran
  split at ran
  · cases ran
    intro o call isCall
    by_cases same : o = id
    · simp only [same, update_self, some.injEq] at isCall
      exact isCall ▸ fresh
    · simp only [update_of_ne same] at isCall
      exact holds o call isCall
  · cases ran

theorem exec_sound (sound : ∀ id call, state.calls id = some call → call.Sound)
    (isRegular : Regular state op) (ran : exec state op = some next) :
    ∀ id call, next.calls id = some call → call.Sound := by
  cases op with
  | create id entry write off count size allocated =>
    exact create_holds sound (.create entry write off count size allocated) ran
  | send id error =>
    simp only [exec] at ran
    split at ran
    · cases ran
    · exact update_holds sound (fun _ _ _ sound sent => sound.send sent) ran
  | process id handling =>
    refine update_holds sound (fun call _ found sound processed => ?_) ran
    exact sound.process (isRegular call found) processed
  | answer id =>
    simp only [exec] at ran
    split at ran
    · exact update_holds sound (fun _ _ _ sound answered => sound.answer answered) ran
    · cases ran
  | giveUp id error =>
    refine update_holds sound (fun call _ found sound gaveUp => ?_) ran
    rw [isRegular.1] at gaveUp
    exact sound.giveUp (isRegular.2 call found) gaveUp
  | check id copies => exact update_holds sound (fun _ _ _ sound checked => sound.check checked) ran
  | out id => exact update_holds sound (fun _ _ _ sound ended => sound.out ended) ran
  | destroyIkcChannels =>
    simp only [exec] at ran
    split at ran
    · cases ran
      intro id call found
      obtain ⟨before, isBefore, rfl⟩ := map_eq_some_iff.mp found
      -- Nothing is cleaned up.
      rw [Call.cleanup, if_neg (isRegular id before isBefore)]
      exact sound id before isBefore
    · cases ran

/-- In every run in which nobody gives up on a request with a data buffer: as long as the answer
to a request has not been received, neither its block nor its buffer is freed; and a read has
given the program as many bytes as it counts, all of them stored by McKernel. -/
theorem lent_memory_kept (reached : (machine.restrict Regular).Reachable state)
    (found : state.calls id = some call) :
    (call.pending = true → call.bufferFreed = false ∧ call.block ≠ .freed) ∧
      (call.write = false → call.delivered.length = call.copied ∧
        ∀ byte ∈ call.delivered, byte.Produced) := by
  have sound : ∀ id call, state.calls id = some call → call.Sound := by
    refine reached.invariant (fun state => ∀ id call, state.calls id = some call → call.Sound) ?_ ?_
    · intro start initial id call found
      rw [initial.2 id] at found
      cases found
    · intro state op next _ sound taken
      exact exec_sound sound taken.1 taken.2
  have callSound := sound id call found
  refine ⟨fun pending => ?_, callSound.delivered⟩
  rcases callSound.lent pending with waiting | ⟨left, isBuffered⟩
  · refine ⟨callSound.unfreed (by simp [waiting]), ?_⟩
    rw [callSound.owned (.inr (.inl waiting))]
    decide
  · refine ⟨?_, by simp [left]⟩
    by_contra freed
    exact (callSound.freed (eq_true_of_ne_false freed)).2 isBuffered

/-! ## Runs -/

def fresh : State := ⟨fun _ => none, true⟩

theorem init_fresh : machine.init fresh := ⟨rfl, fun _ => rfl⟩

/-- Steps that are regular whatever the calls hold: nobody gives up, nothing is shut down and
`pagemap` is not read. -/
def patient (state : State) : Op → Bool
  | .giveUp .. | .destroyIkcChannels => false
  | .process id _ => (state.calls id).all (·.entry != .pagemap)
  | _ => true

theorem regular_of_patient (state : State) (op : Op) (isPatient : patient state op = true) :
    Regular state op := by
  cases op with
  | process id handling =>
    intro call found _ isPagemap
    simp only [patient, mem_def.mp found, all_some, isPagemap] at isPatient
    cases isPatient
  | giveUp id error => cases isPatient
  | destroyIkcChannels => cases isPatient
  | _ => trivial

/-- A read of `mem` in two chunks: the first has been delivered, and McKernel works on the
second. -/
theorem lent_memory_kept_chunk :
    ∃ state call, (machine.restrict Regular).Reachable state ∧ state.calls 0 = some call ∧
      call.pending = true ∧ call.delivered.length = 4 ∧ call.bufferFreed = false := by
  obtain ⟨state, reached, call, found, isCall⟩ : ∃ state,
      (machine.restrict Regular).Reachable state ∧ ∃ call ∈ state.calls 0,
        call.pending = true ∧ call.delivered.length = 4 :=
    Machine.exists_restrict_run regular_of_patient init_fresh (fun _ _ _ => id)
      [.create 0 .mem false 4094 6 4 true, .send 0 none, .process 0 (.handled fun _ => .ok),
        .answer 0, .check 0 true, .send 0 none, .process 0 (.handled fun _ => .ok)]
      (by decide +kernel)
  exact ⟨state, call, reached, found, isCall.1, isCall.2,
    ((lent_memory_kept reached found).1 isCall.1).1⟩

/-- A read of `mem` times out: its buffer is freed, and McKernel stores into it afterwards.  The
request block of a read without a data buffer is freed when the OS is shut down.  A
write of two bytes succeeds with two bytes that are not the program's.  A read of `pagemap` at
the end of the address space delivers bytes that McKernel has not stored. -/
theorem lent_memory_lost :
    (∃ state call, machine.Reachable state ∧ state.calls 0 = some call ∧ call.entry = .mem ∧
      call.pending = true ∧ call.bufferFreed = true ∧ call.buffer 0 = .mckernel 100) ∧
    (∃ state call, machine.Reachable state ∧ state.calls 0 = some call ∧
      call.entry = .buffered ∧ call.pending = true ∧ call.block = .freed) ∧
    (∃ state call, machine.Reachable state ∧ state.calls 0 = some call ∧ call.write = true ∧
      call.phase = .returned 2 ∧ call.transferred = [.stale, .stale]) ∧
    ∃ state call, machine.Reachable state ∧ state.calls 0 = some call ∧ call.write = false ∧
      call.phase = .returned 16 ∧ call.delivered = List.replicate 16 .stale :=
  ⟨Machine.exists_run_some init_fresh (fun _ _ _ => id)
      [.create 0 .mem false 100 8 4096 true, .send 0 none, .giveUp 0 62, .out 0,
        .process 0 (.handled fun _ => .ok)] (by decide +kernel),
    Machine.exists_run_some init_fresh (fun _ _ _ => id)
      [.create 0 .buffered false 0 8 4096 true, .send 0 none, .giveUp 0 62, .out 0,
        .destroyIkcChannels] (by decide +kernel),
    Machine.exists_run_some init_fresh (fun _ _ _ => id)
      [.create 0 .mem true 100 2 4096 true, .send 0 none, .process 0 (.handled fun _ => .ok),
        .answer 0, .check 0 true, .out 0] (by decide +kernel),
    Machine.exists_run_some init_fresh (fun _ _ _ => id)
      [.create 0 .pagemap false (2 ^ 55 - 8) 16 4096 true, .send 0 none,
        .process 0 (.handled fun _ => .ok), .answer 0, .check 0 true, .out 0]
      (by decide +kernel)⟩

end McKernel.Procfs
