import McKernel.Ikc.ReplyWait

/-!
# Who frees the descriptor and the buffers

The protocol is safe outside of a few windows: between the waiter's compare-and-swap and
its insertion into the list, between the callback's compare-and-swap and its wake-up, and
around the cleanup at shutdown.  A descriptor that is not listed in `free_addrs` must not
be left behind at all.
-/

namespace McKernel.Ikc

open Option

variable {status statusAfter : Bool} {before after callback : Callback} {s : State}

/-- The callback is about to access the descriptor, other than for the cleanup. -/
def Callback.Touches : Callback → Prop
  | .store | .cas | .wake => True
  | _ => False

instance : DecidablePred Callback.Touches := by
  intro callback
  unfold Callback.Touches
  split <;> infer_instance

/-- The steps of a waiter outside of the windows: it gives up only when its descriptor is
listed, links it before the list is cleaned up, and frees it, itself or through its caller,
only when the callback has no access left. -/
def WaiterSound (shutdown : Shutdown) (request : Request) : Prop :=
  match request.waiter with
  | .cas => request.status = false → request.desc ≠ .separate
  | .link => shutdown ≠ .cleaned
  | .release => request.desc = .allocated → ¬request.callback.Touches
  | .returned =>
    request.doFrees = true → request.desc = .embedded ∨ request.desc = .separate →
      ¬request.callback.Touches
  | _ => True

instance (shutdown : Shutdown) (request : Request) : Decidable (WaiterSound shutdown request) := by
  unfold WaiterSound
  split <;> infer_instance

def CallbackSound (request : Request) : Prop :=
  request.callback = .cleanup → request.linked = true

instance : DecidablePred CallbackSound := fun request =>
  inferInstanceAs (Decidable (request.callback = .cleanup → request.linked = true))

/-- The conditions on each step. The list is cleaned up at shutdown when no callback of a
descriptor in it is running. -/
def Sound (state : State) : Action → Prop
  | .waiter id _ => ∀ request, state.requests id = some request →
      WaiterSound state.shutdown request
  | .callback id => ∀ request, state.requests id = some request → CallbackSound request
  | .cleanDescs => ∀ id request, state.requests id = some request → request.linked = true →
      ¬request.callback.Touches ∧ request.callback ≠ .cleanup
  | _ => True

/-! ## The invariant -/

def Unfreed (request : Request) : Prop := request.bufferFrees = 0 ∧ request.descFrees = 0

/-- Everything that `free_addrs` lists has been freed once. -/
def ListFreed (request : Request) : Prop :=
  request.bufferFrees = 1 ∧ request.descFrees = if request.desc = .allocated then 1 else 0

/-- The waiter has not given up, and owns everything. -/
structure Held (request : Request) : Prop where
  unfreed : Unfreed request
  unlinked : request.linked = false
  doFrees : request.doFrees = true
  present : request.desc ≠ .missing

/-- The callback frees nothing more. -/
def Harmless (shutdown : Shutdown) (callback : Callback) : Prop :=
  callback = .wake ∨ callback = .done ∨ shutdown ≠ .up

/-- The waiter gave up: the reply or the shutdown frees. -/
structure LeftBehind (shutdown : Shutdown) (request : Request) : Prop where
  doFrees : request.doFrees = false
  status : request.status = true
  listed : request.desc = .allocated ∨ request.desc = .embedded
  received : request.callback ≠ .idle ∧ request.callback ≠ .wake
  owned : request.linked = true ∧ Unfreed request ∧ shutdown ≠ .cleaned ∨
    request.linked = false ∧ ListFreed request ∧ ¬request.callback.Touches ∧
      (request.callback = .done ∨ shutdown ≠ .up)

/-- The waiter returned, its buffers left to the caller. -/
structure Returned (shutdown : Shutdown) (request : Request) : Prop where
  doFrees : request.doFrees = true
  unlinked : request.linked = false
  buffers : request.bufferFrees = 0
  descFrees : request.descFrees = if request.desc = .allocated then 1 else 0
  untouched : request.desc = .allocated → ¬request.callback.Touches
  replied : request.callback = .idle ∨
    request.status = true ∧ Harmless shutdown request.callback

/-- The waiter returned and freed everything. -/
structure Freed (shutdown : Shutdown) (request : Request) : Prop where
  doFrees : request.doFrees = true
  unlinked : request.linked = false
  buffers : request.bufferFrees = 1
  descFrees : request.descFrees =
    if request.desc = .allocated ∨ request.desc = .separate then 1 else 0
  untouched : request.desc ≠ .missing → ¬request.callback.Touches
  replied : request.callback = .idle ∨
    request.status = true ∧ Harmless shutdown request.callback

/-- Who frees what, for each place of the waiter. -/
def Owns (shutdown : Shutdown) (request : Request) : Waiter → Prop
  | .send => Held request ∧ request.callback = .idle ∧ request.status = false
  | .waiting | .cas => Held request ∧ request.callback ≠ .idle ∧
      request.callback ≠ .lookup ∧ request.callback ≠ .cleanup ∧
      (request.callback = .wake → request.status = true) ∧
      (request.status = true → request.callback = .wake ∨ request.callback = .done)
  | .lookup | .link => Held request ∧ request.desc ≠ .separate ∧ request.status = true ∧
      request.callback ≠ .idle ∧ request.callback ≠ .wake
  | .readErr => Held request ∧ request.status = true ∧
      (request.callback = .wake ∨ request.callback = .done)
  | .release => Held request ∧ request.status = true ∧ request.callback ≠ .idle ∧
      Harmless shutdown request.callback
  | .returned => Returned shutdown request ∨ LeftBehind shutdown request
  | .finished => Freed shutdown request ∨ LeftBehind shutdown request

structure RequestOk (shutdown : Shutdown) (request : Request) : Prop where
  owns : Owns shutdown request request.waiter
  noUseAfterFree : request.useAfterFree = false
  noBadUnlink : request.badUnlink = false

theorem Request.access_eq {req : Request} (there : req.gone = false) :
    req.access = req := by
  unfold Request.access
  rw [there, Bool.or_false]

theorem Unfreed.there (unfreed : Unfreed req) : req.gone = false := by
  unfold Request.gone
  split <;> simp [unfreed.1, unfreed.2]

theorem create_ok (shutdown : Shutdown) (desc : Desc) : RequestOk shutdown (create desc) := by
  refine ⟨?_, rfl, rfl⟩
  unfold create
  split
  next missing =>
    exact .inl ⟨rfl, rfl, rfl, by simp [missing], by simp [missing], .inl rfl⟩
  next present => exact ⟨⟨⟨rfl, rfl⟩, rfl, rfl, present⟩, rfl, rfl⟩

/-! ## Steps of the waiter -/

variable {action : Action} {place : Waiter}

section Steps

variable {shutdown : Shutdown} {req next : Request}

theorem Request.descFrees_freeDesc (req : Request) : req.freeDesc.descFrees =
    req.descFrees + if req.desc = .allocated then 1 else 0 := by
  unfold Request.freeDesc
  split <;> rfl

theorem Request.freeDesc_eq (req : Request) :
    req.freeDesc = { req with descFrees := req.freeDesc.descFrees } := by
  unfold Request.freeDesc
  split <;> rfl

theorem Request.callerFrees_of_not (left : req.doFrees = false) :
    req.callerFrees = req := by
  simp [Request.callerFrees, left]

theorem Held.waits (held : Held req) (waiter : Waiter) : Held (req.waits waiter) :=
  { held with }

theorem Held.returns (held : Held req)
    (untouched : req.desc = .allocated → ¬req.callback.Touches)
    (replied : req.callback = .idle ∨
      req.status = true ∧ Harmless shutdown req.callback) :
    Returned shutdown (req.freeDesc.waits .returned) := by
  have frees := req.descFrees_freeDesc
  rw [held.unfreed.2, Nat.zero_add] at frees
  rw [Request.freeDesc_eq, frees]
  exact ⟨held.doFrees, held.unlinked, held.unfreed.1, rfl, untouched, replied⟩

theorem Returned.callerFrees (returned : Returned shutdown req)
    (sound : req.desc = .embedded ∨ req.desc = .separate → ¬req.callback.Touches) :
    Freed shutdown (req.callerFrees.waits .finished) := by
  obtain ⟨doFrees, unlinked, buffers, descFrees, untouched, replied⟩ := returned
  simp only [Request.callerFrees, doFrees, ↓reduceIte]
  refine ⟨rfl, unlinked, ?_, ?_, ?_, replied⟩
  · exact congrArg (· + 1) buffers
  · simp only [Request.waits, descFrees]
    cases req.desc <;> simp
  · intro present
    cases place : req.desc with
    | allocated => exact untouched place
    | embedded => exact sound (.inl place)
    | separate => exact sound (.inr place)
    | missing => exact absurd place present

theorem waiterStep_ok (ok : RequestOk shutdown req) (sound : WaiterSound shutdown req)
    (stepped : waiterStep shutdown sent req = some next) :
    RequestOk shutdown next := by
  obtain ⟨owns, noUseAfterFree, noBadUnlink⟩ := ok
  cases place : req.waiter with
  | send =>
    rw [place] at owns
    obtain ⟨held, idle, status⟩ := owns
    simp only [waiterStep, place] at stepped
    split at stepped
    · cases stepped
      refine ⟨⟨{ held with }, ?_, ?_, ?_, ?_, ?_⟩, noUseAfterFree, noBadUnlink⟩ <;>
        simp [Request.calls, Request.waits, status]
    · cases stepped
      have returned : Returned shutdown (req.freeDesc.waits .returned) :=
        held.returns (fun _ => by simp [idle, Callback.Touches]) (.inl idle)
      rw [Request.freeDesc_eq] at returned ⊢
      exact ⟨.inl returned, noUseAfterFree, noBadUnlink⟩
  | waiting =>
    rw [place] at owns
    simp only [waiterStep, place, Request.access_eq owns.1.unfreed.there,
      some.injEq] at stepped
    subst stepped
    exact ⟨⟨owns.1.waits .cas, owns.2⟩, noUseAfterFree, noBadUnlink⟩
  | cas =>
    rw [place] at owns
    obtain ⟨held, notIdle, notLookup, notCleanup, woken, replied⟩ := owns
    simp only [waiterStep, place, Request.access_eq held.unfreed.there] at stepped
    simp only [WaiterSound, place] at sound
    split at stepped
    next status =>
      cases stepped
      exact ⟨⟨held.waits .readErr, status, replied status⟩, noUseAfterFree, noBadUnlink⟩
    next notSet =>
      cases stepped
      refine ⟨⟨{ held with }, sound (Bool.eq_false_iff.mpr notSet), rfl, notIdle, ?_⟩,
        noUseAfterFree, noBadUnlink⟩
      exact fun wake => notSet (woken wake)
  | lookup =>
    rw [place] at owns
    obtain ⟨held, notSeparate, status, notIdle, notWake⟩ := owns
    simp only [waiterStep, place, some.injEq] at stepped
    subst stepped
    split
    · exact ⟨⟨held.waits .link, notSeparate, status, notIdle, notWake⟩, noUseAfterFree,
        noBadUnlink⟩
    next down => exact ⟨⟨held.waits .release, status, notIdle, .inr (.inr down)⟩,
        noUseAfterFree, noBadUnlink⟩
  | link =>
    rw [place] at owns
    obtain ⟨held, notSeparate, status, notIdle, notWake⟩ := owns
    simp only [waiterStep, place, Request.access_eq held.unfreed.there,
      some.injEq] at stepped
    simp only [WaiterSound, place] at sound
    subst stepped
    refine ⟨.inr ⟨rfl, status, ?_, ⟨notIdle, notWake⟩, .inl ⟨rfl, held.unfreed, sound⟩⟩,
      noUseAfterFree, noBadUnlink⟩
    have present := held.present
    simp only [Request.waits]
    cases kind : req.desc <;> simp_all
  | readErr =>
    rw [place] at owns
    obtain ⟨held, status, replied⟩ := owns
    simp only [waiterStep, place, Request.access_eq held.unfreed.there,
      some.injEq] at stepped
    subst stepped
    refine ⟨⟨held.waits .release, status, ?_, ?_⟩, noUseAfterFree, noBadUnlink⟩
    · rcases replied with wake | done
      · simp [Request.waits, wake]
      · simp [Request.waits, done]
    · rcases replied with wake | done
      · exact .inl wake
      · exact .inr (.inl done)
  | release =>
    rw [place] at owns
    obtain ⟨held, status, notIdle, harmless⟩ := owns
    simp only [waiterStep, place, some.injEq] at stepped
    simp only [WaiterSound, place] at sound
    subst stepped
    have returned : Returned shutdown (req.freeDesc.waits .returned) :=
      held.returns sound (.inr ⟨status, harmless⟩)
    rw [Request.freeDesc_eq] at returned ⊢
    exact ⟨.inl returned, noUseAfterFree, noBadUnlink⟩
  | returned =>
    rw [place] at owns
    simp only [waiterStep, place, some.injEq] at stepped
    simp only [WaiterSound, place] at sound
    subst stepped
    rcases owns with returned | left
    · have freed := returned.callerFrees (sound returned.doFrees)
      simp only [Request.callerFrees, returned.doFrees, ↓reduceIte] at freed ⊢
      exact ⟨.inl freed, noUseAfterFree, noBadUnlink⟩
    · rw [Request.callerFrees_of_not left.doFrees]
      exact ⟨.inr { left with }, noUseAfterFree, noBadUnlink⟩
  | finished => simp [waiterStep, place] at stepped

/-! ## Steps of the callback -/

inductive Moves (shutdown : Shutdown) : Callback → Bool → Callback → Bool → Prop where
  | receive {status : Bool} (up : shutdown = .up) :
      Moves shutdown .pending status .store status
  | drop {status : Bool} (down : shutdown ≠ .up) :
      Moves shutdown .pending status .done status
  | store {status : Bool} : Moves shutdown .store status .cas status
  | lost : Moves shutdown .cas true .lookup true
  | won : Moves shutdown .cas false .wake true
  | wake {status : Bool} : Moves shutdown .wake status .done status
  | claim {status : Bool} (up : shutdown = .up) :
      Moves shutdown .lookup status .cleanup status
  | skip {status : Bool} (down : shutdown ≠ .up) :
      Moves shutdown .lookup status .done status

def Request.moved (request : Request) (callback : Callback) (status : Bool) : Request :=
  { request with callback := callback, status := status }

theorem callbackStep_moves (noCleanup : req.callback ≠ .cleanup)
    (there : req.callback.Touches → req.gone = false)
    (stepped : callbackStep shutdown req = some next) :
    ∃ callback status, Moves shutdown req.callback req.status callback status ∧
      next = req.moved callback status := by
  cases place : req.callback with
  | idle | done => simp [callbackStep, place] at stepped
  | cleanup => exact absurd place noCleanup
  | pending =>
    simp only [callbackStep, place, some.injEq] at stepped
    subst stepped
    split
    next up => exact ⟨_, _, .receive up, rfl⟩
    next down => exact ⟨_, _, .drop down, rfl⟩
  | store =>
    have alive := there (by simp [place, Callback.Touches])
    simp only [callbackStep, place, Request.access_eq alive, some.injEq] at stepped
    exact ⟨_, _, .store, stepped.symm⟩
  | cas =>
    have alive := there (by simp [place, Callback.Touches])
    simp only [callbackStep, place, Request.access_eq alive] at stepped
    split at stepped
    next status =>
      cases stepped
      refine ⟨.lookup, true, ?_, ?_⟩
      · rw [status]
        exact .lost
      · simp [Request.calls, Request.moved, status]
    next status =>
      cases stepped
      refine ⟨.wake, true, ?_, rfl⟩
      rw [Bool.eq_false_iff.mpr status]
      exact .won
  | wake =>
    have alive := there (by simp [place, Callback.Touches])
    simp only [callbackStep, place, Request.access_eq alive, some.injEq] at stepped
    exact ⟨_, _, .wake, stepped.symm⟩
  | lookup =>
    simp only [callbackStep, place, some.injEq] at stepped
    subst stepped
    split
    next up => exact ⟨_, _, .claim up, rfl⟩
    next down => exact ⟨_, _, .skip down, rfl⟩

theorem Held.moved (held : Held req) (callback : Callback) (status : Bool) :
    Held (req.moved callback status) :=
  { held with }

theorem Moves.not_idle (moves : Moves shutdown before status after statusAfter) :
    before ≠ .idle ∧ after ≠ .idle := by
  cases moves <;> simp

theorem Moves.harmless (moves : Moves shutdown before true after statusAfter)
    (harmless : Harmless shutdown before) :
    statusAfter = true ∧ Harmless shutdown after := by
  unfold Harmless at harmless ⊢
  cases moves <;> simp_all

theorem Moves.untouched (moves : Moves shutdown before status after statusAfter)
    (untouched : ¬before.Touches) (down : before = .done ∨ before = .wake ∨ shutdown ≠ .up) :
    ¬after.Touches := by
  cases moves <;> simp_all [Callback.Touches]

theorem Harmless.down (harmless : Harmless shutdown callback) :
    callback = .done ∨ callback = .wake ∨ shutdown ≠ .up := by
  rcases harmless with wake | done | down
  · exact .inr (.inl wake)
  · exact .inl done
  · exact .inr (.inr down)

theorem LeftBehind.moved (left : LeftBehind shutdown req)
    (moves : Moves shutdown req.callback req.status callback status) :
    LeftBehind shutdown (req.moved callback status) := by
  obtain ⟨doFrees, statusSet, listed, ⟨notIdle, notWake⟩, owned⟩ := left
  rw [statusSet] at moves
  have after : status = true ∧ callback ≠ .wake := by
    generalize req.callback = before at moves notWake
    cases moves <;> simp_all
  refine ⟨doFrees, after.1, listed, ⟨moves.not_idle.2, after.2⟩, ?_⟩
  rcases owned with linked | ⟨unlinked, freed, untouched, ended⟩
  · exact .inl linked
  · have down : shutdown ≠ .up := by
      rcases ended with done | down
      · rw [done] at moves
        cases moves
      · exact down
    exact .inr ⟨unlinked, freed, moves.untouched untouched (.inr (.inr down)), .inr down⟩

theorem Owns.moved (owns : Owns shutdown req req.waiter)
    (moves : Moves shutdown req.callback req.status callback status) :
    Owns shutdown (req.moved callback status) req.waiter := by
  have notIdle := moves.not_idle
  cases place : req.waiter with
  | send =>
    rw [place] at owns
    exact absurd owns.2.1 notIdle.1
  | waiting | cas =>
    rw [place] at owns
    obtain ⟨held, _, notLookup, notCleanup, woken, replied⟩ := owns
    refine ⟨held.moved _ _, notIdle.2, ?_⟩
    simp only [Request.moved]
    generalize req.callback = before at moves notLookup woken replied
    generalize req.status = statusBefore at moves woken replied
    cases moves <;> simp_all
  | lookup | link =>
    rw [place] at owns
    obtain ⟨held, notSeparate, statusSet, _, notWake⟩ := owns
    rw [statusSet] at moves
    refine ⟨held.moved _ _, notSeparate, ?_⟩
    simp only [Request.moved]
    generalize req.callback = before at moves notWake
    cases moves <;> simp_all
  | readErr =>
    rw [place] at owns
    obtain ⟨held, statusSet, replied⟩ := owns
    rw [statusSet] at moves
    refine ⟨held.moved _ _, ?_⟩
    simp only [Request.moved]
    generalize req.callback = before at moves replied
    cases moves <;> simp_all
  | release =>
    rw [place] at owns
    obtain ⟨held, statusSet, _, harmless⟩ := owns
    rw [statusSet] at moves
    exact ⟨held.moved _ _, (moves.harmless harmless).1, notIdle.2, (moves.harmless harmless).2⟩
  | returned | finished =>
    rw [place] at owns
    rcases owns with ⟨doFrees, unlinked, buffers, descFrees, untouched, replied⟩ | left
    · rcases replied with idle | ⟨statusSet, harmless⟩
      · exact absurd idle notIdle.1
      · rw [statusSet] at moves
        exact .inl ⟨doFrees, unlinked, buffers, descFrees,
          fun kind => moves.untouched (untouched kind) harmless.down,
          .inr (moves.harmless harmless)⟩
    · exact .inr (left.moved moves)

/-- Who frees what, wherever the waiter is. -/
inductive Stage (shutdown : Shutdown) (request : Request) (place : Waiter) : Prop where
  | held (held : Held request) (waits : place ≠ .returned ∧ place ≠ .finished)
  | returned (ended : place = .returned) (returned : Returned shutdown request)
  | freed (ended : place = .finished) (freed : Freed shutdown request)
  | left (ended : place = .returned ∨ place = .finished) (left : LeftBehind shutdown request)

theorem Owns.stage (owns : Owns shutdown req place) : Stage shutdown req place := by
  cases place with
  | send | waiting | cas | lookup | link | readErr | release => exact .held owns.1 ⟨nofun, nofun⟩
  | returned => exact owns.elim (.returned rfl) (.left (.inl rfl))
  | finished => exact owns.elim (.freed rfl) (.left (.inr rfl))

theorem Owns.leftBehind (owns : Owns shutdown req place) (linked : req.linked = true) :
    (place = .returned ∨ place = .finished) ∧ LeftBehind shutdown req := by
  cases owns.stage with
  | held held => exact nomatch held.unlinked.symm.trans linked
  | returned _ returned => exact nomatch returned.unlinked.symm.trans linked
  | freed _ freed => exact nomatch freed.unlinked.symm.trans linked
  | left ended left => exact ⟨ended, left⟩

theorem Owns.of_leftBehind (ended : place = .returned ∨ place = .finished)
    (left : LeftBehind shutdown req) : Owns shutdown req place := by
  rcases ended with rfl | rfl
  · exact .inr left
  · exact .inr left

theorem LeftBehind.cleanup (left : LeftBehind shutdown req) (linked : req.linked = true) :
    req.cleanup = { req with
      linked := false
      bufferFrees := 1
      descFrees := if req.desc = .allocated then 1 else 0 } := by
  rcases left.owned with ⟨_, unfreed, _⟩ | ⟨unlinked, _⟩
  · have frees := req.descFrees_freeDesc
    rw [unfreed.2, Nat.zero_add] at frees
    unfold Request.cleanup
    rw [Request.access_eq unfreed.there, Request.freeDesc_eq, frees, unfreed.1]
    simp [linked]
  · simp [linked] at unlinked

theorem Owns.there (owns : Owns shutdown req place)
    (touches : req.callback.Touches) : req.gone = false := by
  cases owns.stage with
  | held held => exact held.unfreed.there
  | returned _ returned =>
    unfold Request.gone
    have descFrees := returned.descFrees
    have untouched := returned.untouched
    cases kind : req.desc <;> simp_all [returned.buffers]
  | freed _ freed =>
    by_cases missing : req.desc = .missing
    · simp [Request.gone, missing, freed.descFrees]
    · exact absurd touches (freed.untouched missing)
  | left _ left =>
    rcases left.owned with ⟨_, unfreed, _⟩ | ⟨_, _, untouched, _⟩
    · exact unfreed.there
    · exact absurd touches untouched

theorem callbackStep_ok (ok : RequestOk shutdown req) (sound : CallbackSound req)
    (stepped : callbackStep shutdown req = some next) : RequestOk shutdown next := by
  by_cases cleaning : req.callback = .cleanup
  · have linked := sound cleaning
    obtain ⟨ended, left⟩ := ok.owns.leftBehind linked
    simp only [callbackStep, cleaning, left.cleanup linked, some.injEq] at stepped
    subst stepped
    refine { ok with owns := .of_leftBehind ended { left with received := ?_, owned := ?_ } }
    · exact ⟨by simp [Request.calls], by simp [Request.calls]⟩
    · exact .inr ⟨rfl, ⟨rfl, rfl⟩, by simp [Request.calls, Callback.Touches], .inl rfl⟩
  · obtain ⟨callback, status, moves, rfl⟩ :=
      callbackStep_moves cleaning ok.owns.there stepped
    exact { ok with owns := ok.owns.moved moves }

/-! ## Shutdown -/

theorem LeftBehind.later {after : Shutdown} (left : LeftBehind shutdown req)
    (down : after ≠ .up) (open_ : req.linked = true → after ≠ .cleaned) :
    LeftBehind after req := by
  refine { left with owned := ?_ }
  rcases left.owned with ⟨linked, unfreed, _⟩ | ⟨unlinked, freed, untouched, _⟩
  · exact .inl ⟨linked, unfreed, open_ linked⟩
  · exact .inr ⟨unlinked, freed, untouched, .inr down⟩

theorem Owns.later {after : Shutdown} (owns : Owns shutdown req place)
    (down : after ≠ .up) (open_ : req.linked = true → after ≠ .cleaned) :
    Owns after req place := by
  have harmless (callback : Callback) : Harmless after callback := .inr (.inr down)
  cases place with
  | send | waiting | cas | lookup | link | readErr => exact owns
  | release => exact ⟨owns.1, owns.2.1, owns.2.2.1, harmless _⟩
  | returned | finished =>
    rcases owns with ⟨doFrees, unlinked, buffers, descFrees, untouched, replied⟩ | left
    · exact .inl ⟨doFrees, unlinked, buffers, descFrees, untouched,
        replied.imp_right fun set => ⟨set.1, harmless _⟩⟩
    · exact .inr (left.later down open_)

theorem cleanDescs_ok (ok : RequestOk shutdown req)
    (quiet : req.linked = true → ¬req.callback.Touches) :
    RequestOk .cleaned (if req.linked then req.cleanup else req) := by
  split
  next linked =>
    obtain ⟨ended, left⟩ := ok.owns.leftBehind linked
    rw [left.cleanup linked]
    exact { ok with owns := .of_leftBehind ended { left with
      owned := .inr ⟨rfl, ⟨rfl, rfl⟩, quiet linked, .inr (by simp)⟩ } }
  next unlinked =>
    exact { ok with owns := ok.owns.later (by simp) fun linked => absurd linked unlinked }

end Steps

/-! ## Runs -/

/-- Every request has the owner its waiter implies. -/
def StateOk (state : State) : Prop :=
  ∀ id request, state.requests id = some request → RequestOk state.shutdown request

theorem StateOk.set (ok : StateOk s) (id : Nat)
    (requestOk : RequestOk s.shutdown req) : StateOk (s.set id req) := by
  intro o found stored
  by_cases same : o = id
  · subst same
    simp only [State.set, Function.update_self, some.injEq] at stored
    exact stored ▸ requestOk
  · simp only [State.set, Function.update_of_ne same] at stored
    exact ok o found stored

theorem StateOk.update (ok : StateOk s) {id : Nat} {step : Request → Option Request}
    (stepOk : ∀ req after, s.requests id = some req → step req = some after →
      RequestOk s.shutdown after) (updated : s.update id step = some next) : StateOk next := by
  obtain ⟨req, stored, stepped⟩ := bind_eq_some_iff.mp updated
  obtain ⟨after, afterEq, rfl⟩ := map_eq_some_iff.mp stepped
  exact ok.set id (stepOk req after stored afterEq)

theorem exec_ok (ok : StateOk s)
    (sound : Sound s action) (ran : exec s action = some next) : StateOk next := by
  cases action with simp only [exec, ite_none_right_eq_some, some.injEq] at ran
  | create id desc =>
    split at ran
    · cases ran
      exact ok.set id (create_ok _ desc)
    · cases ran
  | waiter id sent =>
    exact ok.update (fun req after stored stepped =>
      waiterStep_ok (ok id req stored) (sound req stored) stepped) ran
  | callback id =>
    exact ok.update (fun req after stored stepped =>
      callbackStep_ok (ok id req stored) (sound req stored) stepped) ran
  | nullUsrdata =>
    obtain ⟨_, rfl⟩ := ran
    intro id req stored
    have requestOk := ok id req stored
    exact { requestOk with owns := requestOk.owns.later (by simp) fun _ => by simp }
  | cleanDescs =>
    obtain ⟨_, rfl⟩ := ran
    intro id req stored
    obtain ⟨before, found, rfl⟩ := map_eq_some_iff.mp stored
    exact cleanDescs_ok (ok id before found) fun linked => (sound id before found linked).1

/-- The descriptor and the buffers are never freed twice and never accessed after they
were freed. When the caller has acted on `do_frees`, they have been freed exactly once,
or they are still in the list, and then the list has not been cleaned up. -/
structure FreedOnce (shutdown : Shutdown) (request : Request) : Prop where
  noUseAfterFree : request.useAfterFree = false
  noBadUnlink : request.badUnlink = false
  buffers : request.bufferFrees ≤ 1
  desc : request.descFrees ≤ 1
  /-- `do_frees` is set if and only if nobody else has freed the buffers, or will. -/
  doFrees : request.waiter = .returned →
    (request.doFrees = true ↔ request.linked = false ∧ request.bufferFrees = 0)
  finished : request.waiter = .finished →
    request.linked = true ∧ request.bufferFrees = 0 ∧ request.descFrees = 0 ∧
      shutdown ≠ .cleaned ∨
    request.linked = false ∧ request.bufferFrees = 1 ∧
      request.descFrees = if request.desc = .allocated ∨ request.desc = .separate then 1 else 0

theorem Owns.freedOnce (ok : RequestOk shutdown req) : FreedOnce shutdown req := by
  cases ok.owns.stage with
  | held held waits =>
    exact ⟨ok.noUseAfterFree, ok.noBadUnlink, by simp [held.unfreed.1], by simp [held.unfreed.2],
      fun returned => absurd returned waits.1, fun finished => absurd finished waits.2⟩
  | returned place returned =>
    refine ⟨ok.noUseAfterFree, ok.noBadUnlink, by simp [returned.buffers], ?_, fun _ => ?_,
      by simp [place]⟩
    · rw [returned.descFrees]
      split <;> simp
    · simp [returned.doFrees, returned.unlinked, returned.buffers]
  | freed place freed =>
    refine ⟨ok.noUseAfterFree, ok.noBadUnlink, by simp [freed.buffers], ?_, by simp [place],
      fun _ => .inr ⟨freed.unlinked, freed.buffers, freed.descFrees⟩⟩
    rw [freed.descFrees]
    split <;> simp
  | left _ left =>
    rcases left.owned with ⟨linked, unfreed, kept⟩ | ⟨unlinked, listFreed, _⟩
    · exact ⟨ok.noUseAfterFree, ok.noBadUnlink, by simp [unfreed.1], by simp [unfreed.2],
        fun _ => by simp [left.doFrees, linked],
        fun _ => .inl ⟨linked, unfreed.1, unfreed.2, kept⟩⟩
    · have descFrees : req.descFrees =
          if req.desc = .allocated ∨ req.desc = .separate then 1 else 0 := by
        rw [listFreed.2]
        rcases left.listed with kind | kind <;> simp [kind]
      refine ⟨ok.noUseAfterFree, ok.noBadUnlink, by simp [listFreed.1], ?_,
        fun _ => by simp [left.doFrees, listFreed.1],
        fun _ => .inr ⟨unlinked, listFreed.1, descFrees⟩⟩
      rw [descFrees]
      split <;> simp

/-- In every run that stays out of the windows, the descriptor and the buffers of every
request are freed exactly once. -/
theorem reply_wait_frees_once {state : State} (reached : (machine.restrict Sound).Reachable state)
    (id : Nat) (request : Request) (stored : state.requests id = some request) :
    FreedOnce state.shutdown request := by
  have ok : StateOk state := by
    refine reached.invariant StateOk ?_ ?_
    · intro start initial other found present
      rw [initial.1 other] at present
      cases present
    · rintro before action after _ ok ⟨sound, executed⟩
      exact exec_ok ok sound executed
  exact Owns.freedOnce (ok id request stored)

/-- Nothing has been sent yet. -/
def fresh : State := ⟨fun _ => none, .up⟩

theorem fresh_init : machine.init fresh := ⟨fun _ => rfl, rfl⟩

def soundGuard (state : State) : Action → Bool
  | .waiter id _ => (state.requests id).all fun request =>
    decide (WaiterSound state.shutdown request)
  | .callback id => (state.requests id).all fun request =>
    decide (CallbackSound request)
  | .cleanDescs => false
  | _ => true

theorem sound_of_soundGuard (passed : soundGuard s action = true) : Sound s action := by
  cases action with
  | create | nullUsrdata => trivial
  | waiter id sent =>
    intro req stored
    simpa [soundGuard, stored] using passed
  | callback id =>
    intro req stored
    simpa [soundGuard, stored] using passed
  | cleanDescs => cases passed

/-- A waiter gives up after its message was sent, and its reply comes late. -/
theorem reply_wait_frees_once_late_reply :
    ∃ state request, (machine.restrict Sound).Reachable state ∧
      state.requests 0 = some request ∧ request.waiter = .finished ∧
      request.desc = .allocated ∧ FreedOnce state.shutdown request ∧
      request.bufferFrees = 1 ∧ request.descFrees = 1 := by
  obtain ⟨state, reached, stored⟩ : ∃ state, (machine.restrict Sound).Reachable state ∧
      state.requests 0 =
        some ⟨.allocated, .finished, .done, true, false, false, 1, 1, false, false⟩ :=
    Machine.exists_restrict_run (fun _ _ => sound_of_soundGuard) fresh_init (fun _ _ _ => id)
      [.create 0 .allocated, .waiter 0 true, .waiter 0 true, .waiter 0 true, .callback 0,
        .waiter 0 true, .callback 0, .waiter 0 true, .callback 0, .waiter 0 true, .callback 0,
        .callback 0] (by decide +kernel)
  exact ⟨state, _, reached, stored, rfl, rfl, reply_wait_frees_once reached 0 _ stored, rfl, rfl⟩

/-- Some run leads to the request. -/
def Occurs (request : Request) (shutdown : Shutdown) : Prop :=
  ∃ state, machine.Reachable state ∧ state.requests 0 = some request ∧ state.shutdown = shutdown

/-- The windows. A reply that comes between the waiter's compare-and-swap and its insertion
into the list unlinks what is not linked and frees what the waiter then inserts. A waiter
that sees the status before it is woken up frees the queue it is woken up through. A
descriptor that is not listed is never freed once it is left behind. And a callback that
has found the user data frees again what the shutdown has freed. -/
theorem reply_wait_windows :
    (∃ request shutdown, Occurs request shutdown ∧ request.badUnlink = true ∧
      request.useAfterFree = true) ∧
    (∃ request shutdown, Occurs request shutdown ∧ request.useAfterFree = true ∧
      request.badUnlink = false) ∧
    (∃ request, Occurs request .cleaned ∧ request.desc = .separate ∧
      request.waiter = .finished ∧ request.callback = .done ∧ request.descFrees = 0) ∧
    ∃ request, Occurs request .cleaned ∧ request.bufferFrees = 2 ∧ request.descFrees = 2 := by
  refine ⟨⟨⟨.allocated, .returned, .done, true, true, false, 1, 1, true, true⟩, .up, ?_, rfl, rfl⟩,
    ⟨⟨.allocated, .returned, .done, true, false, true, 0, 1, true, false⟩, .up, ?_, rfl, rfl⟩,
    ⟨⟨.separate, .finished, .done, true, false, false, 1, 0, false, false⟩, ?_, rfl, rfl, rfl,
      rfl⟩,
    ⟨⟨.allocated, .returned, .done, true, false, false, 2, 2, true, true⟩, ?_, rfl, rfl⟩⟩
  · exact Machine.exists_run fresh_init (fun _ _ _ => id)
      [.create 0 .allocated, .waiter 0 true, .waiter 0 true, .waiter 0 true, .waiter 0 true,
        .callback 0, .callback 0, .callback 0, .callback 0, .callback 0, .waiter 0 true]
      (by decide +kernel)
  · exact Machine.exists_run fresh_init (fun _ _ _ => id)
      [.create 0 .allocated, .waiter 0 true, .callback 0, .callback 0, .callback 0, .waiter 0 true,
        .waiter 0 true, .waiter 0 true, .waiter 0 true, .callback 0] (by decide +kernel)
  · exact Machine.exists_run fresh_init (fun _ _ _ => id)
      [.create 0 .separate, .waiter 0 true, .waiter 0 true, .waiter 0 true, .waiter 0 true,
        .waiter 0 true, .waiter 0 true, .nullUsrdata, .cleanDescs, .callback 0] (by decide +kernel)
  · exact Machine.exists_run fresh_init (fun _ _ _ => id)
      [.create 0 .allocated, .waiter 0 true, .waiter 0 true, .waiter 0 true, .waiter 0 true,
        .waiter 0 true, .callback 0, .callback 0, .callback 0, .callback 0, .nullUsrdata,
        .cleanDescs, .callback 0] (by decide +kernel)

end McKernel.Ikc
