import McKernel.Futex.Model

/-!
# Wake-ups of futexes

No wake-up is lost and none is delivered twice: whatever threads do, a thread that is woken returns
from its call, and a thread that still waits has looked at its word after the last call that left no
waiter of its key.
-/

namespace McKernel.Futex

open State List Option

/-- Behind `queue_me`, and not yet out of `unqueue_me`. -/
def Pc.waits : Pc → Bool
  | .queued | .unqueueing _ | .holding _ => true
  | _ => false

/-- The lock that a thread holds. -/
def Thread.holds (env : Env) (thread : Thread) : Option Nat :=
  match thread.pc with
  | .locked | .checked => some (env.hashFutex thread.q.key)
  | .holding b => some b
  | _ => none

/-- The word of a waiter that was not requeued had the value that it waits for, after the stores
that it has seen. -/
def Thread.Read (env : Env) (thread : Thread) : Prop :=
  thread.q.moved = false → getFutexKey env thread.call.word = .ok thread.q.key ∧
    ∃ addr, env.phys thread.call.word = some addr ∧ load thread.q.since addr = thread.call.val

/-- What holds of a thread, given the chains and the locks. -/
structure Ok (env : Env) (s : State) (t : Nat) (thread : Thread) : Prop where
  mem : ∀ b, t ∈ s.chain b ↔ thread.pc.waits = true ∧ thread.q.lockPtr = some b
  hashed : ∀ b, thread.q.lockPtr = some b → env.hashFutex thread.q.key = b ∧ thread.q.bitset ≠ 0
  held : ∀ b, thread.holds env = some b → s.lock b = some t
  -- A wake-up is under way while its thread waits without a lock to take.
  once : thread.wakes = thread.zeros +
    if thread.pc.waits = true ∧ thread.q.lockPtr = none then 1 else 0
  setup : thread.pc = .locking ∨ thread.pc = .locked ∨ thread.pc = .checked →
    getFutexKey env thread.call.word = .ok thread.q.key ∧ thread.q.moved = false ∧
      thread.q.lockPtr ≠ none
  seen : thread.pc = .checked ∨ thread.pc.waits = true ∧ thread.q.lockPtr ≠ none →
    s.woken thread.q.key <:+ thread.q.since ∧ thread.q.since <:+ s.stores ∧ thread.Read env

/-- What every step keeps. -/
structure Invariant (env : Env) (s : State) : Prop where
  nodup : ∀ b, (s.chain b).Nodup
  history : ∀ key, s.woken key <:+ s.stores
  thread : ∀ t, Ok env s t (s.thread t)

/-! ## Threads -/

variable {env : Env} {s s' : State} {t u b : Nat} {thread : Thread} {key : Key} {list : List Nat}
  {nrWake : Int}

theorem Pc.not_waits {pc : Pc} (start : pc = .locking ∨ pc = .locked ∨ pc = .checked) :
    ¬ pc.waits = true := by
  rcases start with rfl | rfl | rfl <;> exact Bool.false_ne_true

namespace Ok

theorem congr (ok : Ok env s t thread) (chain : ∀ b, t ∈ s'.chain b ↔ t ∈ s.chain b)
    (lock : ∀ b, s.lock b = some t → s'.lock b = some t) (stores : s'.stores = s.stores)
    (woken : s'.woken = s.woken) : Ok env s' t thread where
  mem b := (chain b).trans (ok.mem b)
  hashed := ok.hashed
  held b holds := lock b (ok.held b holds)
  once := ok.once
  setup := ok.setup
  seen now := by
    rw [stores, woken]
    exact ok.seen now

theorem wakes_eq (ok : Ok env s t thread) (asleep : thread.q.lockPtr ≠ none) :
    thread.wakes = thread.zeros := by
  simpa [asleep] using ok.once

/-- A thread on no chain that nobody has woken. -/
def Idle (env : Env) (s : State) (t : Nat) (thread : Thread) : Prop :=
  (∀ b, t ∉ s.chain b) ∧
    (∀ b, thread.q.lockPtr = some b → env.hashFutex thread.q.key = b ∧ thread.q.bitset ≠ 0) ∧
    thread.wakes = thread.zeros

theorem idle (ok : Ok env s t thread) (away : thread.pc.waits = false) : Idle env s t thread :=
  ⟨fun b => by simp [ok.mem, away], ok.hashed, by simpa [away] using ok.once⟩

theorem of_idle (idle : Idle env s t thread) (away : thread.pc.waits = false)
    (held : ∀ b, thread.holds env = some b → s.lock b = some t)
    (setup : thread.pc = .locking ∨ thread.pc = .locked ∨ thread.pc = .checked →
      getFutexKey env thread.call.word = .ok thread.q.key ∧ thread.q.moved = false ∧
        thread.q.lockPtr ≠ none)
    (seen : thread.pc = .checked → s.woken thread.q.key <:+ thread.q.since ∧
      thread.q.since <:+ s.stores ∧ thread.Read env) : Ok env s t thread where
  mem b := by simp [idle.1 b, away]
  hashed := idle.2.1
  held := held
  once := by simpa [away] using idle.2.2
  setup := setup
  seen now := seen (now.resolve_right (by simp [away]))

/-- A call of `futex_wait` returns. -/
theorem returns {ret : Except Errno Unit} (idle : Idle env s t thread) :
    Ok env s t { thread with pc := .user, ret } :=
  of_idle idle rfl nofun (by simp) nofun

theorem futexWait {call : WaitCall} (idle : Idle env s t thread) :
    Ok env s t (futexWait env thread call) := by
  unfold Futex.futexWait
  split
  · exact returns idle
  next bits =>
    split
    · exact returns idle
    next key isKey =>
      refine of_idle ⟨idle.1, ?_, idle.2.2⟩ rfl nofun
        (fun _ => ⟨isKey, rfl, some_ne_none _⟩) nofun
      rintro b ⟨⟩
      exact ⟨rfl, bits⟩

/-- A thread stays on its chain while it runs. -/
theorem stay {pc : Pc} (ok : Ok env s t thread) (before : thread.pc.waits = true)
    (after : pc.waits = true) (held : ∀ b, pc = .holding b → s'.lock b = some t)
    (same : s'.chain = s.chain ∧ s'.stores = s.stores ∧ s'.woken = s.woken) :
    Ok env s' t { thread with pc } where
  mem b := by
    rw [same.1, ok.mem b, before, after]
  hashed := ok.hashed
  held b holds := by
    cases pc <;> cases holds <;> first | exact held b rfl | cases after
  once := by
    simpa [before, after] using ok.once
  setup start := absurd after (Pc.not_waits start)
  seen now := by
    rw [same.2.1, same.2.2]
    refine ok.seen (.inr ⟨before, ?_⟩)
    rcases now with rfl | ⟨-, some⟩
    · cases after
    · exact some

/-- A waiter is put on the chain of another key. -/
theorem requeue {q : Entry} (ok : Ok env s t thread) (waits : thread.pc.waits = true)
    (asleep : thread.q.lockPtr ≠ none) (mem : ∀ b, t ∈ s'.chain b ↔ env.hashFutex q.key = b)
    (lockPtr : q.lockPtr = some (env.hashFutex q.key)) (bits : q.bitset ≠ 0)
    (lock : s'.lock = s.lock) (moved : q.moved = true)
    (seen : s'.woken q.key <:+ q.since ∧ q.since <:+ s'.stores) :
    Ok env s' t { thread with q } where
  mem b := by simp [mem b, waits, lockPtr]
  hashed b isB := ⟨some.inj (lockPtr.symm.trans isB), bits⟩
  held b holds := by
    rw [lock]
    refine ok.held b ?_
    unfold Thread.holds at holds ⊢
    revert waits holds
    cases thread.pc <;> simp [Pc.waits]
  once := by simpa [lockPtr] using ok.wakes_eq asleep
  setup start := absurd waits (Pc.not_waits start)
  seen _ := ⟨seen.1, seen.2, fun still => by simp [moved] at still⟩

end Ok

theorem nodup_append_singleton (nodup : list.Nodup) (out : t ∉ list) : (list ++ [t]).Nodup :=
  nodup_append_comm.mp (nodup_cons.mpr ⟨out, nodup⟩)

namespace Invariant

/-- The others stay on a chain that a thread enters or leaves. -/
theorem setChain {chain : List Nat} (nodup : ∀ c, (s.chain c).Nodup) (new : chain.Nodup)
    (others : ∀ u, u ≠ t → (u ∈ chain ↔ u ∈ s.chain b)) :
    (∀ c, ((s.setChain b chain).chain c).Nodup) ∧
      ∀ u, u ≠ t → ∀ c, u ∈ (s.setChain b chain).chain c ↔ u ∈ s.chain c := by
  refine ⟨fun c => ?_, fun u other c => ?_⟩ <;> simp only [State.setChain] <;> split
  · exact new
  · exact nodup c
  next same =>
    rw [same]
    exact others u other
  · exact .rfl

/-- The others keep their locks when a thread takes a free lock or gives up its own. -/
theorem setLock {holder : Option Nat} (mine : s.lock b = none ∨ s.lock b = some t) (u : Nat)
    (other : u ≠ t) (c : Nat) (taken : s.lock c = some u) :
    (s.setLock b holder).lock c = some u := by
  refine (if_neg ?_).trans taken
  rintro rfl
  rcases mine with free | mine
  · rw [free] at taken
    cases taken
  · exact other (some.inj (taken.symm.trans mine))

section

variable (inv : Invariant env s)
include inv

/-- A step of one thread: the others stay on their chains and keep their locks. -/
theorem update
    (chains : (∀ b, (s'.chain b).Nodup) ∧ ∀ u, u ≠ t → ∀ b, u ∈ s'.chain b ↔ u ∈ s.chain b)
    (locks : ∀ u, u ≠ t → ∀ b, s.lock b = some u → s'.lock b = some u)
    (same : s'.stores = s.stores ∧ s'.woken = s.woken ∧ s'.thread = s.thread)
    (ok : Ok env s' t thread) : Invariant env (s'.setThread t thread) where
  nodup := chains.1
  history key := by
    change s'.woken key <:+ s'.stores
    rw [same.1, same.2.1]
    exact inv.history key
  thread u := by
    simp only [setThread]
    split
    next isT =>
      subst isT
      exact ok.congr (fun _ => .rfl) (fun _ => id) rfl rfl
    next other =>
      rw [same.2.2]
      exact (inv.thread u).congr (chains.2 u other) (locks u other) same.1 same.2.1

theorem setThread (ok : Ok env s t thread) :
    Invariant env (s.setThread t thread) :=
  inv.update ⟨inv.nodup, fun _ _ _ => .rfl⟩ (fun _ _ _ => id) ⟨rfl, rfl, rfl⟩ ok

theorem not_mem_erase (isB : (s.thread t).q.lockPtr = some b) (c : Nat) :
    t ∉ (s.setChain b ((s.chain b).erase t)).chain c := by
  simp only [State.setChain]
  split
  · exact (inv.nodup b).not_mem_erase
  next other =>
    rw [(inv.thread t).mem, isB]
    exact fun here => other (some.inj here.2).symm

/-! ## Waiting -/

theorem wait {call : WaitCall} (user : (s.thread t).pc = .user) :
    Invariant env (s.setThread t (futexWait env (s.thread t) call)) :=
  inv.setThread (.futexWait ((inv.thread t).idle (by rw [user]; rfl)))

theorem lock (ran : exec env s (.lock t) = some s') :
    Invariant env s' := by
  have ok := inv.thread t
  have chains := And.intro inv.nodup fun u (_ : u ≠ t) b => Iff.refl (u ∈ s.chain b)
  simp only [exec, spinlockLock] at ran
  split at ran
  next locking =>
    obtain ⟨free, ⟨⟩⟩ := ite_none_right_eq_some.mp ran
    refine inv.update chains (setLock (.inl free)) ⟨rfl, rfl, rfl⟩ ?_
    refine .of_idle (ok.idle (by rw [locking]; rfl)) rfl ?_ (fun _ => ok.setup (.inl locking)) nofun
    rintro b ⟨⟩
    exact if_pos rfl
  next b unqueueing =>
    obtain ⟨free, ⟨⟩⟩ := ite_none_right_eq_some.mp ran
    refine inv.update chains (setLock (.inl free)) ⟨rfl, rfl, rfl⟩ ?_
    refine ok.stay (by rw [unqueueing]; rfl) rfl ?_ ⟨rfl, rfl, rfl⟩
    rintro b ⟨⟩
    exact if_pos rfl
  · cases ran

theorem compare {addr : Nat} (locked : (s.thread t).pc = .locked)
    (phys : env.phys (s.thread t).call.word = some addr) :
    Invariant env (compare env s t addr) := by
  have ok := inv.thread t
  have idle := ok.idle (by rw [locked]; rfl)
  have mine := ok.held (env.hashFutex (s.thread t).q.key) (by rw [Thread.holds, locked])
  have setup := ok.setup (.inr (.inl locked))
  simp only [Futex.compare]
  split
  next equal =>
    refine inv.setThread (.of_idle idle rfl ?_ (fun _ => setup) fun _ => ?_)
    · rintro b ⟨⟩
      exact mine
    · exact ⟨inv.history _, suffix_rfl, fun _ => ⟨setup.1, addr, phys, equal⟩⟩
  · exact inv.update ⟨inv.nodup, fun _ _ _ => .rfl⟩ (setLock (.inr mine)) ⟨rfl, rfl, rfl⟩
      (.returns idle)

theorem queueMe (checked : (s.thread t).pc = .checked) :
    Invariant env (queueMe env s t) := by
  have ok := inv.thread t
  have idle := ok.idle (by rw [checked]; rfl)
  have mine := ok.held (env.hashFutex (s.thread t).q.key) (by rw [Thread.holds, checked])
  obtain ⟨b, isB⟩ := ne_none_iff_exists'.mp (ok.setup (.inr (.inr checked))).2.2
  obtain ⟨rfl, bits⟩ := ok.hashed b isB
  refine inv.update (setChain inv.nodup (nodup_append_singleton (inv.nodup _) (idle.1 _))
    fun u other => by simp [other]) (setLock (.inr mine)) ⟨rfl, rfl, rfl⟩ ?_
  exact {
    mem := fun c => by
      simp only [State.setLock, State.setChain, Pc.waits, isB, some.injEq]
      split
      next same => simp [same]
      next other => simp [idle.1 c, Ne.symm other]
    hashed := ok.hashed
    held := nofun
    once := by simpa [isB] using idle.2.2
    setup := by simp
    seen := fun _ => ok.seen (.inl checked) }

theorem resume (queued : (s.thread t).pc = .queued) :
    Invariant env (s.setThread t (resume (s.thread t))) := by
  have ok := inv.thread t
  have waits : (s.thread t).pc.waits = true := by rw [queued]; rfl
  refine inv.setThread ?_
  unfold Futex.resume
  split
  next none =>
    refine .of_idle ⟨fun b => ?_, ok.hashed, ?_⟩ rfl nofun (by simp) nofun
    · simp [ok.mem, none]
    · simpa [waits, none] using ok.once
  · exact ok.stay waits rfl nofun ⟨rfl, rfl, rfl⟩

/-- `lock_ptr` may have changed before the lock was taken. -/
theorem unqueueMe {errno : Option Errno}
    (holding : (s.thread t).pc = .holding b) : Invariant env (unqueueMe env s t b errno) := by
  have ok := inv.thread t
  have mine := ok.held b (by rw [Thread.holds, holding])
  simp only [Futex.unqueueMe]
  split
  · exact inv.update ⟨inv.nodup, fun _ _ _ => .rfl⟩ (setLock (.inr mine)) ⟨rfl, rfl, rfl⟩
      (ok.stay (by rw [holding]; rfl) rfl nofun ⟨rfl, rfl, rfl⟩)
  next isB =>
    rw [not_not] at isB
    refine inv.update (setChain inv.nodup ((inv.nodup b).erase t) fun u other =>
      mem_erase_of_ne other) (setLock (.inr mine)) ⟨rfl, rfl, rfl⟩ ?_
    have idle : Ok.Idle env _ t (s.thread t) :=
      ⟨inv.not_mem_erase isB, ok.hashed, ok.wakes_eq (by simp [isB])⟩
    split
    · exact .returns idle
    · exact .futexWait idle

/-! ## Waking -/

theorem wakeFutex (here : t ∈ s.chain b) :
    Invariant env (wakeFutex s b t) := by
  have ok := inv.thread t
  obtain ⟨waits, isB⟩ := (ok.mem b).mp here
  refine inv.update (setChain inv.nodup ((inv.nodup b).erase t) fun u other =>
    mem_erase_of_ne other) (fun _ _ _ => id) ⟨rfl, rfl, rfl⟩ ?_
  exact {
    mem := fun c => by simp [inv.not_mem_erase isB c]
    hashed := nofun
    held := ok.held
    once := by simp [waits, ok.wakes_eq (by simp [isB])]
    setup := fun start => absurd waits (Pc.not_waits start)
    seen := fun now => by
      rcases now with checked | ⟨-, asleep⟩
      · exact absurd waits (Pc.not_waits (.inr (.inr checked)))
      · exact absurd rfl asleep }

theorem requeueFutex (here : t ∈ s.chain b) :
    Invariant env (requeueFutex env s b t key) := by
  have ok := inv.thread t
  obtain ⟨waits, isB⟩ := (ok.mem b).mp here
  have asleep : (s.thread t).q.lockPtr ≠ none := by simp [isB]
  have bits := (ok.hashed b isB).2
  have seen := And.intro (inv.history key) (suffix_rfl (l := s.stores))
  simp only [Futex.requeueFutex]
  split
  next same =>
    subst same
    refine inv.setThread (ok.requeue waits asleep (fun c => ?_) isB bits rfl rfl seen)
    rw [ok.mem, isB]
    simp [waits]
  next other =>
    have out := inv.not_mem_erase isB
    have left := setChain inv.nodup ((inv.nodup b).erase t) fun u isOther =>
      mem_erase_of_ne isOther
    have kept : (s.setChain b ((s.chain b).erase t)).chain (env.hashFutex key) =
      s.chain (env.hashFutex key) := if_neg (Ne.symm other)
    have entered := setChain (b := env.hashFutex key) left.1 (nodup_append_singleton
      (left.1 (env.hashFutex key)) (out _)) fun u (isOther : u ≠ t) => by simp [isOther]
    rw [kept] at entered
    refine inv.update ⟨entered.1, fun u isOther c =>
      (entered.2 u isOther c).trans (left.2 u isOther c)⟩ (fun _ _ _ => id) ⟨rfl, rfl, rfl⟩
      (ok.requeue waits asleep (fun c => ?_) rfl bits rfl rfl seen)
    simp only [State.setChain]
    split
    next same => simp [same]
    next different => exact iff_of_false (out c) (Ne.symm different)

end

end Invariant

theorem mem_chain_wakeFutex (inv : Invariant env s) :
    u ∈ (wakeFutex s b t).chain b ↔ u ≠ t ∧ u ∈ s.chain b := by
  simp [wakeFutex, setThread, setChain, (inv.nodup b).mem_erase_iff]

theorem mem_chain_requeueFutex (ne : u ≠ t) (here : u ∈ s.chain b) :
    u ∈ (requeueFutex env s b t key).chain b := by
  simp only [requeueFutex]
  split
  · exact here
  next other =>
    simp only [setThread, setChain, if_neg other, if_pos trivial]
    exact (mem_erase_of_ne ne).mpr here

theorem lock_requeueFutex : (requeueFutex env s b t key).lock = s.lock := by
  simp only [requeueFutex]
  split <;> rfl

theorem thread_wakeFutex (ne : u ≠ t) : (wakeFutex s b t).thread u = s.thread u := if_neg ne

/-- What the loop of a waker leaves: no waiter of its list that passes the test, if it has not
reached its limit. -/
structure Woke (env : Env) (test : Entry → Bool) (nrWake ret : Int) (b : Nat) (list : List Nat)
    (s s' : State) : Prop where
  invariant : Invariant env s'
  lock : s'.lock = s.lock
  chain : ∀ t ∈ s'.chain b, t ∈ s.chain b
  rest : ∀ t ∉ list, s'.thread t = s.thread t
  all : ret < nrWake → ∀ t ∈ list, t ∈ s'.chain b → test (s'.thread t).q = false

theorem wakeLoop_woke {test : Entry → Bool} {ret : Int} (inv : Invariant env s) (nodup : list.Nodup)
    (sub : ∀ t ∈ list, t ∈ s.chain b) :
    Woke env test nrWake (wakeLoop test nrWake b ret list s).2 b list s
      (wakeLoop test nrWake b ret list s).1 := by
  fun_induction wakeLoop test nrWake b ret list s with
  | case1 => exact ⟨inv, rfl, fun _ => id, fun _ _ => rfl, by simp⟩
  | case2 ret t rest s =>
    have chain (u : Nat) := @mem_chain_wakeFutex _ _ t u b inv
    refine ⟨inv.wakeFutex (sub t (by simp)), rfl, ?_, ?_, ?_⟩ <;> grind [thread_wakeFutex]
  | case3 ret t rest s _ _ ih =>
    have chain (u : Nat) := @mem_chain_wakeFutex _ _ t u b inv
    obtain ⟨invariant, lock, chain', rest', all⟩ :=
      ih (inv.wakeFutex (sub t (by simp))) (by grind) (by grind)
    refine ⟨invariant, lock, ?_, ?_, ?_⟩ <;> grind [thread_wakeFutex]
  | case4 ret t rest s _ ih =>
    obtain ⟨invariant, lock, chain', rest', all⟩ := ih inv (by grind) (by grind)
    refine ⟨invariant, lock, chain', ?_, ?_⟩ <;> grind

namespace Invariant

theorem lock_noteWoken : (Futex.noteWoken env s key).lock = s.lock := by
  unfold Futex.noteWoken
  split <;> rfl

variable (inv : Invariant env s)
include inv

/-- Nobody waits for the key, and nobody who has compared the word is about to. -/
theorem setWoken (free : s.lock (env.hashFutex key) = none)
    (gone : ∀ t ∈ s.chain (env.hashFutex key), (s.thread t).q.key ≠ key) :
    Invariant env (s.setWoken key) where
  nodup := inv.nodup
  history other := by
    simp only [State.setWoken]
    split
    · exact suffix_rfl
    · exact inv.history other
  thread t := by
    have ok := inv.thread t
    refine { ok with seen := fun now => ?_ }
    have ne : (s.thread t).q.key ≠ key := by
      intro same
      rcases now with checked | ⟨waits, asleep⟩
      · have mine := ok.held (env.hashFutex key)
          (by rw [Thread.holds, show (s.thread t).pc = .checked from checked, same])
        rw [free] at mine
        cases mine
      · obtain ⟨b, isB⟩ := ne_none_iff_exists'.mp asleep
        have here := (ok.mem b).mpr ⟨waits, isB⟩
        rw [← (ok.hashed b isB).1, same] at here
        exact gone t here same
    simpa [State.setWoken, ne] using ok.seen now

theorem noteWoken (free : s.lock (env.hashFutex key) = none) :
    Invariant env (noteWoken env s key) := by
  unfold Futex.noteWoken
  split
  next gone => exact inv.setWoken free gone
  · exact inv

theorem wakeKey {bitset : Option (BitVec 32)}
    (free : s.lock (env.hashFutex key) = none) :
    Invariant env (wakeKey env s key bitset nrWake).1 ∧
      (wakeKey env s key bitset nrWake).1.lock = s.lock := by
  obtain ⟨inv', lock, chain, -, all⟩ := @wakeLoop_woke env s _ _ nrWake
    (fun q => q.key == key && bitset.all fun bits => q.bitset &&& bits != 0) 0 inv
    (inv.nodup (env.hashFutex key)) fun _ => id
  simp only [Futex.wakeKey]
  split
  next complete =>
    refine ⟨inv'.setWoken (by rw [lock]; exact free) fun t here same => ?_, lock⟩
    have passed := all complete.1 t (chain t here) here
    have bits := ((inv'.thread t).hashed _ (((inv'.thread t).mem _).mp here).2).2
    have any (x : BitVec 32) : x &&& 0xffffffff = x := BitVec.and_allOnes
    cases bitset <;> simp_all
  · exact ⟨inv'.noteWoken (by rw [lock]; exact free), lock_noteWoken.trans lock⟩

theorem requeueLoop {key1 key2 : Key} {nrRequeue count : Int}
    (nodup : list.Nodup) (sub : ∀ t ∈ list, t ∈ s.chain (env.hashFutex key1)) :
    Invariant env (Futex.requeueLoop env key1 key2 nrWake nrRequeue count list s).1 ∧
      (Futex.requeueLoop env key1 key2 nrWake nrRequeue count list s).1.lock = s.lock := by
  fun_induction Futex.requeueLoop env key1 key2 nrWake nrRequeue count list s with
  | case1 | case2 => exact ⟨inv, rfl⟩
  | case3 count t rest s _ _ ih =>
    exact ih inv (nodup_cons.mp nodup).2 fun u isRest => sub u (by simp [isRest])
  | case4 count t rest s _ _ b ih =>
    rw [nodup_cons] at nodup
    have here := sub t (by simp)
    refine (ih ?_ nodup.2 fun u isRest => ?_).imp_right fun lock => lock.trans ?_
    · split
      · exact inv.wakeFutex here
      · exact inv.requeueFutex here
    · have ne : u ≠ t := ne_of_mem_of_not_mem isRest nodup.1
      have here := sub u (by simp [isRest])
      split
      · exact (mem_chain_wakeFutex inv).mpr ⟨ne, here⟩
      · exact mem_chain_requeueFutex ne here
    · split
      · rfl
      · exact lock_requeueFutex

theorem requeued {key1 key2 : Key} {nrRequeue : Int}
    (free : doubleLock env s key1 key2 = true) :
    Invariant env (Futex.noteWoken env (Futex.requeueLoop env key1 key2 nrWake nrRequeue 0
      (s.chain (env.hashFutex key1)) s).1 key1) := by
  obtain ⟨inv', lock⟩ := inv.requeueLoop (inv.nodup (env.hashFutex key1)) fun _ => id
  refine inv'.noteWoken ?_
  rw [lock]
  exact (of_decide_eq_true free).1

/-! ## Runs -/

theorem store {addr : Nat} {value : BitVec 32} :
    Invariant env { s with stores := (addr, value) :: s.stores } := by
  have later {old : Stores} (suffix : old <:+ s.stores) : old <:+ (addr, value) :: s.stores :=
    suffix.trans (suffix_cons _ _)
  refine ⟨inv.nodup, fun key => later (inv.history key), fun t => ?_⟩
  refine { inv.thread t with seen := fun now => ?_ }
  exact ((inv.thread t).seen now).imp_right (.imp_left later)

theorem exec {op : Op} (ran : exec env s op = some s') :
    Invariant env s' := by
  cases op with simp only [Futex.exec, ite_none_right_eq_some, some.injEq,
      map_eq_some_iff] at ran
  | store addr value => exact ran ▸ inv.store
  | wait t call => exact ran.2 ▸ inv.wait ran.1
  | lock t => exact inv.lock ran
  | compare t =>
    obtain ⟨locked, addr, phys, rfl⟩ := ran
    exact inv.compare locked phys
  | queue t => exact ran.2 ▸ inv.queueMe ran.1
  | resume t => exact ran.2 ▸ inv.resume ran.1
  | unqueue t errno =>
    split at ran
    next holding => exact some.inj ran ▸ inv.unqueueMe holding
    · cases ran
  -- The locks of a waker are free, and what it does in between is one of the loops.
  | wake word nrWake bitset =>
    simp only [futexWake] at ran
    grind [wakeKey]
  | requeue word1 word2 nrWake nrRequeue cmpval =>
    simp only [futexRequeue] at ran
    grind [requeued]
  | wakeOp word1 word2 nrWake nrWake2 op =>
    simp only [futexWakeOp] at ran
    grind [wakeKey, store, doubleLock]

end Invariant

theorem invariant_of_reachable (reached : (machine env).Reachable s) : Invariant env s := by
  refine reached.invariant (Invariant env) ?_ fun _ _ _ _ inv ran => inv.exec ran
  rintro _ rfl
  exact ⟨fun _ => .nil, fun _ => suffix_rfl, fun t =>
    .of_idle ⟨fun _ => not_mem_nil, nofun, rfl⟩ rfl nofun (by simp) nofun⟩

/-- For each time that a thread is woken one of its calls returns 0, and no other call does.  A
thread that waits stands once on the chain of its key and on no other, until it is woken or
leaves. -/
theorem futex_wakes_once (env : Env) {s : State} (reached : (machine env).Reachable s) (t : Nat) :
    (s.thread t).wakes = (s.thread t).zeros +
      (if (s.thread t).pc.waits = true ∧ (s.thread t).q.lockPtr = none then 1 else 0) ∧
    ∀ b, (s.chain b).count t =
      if (s.thread t).pc.waits = true ∧ (s.thread t).q.lockPtr ≠ none ∧
        env.hashFutex (s.thread t).q.key = b then 1 else 0 := by
  have inv := invariant_of_reachable reached
  obtain ⟨mem, hashed, -, once, -, -⟩ := inv.thread t
  refine ⟨once, fun b => ?_⟩
  rw [(inv.nodup b).count]
  simp only [mem b]
  cases isB : (s.thread t).q.lockPtr with
  | none => simp
  | some c => simp [(hashed c isB).1]

/-- Each page at its own address, and two chains. -/
def twoChains : Env := ⟨fun _ uaddr => some uaddr, fun key => key.offset % 8⟩

/-- The thread is requeued after it has read `lock_ptr`, so it takes the wrong lock. -/
theorem futex_wakes_once_requeued : ∃ s, (machine twoChains).Reachable s ∧
    (s.thread 1).wakes = 1 ∧ (s.thread 1).zeros = 1 ∧ (s.chain 4).count 1 = 0 := by
  obtain ⟨s, reached, wakes, user⟩ : ∃ s, (machine twoChains).Reachable s ∧
      (s.thread 1).wakes = 1 ∧ (s.thread 1).pc.waits = false :=
    Machine.exists_run rfl (fun _ _ _ => id)
      [.wait 1 ⟨⟨0, 8, false⟩, 0, 1⟩, .lock 1, .compare 1, .queue 1, .resume 1,
        .requeue ⟨0, 8, false⟩ ⟨0, 12, false⟩ 0 1 none, .lock 1, .unqueue 1 none,
        .wake ⟨0, 12, false⟩ 1 1, .resume 1] (by decide +kernel)
  obtain ⟨once, chain⟩ := futex_wakes_once twoChains reached 1
  exact ⟨s, reached, wakes, by simpa [wakes, user] using once.symm, by simpa [user] using chain 4⟩

/-- A thread that has not been woken has come to its key after the last call that left no waiter of
the key; if it was not requeued, its word then had the value that it waits for. -/
theorem no_wakeup_lost (env : Env) {s : State} (reached : (machine env).Reachable s) {t : Nat}
    (waits : (s.thread t).pc.waits = true) (asleep : (s.thread t).q.lockPtr ≠ none) :
    ∃ since later, s.stores = later ++ since ∧ s.woken (s.thread t).q.key <:+ since ∧
      ((s.thread t).q.moved = false →
        getFutexKey env (s.thread t).call.word = .ok (s.thread t).q.key ∧
        ∃ addr, env.phys (s.thread t).call.word = some addr ∧
          load since addr = (s.thread t).call.val) := by
  obtain ⟨woken, ⟨later, isLater⟩, read⟩ :=
    ((invariant_of_reachable reached).thread t).seen (.inr ⟨waits, asleep⟩)
  exact ⟨_, later, isLater.symm, woken, read⟩

/-- The word has changed since the thread looked at it, and nobody was woken since. -/
theorem no_wakeup_lost_store : ∃ s, (machine twoChains).Reachable s ∧ load s.stores 8 = 6 ∧
    ∃ since, [(8, 5)] <:+ since ∧ load since 8 = 5 := by
  obtain ⟨s, reached, changed, ⟨waits, asleep, moved⟩, call, val, woken⟩ : ∃ s,
      (machine twoChains).Reachable s ∧ load s.stores 8 = 6 ∧
        ((s.thread 1).pc.waits = true ∧ (s.thread 1).q.lockPtr ≠ none ∧
          (s.thread 1).q.moved = false) ∧ (s.thread 1).call.word = ⟨0, 8, false⟩ ∧
        (s.thread 1).call.val = 5 ∧ s.woken (s.thread 1).q.key = [(8, 5)] :=
    Machine.exists_run rfl (fun _ _ _ => id)
      [.store 8 5, .wake ⟨0, 8, false⟩ 1 0xffffffff, .wait 1 ⟨⟨0, 8, false⟩, 5, 1⟩, .lock 1,
        .compare 1, .store 8 6, .queue 1] (by decide +kernel)
  obtain ⟨since, -, -, after, read⟩ := no_wakeup_lost twoChains reached waits asleep
  obtain ⟨-, addr, isAddr, loaded⟩ := read moved
  cases (call ▸ isAddr : twoChains.phys ⟨0, 8, false⟩ = some addr)
  exact ⟨s, reached, changed, since, woken ▸ after, val ▸ loaded⟩

end McKernel.Futex
