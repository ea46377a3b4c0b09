import McKernel.Lib.Errno
import McKernel.Lib.Machine

/-!
# Restored registers

The model of `rt_sigreturn`, `ptrace_write_user` and `alloc_debugreg` of
`arch/x86_64/kernel/syscall.c`.  A user context is kept as words: `ptrace_write_user`
addresses it by byte offset, with the general registers and the selectors side by side.
-/

namespace McKernel.UserContext

open Function

/-! ## Model -/

/-- Words of `struct x86_basic_regs` that matter for the privilege of a context. -/
def rax : Nat := 10
@[inherit_doc rax] def cs : Nat := 17
@[inherit_doc rax] def rflags : Nat := 18
@[inherit_doc rax] def ss : Nat := 20

def RFLAGS_TF : BitVec 64 := 1#64 <<< 8

/-- `RFLAGS_IF`, all of `rflags` in a new context. -/
def RFLAGS_IF : BitVec 64 := 1#64 <<< 9

/-- `RFLAGS_MASK`: CF, PF, AF, ZF, SF, TF, DF, OF, NT, RF and AC. -/
def RFLAGS_MASK : BitVec 64 :=
  1#64 ||| 1#64 <<< 2 ||| 1#64 <<< 4 ||| 1#64 <<< 6 ||| 1#64 <<< 7 ||| RFLAGS_TF |||
    1#64 <<< 10 ||| 1#64 <<< 11 ||| 1#64 <<< 14 ||| 1#64 <<< 16 ||| 1#64 <<< 18

/-- `USER_CS`, `USER_DS` and `USER_END`. -/
def USER_CS : BitVec 64 := 6 * 8 + 3
@[inherit_doc USER_CS] def USER_DS : BitVec 64 := 7 * 8 + 3
@[inherit_doc USER_CS] def USER_END : BitVec 64 := 0x0000800000000000

/-- `struct x86_user_context`: the words of `gpr` and of `sr`. -/
structure Context where
  gpr : Nat → BitVec 64
  sr : Nat → BitVec 64

/-- The members of `struct sigsp` that reach the context. -/
structure Sigsp where
  regs : Nat → BitVec 64
  restart : Bool
  sigrc : BitVec 64

/-- Which word of `gpr` is taken from which word of the frame, in the order of the source. -/
def restored : List (Nat × Nat) :=
  [(0, 7), (1, 6), (2, 5), (3, 4), (4, 10), (5, 11), (6, 3), (7, 2), (8, 1), (9, 0), (rax, 13),
    (11, 14), (12, 12), (13, 9), (14, 8), (15, 19), (16, 16), (rflags, 17), (19, 15)]

/-- `rt_sigreturn`, up to the system call that is restarted or the signal that is raised;
`none` stands for a frame that cannot be read. -/
def rtSigreturn (context : Context) : Option Sigsp → Context
  | none => context
  | some sigsp =>
    let gpr := restored.foldl
      (fun gpr (word, slot) => update gpr word (sigsp.regs slot)) context.gpr
    if !sigsp.restart && gpr rflags &&& RFLAGS_TF != 0 then
      { context with
        gpr := update (update gpr rax sigsp.sigrc) rflags
          (gpr rflags &&& ~~~RFLAGS_TF) }
    else { context with gpr }

/-- What belongs to a thread: the context that `lookup_user_context` finds and
`ptrace_debugreg`. -/
structure Thread where
  uctx : Option Context
  debugreg : Option (Nat → BitVec 64)

/-- `DB6_RESERVED_SET` and `DB7_RESERVED_SET`. -/
def DB6_RESERVED_SET : BitVec 64 := 0xffff0ff0
@[inherit_doc DB6_RESERVED_SET] def DB7_RESERVED_SET : BitVec 64 := 0x400

/-- The value `ptrace_write_user` stores in a debug register. -/
def debugValue (index : Nat) (value : BitVec 64) : BitVec 64 :=
  if index = 6 then value &&& ~~~0xffffffffffff1ff0 ||| DB6_RESERVED_SET
  else if index = 7 then value &&& ~~~0xffffffff0000dc00 ||| DB7_RESERVED_SET
  else value

/-- The store of `ptrace_write_user` into a word of `struct user_regs_struct`. -/
def pokeContext (context : Context) (word : Nat) (value : BitVec 64) : Context :=
  if word = rflags then
    { context with
      gpr := update context.gpr rflags
        (context.gpr rflags &&& ~~~RFLAGS_MASK ||| value &&& RFLAGS_MASK) }
  else if word < 21 then { context with gpr := update context.gpr word value }
  else { context with sr := update context.sr (word - 21) value }

/-- `ptrace_write_user`. `struct user_regs_struct` has 27 words, `u_debugreg` is at 848. -/
def ptraceWriteUser (thread : Thread) (addr : Int) (value : BitVec 64) : Thread × Option Errno :=
  if addr < 0 ∨ addr % 8 ≠ 0 then (thread, some Errno.EIO)
  else if addr < 27 * 8 then
    match thread.uctx with
    | none => (thread, some Errno.EIO)
    | some uctx =>
      ({ thread with uctx := some (pokeContext uctx (addr.toNat / 8) value) }, none)
  else if 848 ≤ addr ∧ addr < 848 + 8 * 8 then
    match thread.debugreg with
    | none => (thread, some .EFAULT)
    | some regs =>
      let index := (addr.toNat - 848) / 8
      ({ thread with debugreg := some (update regs index (debugValue index value)) },
        none)
  else (thread, none)

/-- `alloc_debugreg`, when there is memory. -/
def allocDebugreg (thread : Thread) : Thread :=
  { thread with
    debugreg := some (update (update (fun _ => 0) 6 DB6_RESERVED_SET) 7
      DB7_RESERVED_SET) }

/-- What users ask of the kernel about the registers of a thread. -/
inductive Op where
  | rtSigreturn (sigsp : Option Sigsp)
  | pokeUser (addr : Int) (value : BitVec 64)
  | allocDebugreg

def execThread (thread : Thread) : Op → Thread
  | .rtSigreturn sigsp => { thread with uctx := thread.uctx.map (rtSigreturn · sigsp) }
  | .pokeUser addr value => (ptraceWriteUser thread addr value).1
  | .allocDebugreg => allocDebugreg thread

/-- The flags a program in user mode changes by itself: those of `RFLAGS_MASK`, and ID. -/
def USER_FLAGS : BitVec 64 := RFLAGS_MASK ||| 1#64 <<< 21

/-- What the processor saves when a thread that runs on `context` enters the kernel: in user
mode it keeps the selectors and the other flags, of which bit 1 always reads as set. -/
structure Entry (context saved : Context) : Prop where
  code : saved.gpr cs = context.gpr cs
  stack : saved.gpr ss = context.gpr ss
  flags : saved.gpr rflags &&& ~~~USER_FLAGS = (context.gpr rflags ||| 2) &&& ~~~USER_FLAGS

inductive Action where
  | request (tid : Nat) (op : Op)
  | enter (tid : Nat) (saved : Context)

/-- Threads, each with its registers, and users that act on any of them. A new context has
the selectors and the flags of `ihk_mc_init_user_process`. -/
def machine : Machine (Nat → Thread) Action where
  init threads := ∀ tid, (threads tid).debugreg = none ∧
    ∀ context, (threads tid).uctx = some context →
      context.gpr cs = USER_CS ∧ context.gpr ss = USER_DS ∧ context.gpr rflags = RFLAGS_IF
  step threads action next :=
    match action with
    | .request tid op => next = update threads tid (execThread (threads tid) op)
    | .enter tid saved => ∃ context, (threads tid).uctx = some context ∧
      Entry context saved ∧ next = update threads tid { threads tid with uctx := some saved }

/-! ## Privilege -/

/-- The context has the user's selectors; of the flags that a program in user mode cannot
change, IF alone is set: IOPL is 0. -/
structure Unprivileged (context : Context) : Prop where
  code : context.gpr cs = USER_CS
  stack : context.gpr ss = USER_DS
  flags : context.gpr rflags &&& ~~~(USER_FLAGS ||| 2) = RFLAGS_IF

/-- A thread that resumes without privilege; its breakpoints are in user memory. -/
structure Confined (thread : Thread) : Prop where
  context : ∀ context, thread.uctx = some context → Unprivileged context
  breakpoints : ∀ regs, thread.debugreg = some regs → ∀ index < 4, regs index < USER_END

/-- Two contexts with the same selectors, whose flags differ in `RFLAGS_MASK` only. -/
structure SameMode (old new : Context) : Prop where
  code : new.gpr cs = old.gpr cs
  stack : new.gpr ss = old.gpr ss
  flags : new.gpr rflags &&& ~~~RFLAGS_MASK = old.gpr rflags &&& ~~~RFLAGS_MASK

/-- A request has not changed the privilege with which a thread resumes. -/
structure Keeps (old new : Thread) : Prop where
  mode : ∀ context next, old.uctx = some context → new.uctx = some next →
    SameMode context next
  breakpoints : ∀ regs, new.debugreg = some regs → ∀ index < 4, regs index < USER_END

/-- A frame has the privileged flags of the context it replaces, a write to a selector leaves
the user's selector, and a breakpoint is set in user memory. -/
def Harmless (thread : Thread) : Op → Prop
  | .rtSigreturn sigsp => ∀ context frame, thread.uctx = some context → sigsp = some frame →
    frame.regs 17 &&& ~~~RFLAGS_MASK = context.gpr rflags &&& ~~~RFLAGS_MASK
  | .pokeUser addr value =>
    (thread.uctx.isSome → (addr = 8 * cs → value = USER_CS) ∧
      (addr = 8 * ss → value = USER_DS)) ∧
    (thread.debugreg.isSome → ∀ index < 4, addr = 848 + 8 * (index : Nat) → value < USER_END)
  | .allocDebugreg => True

/-- The requests of a run are harmless. -/
def Orderly (threads : Nat → Thread) : Action → Prop
  | .request tid op => Harmless (threads tid) op
  | .enter _ _ => True

variable {context saved : Context} {thread : Thread}

theorem SameMode.unprivileged (same : SameMode context saved)
    (unprivileged : Unprivileged context) : Unprivileged saved := by
  have within : ~~~(USER_FLAGS ||| 2) = ~~~RFLAGS_MASK &&& ~~~(USER_FLAGS ||| 2) := by decide
  refine ⟨same.code.trans unprivileged.code, same.stack.trans unprivileged.stack, ?_⟩
  rw [within, ← BitVec.and_assoc, same.flags, BitVec.and_assoc, ← within]
  exact unprivileged.flags

theorem Entry.unprivileged (entry : Entry context saved)
    (unprivileged : Unprivileged context) : Unprivileged saved := by
  have within : ~~~(USER_FLAGS ||| 2) = ~~~USER_FLAGS &&& ~~~(USER_FLAGS ||| 2) := by decide
  have bitOne : 2 &&& ~~~(USER_FLAGS ||| 2) = 0#64 := by decide
  refine ⟨entry.code.trans unprivileged.code, entry.stack.trans unprivileged.stack, ?_⟩
  calc saved.gpr rflags &&& ~~~(USER_FLAGS ||| 2)
      = (context.gpr rflags ||| 2) &&& ~~~(USER_FLAGS ||| 2) := by
        rw [within, ← BitVec.and_assoc, entry.flags, BitVec.and_assoc, ← within]
    _ = context.gpr rflags &&& ~~~(USER_FLAGS ||| 2) := by
        rw [BitVec.and_comm, BitVec.and_or_distrib_left, BitVec.and_comm _ 2, bitOne,
          BitVec.or_zero, BitVec.and_comm]
    _ = RFLAGS_IF := unprivileged.flags

/-- The selectors stay; the flags are those of the frame, `TF` apart. -/
theorem rtSigreturn_some (context : Context) (frame : Sigsp) :
    (rtSigreturn context (some frame)).gpr cs = context.gpr cs ∧
    (rtSigreturn context (some frame)).gpr ss = context.gpr ss ∧
    (rtSigreturn context (some frame)).gpr rflags &&& ~~~RFLAGS_MASK =
      frame.regs 17 &&& ~~~RFLAGS_MASK := by
  have stepFlag : ~~~RFLAGS_TF &&& ~~~RFLAGS_MASK = ~~~RFLAGS_MASK := by decide
  simp only [UserContext.rtSigreturn]
  split <;> simp [restored, rax, cs, ss, rflags, stepFlag, BitVec.and_assoc]

theorem pokeContext_flags (context : Context) (word : Nat) (value : BitVec 64) :
    (pokeContext context word value).gpr rflags &&& ~~~RFLAGS_MASK =
      context.gpr rflags &&& ~~~RFLAGS_MASK := by
  unfold pokeContext
  split
  · simp only [update_self]
    ext i
    simp only [BitVec.getElem_and, BitVec.getElem_or, BitVec.getElem_not]
    cases RFLAGS_MASK[i] <;> simp
  next other =>
    split
    · exact congrArg (· &&& _) (update_of_ne (Ne.symm other) _ _)
    · rfl

theorem pokeContext_selector (context : Context) (word : Nat) (value : BitVec 64)
    {selector : Nat} (isSelector : selector = cs ∨ selector = ss) :
    (pokeContext context word value).gpr selector =
      if word = selector then value else context.gpr selector := by
  have notFlags : selector ≠ rflags := by rcases isSelector with rfl | rfl <;> decide
  have low : selector < 21 := by rcases isSelector with rfl | rfl <;> decide
  unfold pokeContext
  split
  next flags => rw [if_neg (by omega)]; exact update_of_ne notFlags _ _
  · split
    · by_cases same : word = selector
      · rw [if_pos same, same]
        exact update_self ..
      · rw [if_neg same]
        exact update_of_ne (Ne.symm same) _ _
    · rw [if_neg (by omega)]

/-- A store keeps the mode exactly when what it leaves in a selector is what was there. -/
theorem sameMode_poke_iff (word : Nat) (value : BitVec 64) :
    SameMode context (pokeContext context word value) ↔
      (word = cs → value = context.gpr cs) ∧ (word = ss → value = context.gpr ss) := by
  have code := pokeContext_selector context word value (.inl rfl)
  have stack := pokeContext_selector context word value (.inr rfl)
  constructor
  · intro same
    refine ⟨fun isCode => ?_, fun isStack => ?_⟩
    · rw [← same.code, code, if_pos isCode]
    · rw [← same.stack, stack, if_pos isStack]
  · rintro ⟨keepsCode, keepsStack⟩
    refine ⟨?_, ?_, pokeContext_flags context word value⟩
    · rw [code]
      split
      next isCode => exact keepsCode isCode
      · rfl
    · rw [stack]
      split
      next isStack => exact keepsStack isStack
      · rfl

theorem keeps_self (confined : Confined thread) : Keeps thread thread :=
  ⟨fun _ _ isContext isNext => by
    rw [isContext] at isNext
    cases isNext
    exact ⟨rfl, rfl, rfl⟩, confined.breakpoints⟩

/-- A frame is taken over whole, so it has to agree with the context it replaces. -/
theorem keeps_rtSigreturn_iff (confined : Confined thread) (sigsp : Option Sigsp) :
    Keeps thread (execThread thread (.rtSigreturn sigsp)) ↔
      Harmless thread (.rtSigreturn sigsp) := by
  cases sigsp with
  | none =>
    have unchanged : execThread thread (.rtSigreturn none) = thread := by
      simp [execThread, rtSigreturn]
    rw [unchanged]
    exact iff_of_true (keeps_self confined) fun _ _ _ isFrame => nomatch isFrame
  | some frame =>
    constructor
    · rintro keeps context _ isContext ⟨⟩
      rw [← (rtSigreturn_some context frame).2.2]
      exact (keeps.mode context _ isContext (by simp [execThread, isContext])).flags
    · intro harmless
      refine ⟨fun context next isContext isNext => ?_, confined.breakpoints⟩
      obtain ⟨code, stack, flags⟩ := rtSigreturn_some context frame
      simp only [execThread, isContext, Option.map_some, Option.some.injEq] at isNext
      subst isNext
      exact ⟨code, stack, flags.trans (harmless context frame isContext rfl)⟩

theorem keeps_poke_iff (confined : Confined thread) (addr : Int) (value : BitVec 64) :
    Keeps thread (execThread thread (.pokeUser addr value)) ↔
      Harmless thread (.pokeUser addr value) := by
  have self := keeps_self confined
  simp only [execThread, ptraceWriteUser, Harmless]
  split
  next outside =>
    refine iff_of_true self ⟨fun _ => ?_, fun _ index small at_ => by omega⟩
    simp only [cs, ss]
    omega
  next aligned =>
    split
    next low =>
      have noBreakpoint : ∀ index < 4, addr ≠ 848 + 8 * (index : Nat) := by omega
      split
      next none =>
        exact iff_of_true self ⟨by simp [none],
          fun _ i small at_ => absurd at_ (noBreakpoint i small)⟩
      next context isContext =>
        have unprivileged := confined.context context isContext
        have words : SameMode context (pokeContext context (addr.toNat / 8) value) ↔
            (addr = 8 * cs → value = USER_CS) ∧ (addr = 8 * ss → value = USER_DS) := by
          have isCode : addr.toNat / 8 = cs ↔ addr = 8 * cs := by simp only [cs]; omega
          have isStack : addr.toNat / 8 = ss ↔ addr = 8 * ss := by simp only [ss]; omega
          rw [sameMode_poke_iff, isCode, isStack, unprivileged.code, unprivileged.stack]
        constructor
        · intro keeps
          exact ⟨fun _ => words.mp (keeps.mode _ _ isContext rfl),
            fun _ i small at_ => absurd at_ (noBreakpoint i small)⟩
        · rintro ⟨harmless, -⟩
          refine ⟨fun old next isOld isNext => ?_, confined.breakpoints⟩
          cases isContext.symm.trans isOld
          cases isNext
          exact words.mpr (harmless (by simp [isContext]))
    next high =>
      have noSelector : addr ≠ 8 * cs ∧ addr ≠ 8 * ss := by simp only [cs, ss]; omega
      split
      next debug =>
        split
        next none =>
          exact iff_of_true self ⟨fun _ => ⟨fun is => absurd is noSelector.1,
            fun is => absurd is noSelector.2⟩, by simp [none]⟩
        next regs isRegs =>
          constructor
          · intro keeps
            refine ⟨fun _ => ⟨fun is => absurd is noSelector.1,
              fun is => absurd is noSelector.2⟩, fun _ index small at_ => ?_⟩
            have below := keeps.breakpoints _ rfl index small
            rwa [show (addr.toNat - 848) / 8 = index by omega, update_self, debugValue,
              if_neg (by omega), if_neg (by omega)] at below
          · rintro ⟨-, below⟩
            refine ⟨self.mode, fun next isNext index small => ?_⟩
            cases isNext
            by_cases same : index = (addr.toNat - 848) / 8
            · rw [← same, update_self, debugValue, if_neg (by omega), if_neg (by omega)]
              exact below (by simp [isRegs]) index small (by omega)
            · rw [update_of_ne same]
              exact confined.breakpoints regs isRegs index small
      next nowhere =>
        exact iff_of_true self ⟨fun _ => ⟨fun is => absurd is noSelector.1,
          fun is => absurd is noSelector.2⟩, fun _ index small at_ => by omega⟩

theorem keeps_iff (confined : Confined thread) (op : Op) :
    Keeps thread (execThread thread op) ↔ Harmless thread op := by
  cases op with
  | rtSigreturn sigsp => exact keeps_rtSigreturn_iff confined sigsp
  | pokeUser addr value => exact keeps_poke_iff confined addr value
  | allocDebugreg =>
    refine iff_of_true ⟨(keeps_self confined).mode, fun regs isRegs index small => ?_⟩ trivial
    cases isRegs
    rw [update_of_ne (by omega), update_of_ne (by omega)]
    decide

theorem execThread_uctx (thread : Thread) (op : Op) :
    (execThread thread op).uctx.isSome = thread.uctx.isSome := by
  cases op with
  | rtSigreturn sigsp => simp [execThread]
  | pokeUser addr value =>
    simp only [execThread, ptraceWriteUser]
    repeat' split
    all_goals simp_all
  | allocDebugreg => rfl

theorem Keeps.confined (confined : Confined thread) {op : Op}
    (keeps : Keeps thread (execThread thread op)) : Confined (execThread thread op) := by
  refine ⟨fun next isNext => ?_, keeps.breakpoints⟩
  obtain ⟨context, isContext⟩ := Option.isSome_iff_exists.mp
    ((execThread_uctx thread op).symm.trans (by simp [isNext]))
  exact (keeps.mode context next isContext isNext).unprivileged
    (confined.context context isContext)

theorem confined_step {threads next : Nat → Thread} {action : Action}
    (confined : ∀ tid, Confined (threads tid))
    (step : (machine.restrict Orderly).step threads action next) (tid : Nat) :
    Confined (next tid) := by
  obtain ⟨orderly, step⟩ := step
  cases action with
  | request target op =>
    cases step
    by_cases same : tid = target
    · subst same
      rw [update_self]
      exact ((keeps_iff (confined tid) op).mpr orderly).confined (confined tid)
    · rw [update_of_ne same]
      exact confined tid
  | enter target saved =>
    obtain ⟨context, isContext, entry, rfl⟩ := step
    by_cases same : tid = target
    · subst same
      rw [update_self]
      refine ⟨fun next isNext => ?_, (confined tid).breakpoints⟩
      cases isNext
      exact entry.unprivileged ((confined tid).context context isContext)
    · rw [update_of_ne same]
      exact confined tid

/-- Whatever harmless frames and register writes users supply, on whichever threads, every
thread resumes without privilege; and in each state reached it is the harmless requests that
leave the selectors and the flags outside of `RFLAGS_MASK` as they were. -/
theorem resumes_unprivileged {threads : Nat → Thread}
    (reached : (machine.restrict Orderly).Reachable threads) (tid : Nat) :
    Confined (threads tid) ∧
    ∀ op, Keeps (threads tid) (execThread (threads tid) op) ↔ Harmless (threads tid) op := by
  have confined : Confined (threads tid) := by
    refine reached.invariant (fun threads => ∀ tid, Confined (threads tid)) ?_ ?_ tid
    · intro threads initial tid
      obtain ⟨noDebug, fresh⟩ := initial tid
      refine ⟨fun context isContext => ?_, fun regs isRegs => ?_⟩
      · obtain ⟨code, stack, flags⟩ := fresh context isContext
        exact ⟨code, stack, by rw [flags]; decide⟩
      · rw [noDebug] at isRegs
        cases isRegs
    · intro threads action next _ confined step
      exact confined_step confined step
  exact ⟨confined, keeps_iff confined⟩

/-- The registers of a new thread, and the flags a kernel entry saves for it. -/
def user (flags : BitVec 64) : Context :=
  ⟨update (update (update (fun _ => 0) cs USER_CS) ss USER_DS) rflags flags, fun _ => 0⟩

def fresh (_ : Nat) : Thread :=
  ⟨some (user RFLAGS_IF), none⟩

theorem fresh_init : machine.init fresh := fun _ => ⟨rfl, fun _ isContext => by
  cases isContext
  decide⟩

/-- A frame as `do_signal` writes it, in which the handler has set TF. -/
def stepping : Sigsp := ⟨fun _ => 0x302, false, 0⟩

/-- A thread enters the kernel and returns from a signal. -/
theorem resumes_unprivileged_sigreturn :
    (machine.restrict Orderly).Reachable
      (update (update fresh 0 ⟨some (user 0x202), none⟩) 0
        (execThread ⟨some (user 0x202), none⟩ (.rtSigreturn (some stepping)))) ∧
    Confined (execThread ⟨some (user 0x202), none⟩ (.rtSigreturn (some stepping))) := by
  have entered : (machine.restrict Orderly).step fresh (.enter 0 (user 0x202))
      (update fresh 0 ⟨some (user 0x202), none⟩) :=
    ⟨trivial, user RFLAGS_IF, rfl, ⟨rfl, rfl, by decide⟩, rfl⟩
  have returned : (machine.restrict Orderly).step (update fresh 0 ⟨some (user 0x202), none⟩)
      (.request 0 (.rtSigreturn (some stepping)))
      (update (update fresh 0 ⟨some (user 0x202), none⟩) 0
        (execThread ⟨some (user 0x202), none⟩ (.rtSigreturn (some stepping)))) := by
    refine ⟨?_, rfl⟩
    rintro context frame isContext ⟨⟩
    rw [update_self] at isContext
    cases isContext
    decide
  have start : (machine.restrict Orderly).Reachable fresh := .init fresh_init
  have reached := (start.step entered).step returned
  have confined := (resumes_unprivileged reached 0).1
  rw [update_self] at confined
  exact ⟨reached, confined⟩

/-- A frame gives its thread the right to use I/O ports; a traced thread is given the
selector of the kernel, or a breakpoint on kernel memory. -/
theorem resumes_privileged :
    (∃ threads, machine.Reachable threads ∧
      (threads 0).uctx.map (·.gpr rflags) = some 0x3202) ∧
    (∃ threads, machine.Reachable threads ∧ (threads 0).uctx.map (·.gpr cs) = some 0x20) ∧
    ∃ threads, machine.Reachable threads ∧
      (threads 0).debugreg.map (· 0) = some 0xffff800000000000 := by
  have act : ∀ {threads} (op : Op), machine.Reachable threads →
      machine.Reachable (update threads 0 (execThread (threads 0) op)) :=
    fun op reached => reached.step (show machine.step _ (.request 0 op) _ from rfl)
  have start : machine.Reachable fresh := .init fresh_init
  exact ⟨⟨_, act (.rtSigreturn (some ⟨fun _ => 0x3202, false, 0⟩)) start, by decide⟩,
    ⟨_, act (.pokeUser (8 * cs) 0x20) start, by decide⟩,
    ⟨_, act (.pokeUser 848 0xffff800000000000) (act .allocDebugreg start), by decide⟩⟩

end McKernel.UserContext
