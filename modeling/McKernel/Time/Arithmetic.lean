import McKernel.Lib.Errno
import McKernel.Lib.ULong

/-!
# Wall time and sleeping by the time stamp counter

`calculate_time_from_tsc` of `arch/x86_64/kernel/syscall.c` and the local path of `nanosleep` of
`kernel/syscall.c`.  Values of `unsigned long` are natural numbers below `2 ^ 64`.
-/

namespace McKernel.Time

open Nat

/-- `NS_PER_SEC`. -/
def nsPerSec : Nat := 1000000000

structure Timespec where
  sec : Int
  nsec : Int
  deriving DecidableEq

/-- The fields of `struct vsyscall_gtod_data` that are read. -/
structure Gtod where
  cycleLast : Nat
  mult : Nat
  shift : Nat
  wallTimeSec : Int
  wallTimeSnsec : Nat
  deriving DecidableEq

/-- One turn of the loop: `seq` before and after the clock data and the counter are read. -/
structure Attempt where
  seq : Nat
  gtod : Gtod
  tsc : Nat
  seq2 : Nat

/-- The loop ends with an even sequence number that has not changed. -/
def Attempt.stable (attempt : Attempt) : Bool :=
  attempt.seq % 2 == 0 && attempt.seq == attempt.seq2

/-- `ns` after the shift. -/
def Gtod.ns (gtod : Gtod) (tsc : Nat) : Nat :=
  ULong.add gtod.wallTimeSnsec (ULong.sub tsc gtod.cycleLast * gtod.mult % 2 ^ 64) >>> gtod.shift

/-- The comparison with `NS_PER_SEC` is one of `unsigned long`. -/
def Gtod.time (gtod : Gtod) (tsc : Nat) : Timespec :=
  let ns := gtod.ns tsc
  let nsec := Int.bmod ns (2 ^ 64)
  if nsPerSec ≤ ns then ⟨gtod.wallTimeSec + 1, nsec - nsPerSec⟩ else ⟨gtod.wallTimeSec, nsec⟩

/-- `calculate_time_from_tsc`, unless no attempt is stable. -/
def calculateTimeFromTsc (attempts : List Attempt) : Option Timespec :=
  (attempts.find? Attempt.stable).map fun attempt => attempt.gtod.time attempt.tsc

/-- What the loop of `nanosleep` sees in one turn. -/
structure Poll where
  tsc : Nat
  pending : Bool

/-- Whether a signal ends the spin wait, once it has ended. -/
def spinWait (ts tscs : Nat) : List Poll → Option Bool
  | [] => none
  | poll :: rest =>
    if ULong.sub poll.tsc ts < tscs then
      if poll.pending then some true else spinWait ts tscs rest
    else some false

/-- `tscs`; `nsPerTsc` is what `ihk_mc_get_ns_per_tsc` returns. -/
def interval (nsPerTsc : Nat) (tv : Timespec) : Nat :=
  (CInt.toULong (tv.sec * nsPerSec + tv.nsec)) * 1000 % 2 ^ 64 / nsPerTsc

/-- `_rem` at a counter that reads `tsc`. -/
def remainder (nsPerTsc ts tscs tsc : Nat) : Timespec :=
  let tscsRem := Int.bmod (ULong.sub tscs (ULong.sub tsc ts)) (2 ^ 64)
  let nanosecsRem := tscsRem.toNat * nsPerTsc % 2 ^ 64 / 1000
  ⟨(nanosecsRem / nsPerSec : Nat), (nanosecsRem % nsPerSec : Nat)⟩

/-- The check of `_tv`, whose second comparison is one of `unsigned long`. -/
def accepts (tv : Timespec) : Bool := 0 ≤ tv.sec && CInt.toULong tv.nsec < nsPerSec

/-- `nanosleep` with `gettime_local_support`, and what it stores at `rem`.  `tv` is absent if it
cannot be read, `rem` if it is `NULL`, and otherwise tells whether it can be written.  The result
is absent while the call waits. -/
def nanosleep (nsPerTsc ts : Nat) (tv : Option Timespec) (rem : Option Bool) (polls : List Poll)
    (last : Nat) : Option (Except Errno Unit × Option Timespec) :=
  match tv with
  | none => some (.error .EFAULT, none)
  | some tv =>
    if accepts tv then
      let tscs := interval nsPerTsc tv
      (spinWait ts tscs polls).map fun interrupted =>
        if interrupted then
          match rem with
          | none => (.error .EINTR, none)
          | some true => (.error .EINTR, some (remainder nsPerTsc ts tscs last))
          | some false => (.error .EFAULT, none)
        else (.ok (), none)
    else some (.error .EINVAL, none)

/-- The wall time that the clock data define, in nanoseconds. -/
def Gtod.wallTime (gtod : Gtod) (tsc : Nat) : Int :=
  gtod.wallTimeSec * nsPerSec +
    ((gtod.wallTimeSnsec + (tsc - gtod.cycleLast) * gtod.mult) / 2 ^ gtod.shift : Nat)

def Timespec.nanosecs (ts : Timespec) : Int := ts.sec * nsPerSec + ts.nsec

/-- `0 ≤ tv_nsec < NS_PER_SEC`. -/
def Timespec.Normal (ts : Timespec) : Prop := 0 ≤ ts.nsec ∧ ts.nsec < nsPerSec

variable {gtod : Gtod} {tv : Timespec} {nsPerTsc ts tscs tsc : Nat} {polls : List Poll}

/-- Without a wrap of the product, `ns` is what the clock data define. -/
theorem Gtod.ns_eq (later : gtod.cycleLast ≤ tsc) (counter : tsc < 2 ^ 64)
    (fits : gtod.wallTimeSnsec + (tsc - gtod.cycleLast) * gtod.mult < 2 ^ 64) :
    gtod.ns tsc = (gtod.wallTimeSnsec + (tsc - gtod.cycleLast) * gtod.mult) / 2 ^ gtod.shift := by
  have product : (tsc - gtod.cycleLast) * gtod.mult % 2 ^ 64 =
      (tsc - gtod.cycleLast) * gtod.mult := mod_eq_of_lt (by omega)
  rw [Gtod.ns, ULong.sub_of_le later counter, product, ULong.add_of_lt fits,
    shiftRight_eq_div_pow]

/-- One subtraction normalises less than two seconds, and no more. -/
theorem Gtod.time_spec (long : gtod.ns tsc < 2 ^ 64) :
    ((gtod.time tsc).Normal ∧
      (gtod.time tsc).nanosecs = gtod.wallTimeSec * nsPerSec + gtod.ns tsc) ↔
    gtod.ns tsc < 2 * nsPerSec := by
  unfold Gtod.time Timespec.Normal Timespec.nanosecs
  simp only [Int.bmod_def]
  unfold nsPerSec
  by_cases whole : 1000000000 ≤ gtod.ns tsc
  · rw [if_pos whole]
    dsimp only
    omega
  · rw [if_neg whole]
    dsimp only
    omega

/-- The spin wait ends without a signal once the interval has passed. -/
theorem exists_of_spinWait (ended : spinWait ts tscs polls = some false) :
    ∃ poll ∈ polls, tscs ≤ ULong.sub poll.tsc ts := by
  fun_induction spinWait ts tscs polls with
  | case1 => cases ended
  | case2 => cases ended
  | case3 poll rest _ _ ih =>
    obtain ⟨later, isLater, passed⟩ := ih ended
    exact ⟨later, List.mem_cons_of_mem poll isLater, passed⟩
  | case4 poll rest passed => exact ⟨poll, List.mem_cons_self, Nat.le_of_not_lt passed⟩

/-- A negative `tv_nsec` is a large `unsigned long`. -/
theorem normal_of_accepts (long : -2 ^ 63 ≤ tv.nsec ∧ tv.nsec < 2 ^ 63) (accepted : accepts tv) :
    0 ≤ tv.sec ∧ tv.Normal := by
  simp only [accepts, Bool.and_eq_true, decide_eq_true_eq] at accepted
  unfold CInt.toULong nsPerSec at accepted
  refine ⟨accepted.1, ?_⟩
  unfold Timespec.Normal nsPerSec
  omega

theorem interval_eq {nanosecs : Nat} (same : tv.nanosecs = nanosecs) :
    interval nsPerTsc tv = nanosecs * 1000 % 2 ^ 64 / nsPerTsc := by
  have v : CInt.toULong nanosecs * 1000 % 2 ^ 64 = nanosecs * 1000 % 2 ^ 64 := by
    unfold CInt.toULong
    omega
  unfold Timespec.nanosecs at same
  rw [interval, same, v]

/-- The interval is the duration in ticks, rounded down, exactly if the product does not wrap. -/
theorem interval_right {nanosecs : Nat} (same : tv.nanosecs = nanosecs) (positive : 0 < nsPerTsc)
    (long : nsPerTsc < 2 ^ 64) :
    (interval nsPerTsc tv * nsPerTsc ≤ nanosecs * 1000 ∧
      nanosecs * 1000 < (interval nsPerTsc tv + 1) * nsPerTsc) ↔ nanosecs * 1000 < 2 ^ 64 := by
  rw [interval_eq same]
  have floor := div_mul_le_self (nanosecs * 1000 % 2 ^ 64) nsPerTsc
  have ceiling := lt_mul_div_succ (nanosecs * 1000 % 2 ^ 64) positive
  rw [mul_comm nsPerTsc, succ_mul] at ceiling
  rw [succ_mul]
  omega

/-- The remainder is at most the interval it is taken from, in nanoseconds. -/
theorem remainder_spec (recent : ULong.sub tsc ts < 2 ^ 63)
    (fits : tscs * nsPerTsc < 2 ^ 64) (ticks : tscs < 2 ^ 64) :
    (remainder nsPerTsc ts tscs tsc).Normal ∧
      (remainder nsPerTsc ts tscs tsc).nanosecs ≤ (tscs * nsPerTsc / 1000 : Nat) := by
  have left : (Int.bmod (ULong.sub tscs (ULong.sub tsc ts)) (2 ^ 64)).toNat ≤ tscs := by
    generalize ULong.sub tsc ts = elapsed at recent
    rw [Int.bmod_def]
    unfold ULong.sub
    omega
  have product := mul_le_mul_right nsPerTsc left
  unfold remainder Timespec.Normal Timespec.nanosecs
  simp only [mod_eq_of_lt (lt_of_le_of_lt product fits)]
  have quotient := Nat.div_le_div_right (c := 1000) product
  unfold nsPerSec
  omega

/-- What `nanosleep` stores is the remainder at its last reading. -/
theorem nanosleep_outcome {last : Nat} {rem : Option Bool} {res : Except Errno Unit}
    {left : Option Timespec} (accepted : accepts tv)
    (returned : nanosleep nsPerTsc ts (some tv) rem polls last = some (res, left)) :
    (res = .ok () → ∃ poll ∈ polls, interval nsPerTsc tv ≤ ULong.sub poll.tsc ts) ∧
      ∀ time ∈ left, time = remainder nsPerTsc ts (interval nsPerTsc tv) last := by
  rw [nanosleep, if_pos accepted] at returned
  obtain ⟨interrupted, ended, outcome⟩ := Option.map_eq_some_iff.mp returned
  cases interrupted with
  | false =>
    cases outcome
    exact ⟨fun _ => exists_of_spinWait ended, nofun⟩
  | true =>
    rcases rem with _ | _ | _ <;> cases outcome
    · exact ⟨nofun, nofun⟩
    · exact ⟨nofun, nofun⟩
    · exact ⟨nofun, fun time stored => (Option.some.inj stored).symm⟩

/-- The interval is the duration in ticks, rounded down, a call that returns without a signal has
waited for it, and what it leaves is normalised and at most the duration. -/
structure Sleeps (nsPerTsc ts : Nat) (tv : Timespec) (rem : Option Bool) (polls : List Poll)
    (last : Nat) : Prop where
  ticks : interval nsPerTsc tv * nsPerTsc ≤ tv.nanosecs * 1000 ∧
    tv.nanosecs * 1000 < (interval nsPerTsc tv + 1) * nsPerTsc
  returned : ∀ result left, nanosleep nsPerTsc ts (some tv) rem polls last = some (result, left) →
    (result = .ok () → ∃ poll ∈ polls, interval nsPerTsc tv ≤ ULong.sub poll.tsc ts) ∧
    ∀ time ∈ left, time.Normal ∧ time.nanosecs ≤ tv.nanosecs

/-- The time is right exactly if the clock data are less than two seconds old, and `nanosleep`
waits for the duration and leaves a normalised remainder exactly if the product with 1000 does
not wrap. -/
theorem time_right (attempts : List Attempt) (attempt : Attempt) (nsPerTsc ts last : Nat)
    (tv : Timespec) (rem : Option Bool) (polls : List Poll) :
    (attempts.find? Attempt.stable = some attempt →
      attempt.gtod.cycleLast ≤ attempt.tsc → attempt.tsc < 2 ^ 64 →
      attempt.gtod.wallTimeSnsec + (attempt.tsc - attempt.gtod.cycleLast) * attempt.gtod.mult <
        2 ^ 64 →
      ∃ time, calculateTimeFromTsc attempts = some time ∧
        (time.Normal ∧ time.nanosecs = attempt.gtod.wallTime attempt.tsc ↔
          (attempt.gtod.wallTimeSnsec + (attempt.tsc - attempt.gtod.cycleLast) *
            attempt.gtod.mult) / 2 ^ attempt.gtod.shift < 2 * nsPerSec)) ∧
    (0 < nsPerTsc → nsPerTsc < 2 ^ 64 → ULong.sub last ts < 2 ^ 63 →
      -2 ^ 63 ≤ tv.nsec ∧ tv.nsec < 2 ^ 63 → accepts tv →
      (Sleeps nsPerTsc ts tv rem polls last ↔ tv.nanosecs * 1000 < 2 ^ 64)) := by
  refine ⟨fun found later counter fits => ?_, fun positive narrow recent long accepted => ?_⟩
  · have ns := Gtod.ns_eq later counter fits
    refine ⟨_, by rw [calculateTimeFromTsc, found, Option.map_some], ?_⟩
    rw [Gtod.wallTime, ← ns]
    exact Gtod.time_spec (ns ▸ lt_of_le_of_lt (div_le_self _ _) fits)
  · obtain ⟨nonneg, normal⟩ := normal_of_accepts long accepted
    have total : 0 ≤ tv.nanosecs :=
      Int.add_nonneg (Int.mul_nonneg nonneg (Int.natCast_nonneg _)) normal.1
    obtain ⟨nanosecs, same⟩ := Int.eq_ofNat_of_zero_le total
    have ticks := interval_right same positive narrow
    rw [same]
    constructor
    · intro sleeps
      have right := sleeps.ticks
      rw [same] at right
      exact_mod_cast ticks.mp (by exact_mod_cast right)
    · intro short
      have right := ticks.mpr (by exact_mod_cast short)
      refine ⟨by rw [same]; exact_mod_cast right, fun result left returned => ?_⟩
      obtain ⟨passed, stored⟩ := nanosleep_outcome accepted returned
      refine ⟨passed, fun time isLeft => ?_⟩
      have bound : interval nsPerTsc tv * nsPerTsc < 2 ^ 64 := by omega
      have below : interval nsPerTsc tv < 2 ^ 64 :=
        Nat.lt_of_le_of_lt (Nat.le_mul_of_pos_right _ positive) bound
      obtain ⟨normalised, atMost⟩ := remainder_spec recent bound below
      rw [stored time isLeft, same]
      exact ⟨normalised, by omega⟩

/-- The second attempt is stable. -/
def attempts : List Attempt :=
  [⟨1, ⟨0, 1, 0, 0, 0⟩, 0, 1⟩, ⟨2, ⟨5, 4, 2, 7, 999999999⟩, 1000000010, 2⟩]

theorem time_right_used :
    (∃ time, calculateTimeFromTsc attempts = some time ∧ time.Normal ∧
      time.nanosecs = Gtod.wallTime ⟨5, 4, 2, 7, 999999999⟩ 1000000010) ∧
    ∃ left, nanosleep 400 100 (some ⟨2, 5⟩) (some true) [⟨200, false⟩, ⟨300, true⟩] 600 =
      some (.error .EINTR, some left) ∧ left.Normal ∧ left.nanosecs ≤ 2000000005 := by
  have right := time_right attempts ⟨2, ⟨5, 4, 2, 7, 999999999⟩, 1000000010, 2⟩ 400 100 600 ⟨2, 5⟩
    (some true) [⟨200, false⟩, ⟨300, true⟩]
  obtain ⟨time, isTime, same⟩ := right.1 rfl (by decide) (by decide) (by decide)
  refine ⟨⟨time, isTime, same.mpr (by decide)⟩, ⟨1, 999999804⟩, by decide +kernel, ?_⟩
  have sleep := (right.2 (by decide) (by decide) (by decide) (by decide)
    (by decide)).mpr (by decide)
  exact (sleep.returned (.error .EINTR) (some ⟨1, 999999804⟩) (by decide +kernel)).2 _ rfl

/-- Two seconds after the update `tv_nsec` is a whole second, and the interval of a sleep of 213
days is less than a second. -/
theorem time_wrong :
    (∃ time, calculateTimeFromTsc [⟨0, ⟨0, 1, 0, 7, 0⟩, 2000000000, 0⟩] = some time ∧
      ¬ time.Normal) ∧
    accepts ⟨18446745, 0⟩ ∧ interval 1000 ⟨18446745, 0⟩ = 926290448 :=
  ⟨⟨⟨8, 1000000000⟩, by decide +kernel, by simp [Timespec.Normal, nsPerSec]⟩, by decide +kernel⟩

end McKernel.Time
