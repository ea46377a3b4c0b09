import McKernel.Lib.Segments
import McKernel.ReadWritev.Model
import McKernel.Vm.RemoveView

/-!
# What `process_vm_readv` and `process_vm_writev` guarantee

Two positions move through the buffers of the two sides.  The invariant of the loop says
that the copies made so far are exactly what lies before both positions, and that every
copy was preceded by the checks of its buffers, where the check of a remote buffer looks at
the buffer with the index of the local one.  So a call keeps its contract when what passes
these checks is allowed as a whole, and, when nothing stops it, only then.
-/

namespace McKernel.ReadWritev

open Vm (ProcessVm VmRange hasFlag Invariant Meets lookup_spec lookup_fields lookup_first
  lookupProcessMemoryRange VR_PROT_WRITE VR_PROT_READ)
open Paging (Iovec Cursor PageSize)
open Segments Option Function Nat

variable {error : Errno} {iov : Iovec} {iovs : List Iovec}
  {end_ prot off size addr i fuel : Nat} {vm : ProcessVm}

/-! ## Lookups -/

/-- The ranges of an address space are those of another one. -/
structure SameRanges (vm vm' : ProcessVm) : Prop where
  ranges : vm'.ranges = vm.ranges
  live : vm'.live = vm.live
  invariant : Invariant vm'

/-- What the steps other than a copy leave alone. -/
structure Quiet (before after : State) : Prop where
  vms : ∀ id, SameRanges (before.vms id) (after.vms id)
  memory : after.memory = before.memory
  copies : after.copies = before.copies

variable {before middle after : State}

variable {phys : Nat} {psize : PageSize} {vm' : ProcessVm}

theorem SameRanges.trans {vm'' : ProcessVm} (first : SameRanges vm vm')
    (second : SameRanges vm' vm'') : SameRanges vm vm'' :=
  ⟨second.ranges.trans first.ranges, second.live.trans first.live, second.invariant⟩

theorem Quiet.trans (first : Quiet before middle) (second : Quiet middle after) :
    Quiet before after :=
  ⟨fun id => (first.vms id).trans (second.vms id), second.memory.trans first.memory,
    second.copies.trans first.copies⟩

theorem Quiet.refl (invariants : ∀ id, Invariant (before.vms id)) : Quiet before before :=
  ⟨fun id => ⟨rfl, rfl, invariants id⟩, rfl, rfl⟩

theorem Quiet.invariants (quiet : Quiet before after) (id : Nat) : Invariant (after.vms id) :=
  (quiet.vms id).invariant

theorem Quiet.tick (quiet : Quiet before after) : Quiet before after.tick :=
  ⟨quiet.vms, quiet.memory, quiet.copies⟩

/-- The range that holds the base of a buffer allows an access, and the buffer is neither
empty nor does it wrap around. -/
def Passed (vm : ProcessVm) (prot : Nat) (iov : Iovec) : Prop :=
  iov.base < ULong.add iov.base iov.len ∧
    ∃ range ∈ vm.live, (vm.ranges range).start ≤ iov.base ∧ iov.base < (vm.ranges range).end_ ∧
      hasFlag (vm.ranges range).flag prot = true

theorem Passed.len_pos (passed : Passed vm prot iov) :
    0 < iov.len := by
  by_contra empty
  have wraps := passed.1
  rw [Nat.eq_zero_of_not_pos empty, ULong.add, Nat.add_zero] at wraps
  exact absurd wraps (by have := Nat.mod_le iov.base (2 ^ 64); omega)

/-- The address is in a range that allows the access. -/
def Allowed (vm : ProcessVm) (prot addr : Nat) : Prop :=
  ∃ range ∈ vm.live, (vm.ranges range).start ≤ addr ∧ addr < (vm.ranges range).end_ ∧
    hasFlag (vm.ranges range).flag prot = true

instance (vm : ProcessVm) (prot addr : Nat) : Decidable (Allowed vm prot addr) :=
  inferInstanceAs (Decidable (∃ range ∈ vm.live, _))

section

variable (invariants : ∀ id, Invariant (before.vms id))
include invariants

end

theorem rpageLeft_eq (psize : PageSize) (fits : addr < 2 ^ 64) :
    rpageLeft addr psize = psize.bytes - addr % psize.bytes := by
  have small : psize.shift ≤ 64 := by cases psize <;> decide
  rw [rpageLeft, ULong.roundDown_eq (ULong.add_lt _ _) small]
  cases psize <;> simp only [PageSize.bytes, PageSize.shift, ULong.add, ULong.sub] <;> omega

theorem part_eq (fits : off + size ≤ iov.len) :
    ((addresses iov).drop off).take size = part iov off size := by
  refine List.ext_getElem ?_ ?_
  · simp [addresses, part]
    omega
  · intro i _ _
    simp [addresses, part]

/-- The remote buffer begins in the local buffer, when both sides are laid out one behind
the other. -/
def BeginsIn (call : Call) (li ri : Nat) : Prop :=
  ((call.liov.take li).map Iovec.len).sum ≤ ((call.riov.take ri).map Iovec.len).sum ∧
    ((call.riov.take ri).map Iovec.len).sum < ((call.liov.take (li + 1)).map Iovec.len).sum

/-- What holds of a copy: both buffers exist and have the bytes, the local buffer has
passed its check, and so has the remote buffer with the index of the local buffer in which
the one that is copied begins; and the bytes are in the page that the page table gave. -/
structure CopyOk (env : Env) (call : Call) (remote : Nat) (initial : State) (copy : Copy) :
    Prop where
  liov : ∃ iov, call.liov[copy.li]? = some iov ∧ copy.loff + copy.size ≤ iov.len ∧
    Passed (initial.vms env.lvm) call.op.localProt iov
  riov : ∃ iov, call.riov[copy.ri]? = some iov ∧ copy.roff + copy.size ≤ iov.len ∧
    ∃ time psize, env.virtToPhys time (ULong.add iov.base copy.roff) = some (copy.phys, psize) ∧
      ULong.add iov.base copy.roff % psize.bytes + copy.size ≤ psize.bytes
  checked : ∃ li, BeginsIn call li copy.ri ∧
    Passed (initial.vms remote) call.op.remoteProt (call.remoteAt li)

/-- What the copies made so far amount to. -/
structure Copied (env : Env) (call : Call) (remote : Nat) (initial state : State) : Prop where
  each : ∀ copy ∈ state.copies, CopyOk env call remote initial copy
  memory : state.memory = initial.memory.move (state.copies.flatMap (Copy.moves env call))

/-- The invariant of the loop. -/
structure Progress (env : Env) (call : Call) (remote : Nat) (initial : State) (cursor : Cursor)
    (state : State) : Prop extends Copied env call remote initial state where
  vms : ∀ id, SameRanges (initial.vms id) (state.vms id)
  localDone : state.copies.flatMap (Copy.localPart call) =
    Segments.before (call.liov.map addresses) cursor.li cursor.loff
  remoteDone : state.copies.flatMap (Copy.remotePart call) =
    Segments.before (call.riov.map addresses) cursor.ri cursor.roff
  copied : (state.copies.map Copy.size).sum = cursor.copied
  loff : ∀ iov, call.liov[cursor.li]? = some iov → cursor.loff = 0 ∨ cursor.loff < iov.len
  roff : ∀ iov, call.riov[cursor.ri]? = some iov → cursor.roff = 0 ∨ cursor.roff < iov.len
  pli : cursor.pli = some cursor.li → ∀ iov, call.liov[cursor.li]? = some iov →
    Passed (initial.vms env.lvm) call.op.localProt iov
  fresh : cursor.pri = some cursor.ri ∨ cursor.roff = 0
  pri : cursor.pri = some cursor.ri → ∃ li, BeginsIn call li cursor.ri ∧
    Passed (initial.vms remote) call.op.remoteProt (call.remoteAt li)

variable {env : Env} {call : Call} {remote llen : Nat} {initial s : State} {cursor : Cursor}

theorem length_addresses (iovs : List Iovec) :
    (iovs.map addresses).flatten.length = (iovs.map Iovec.len).sum := by
  simp [List.length_flatten, addresses, comp_def]

theorem length_parts (copies : List Copy) (place : Copy → Iovec) (off : Copy → Nat) :
    (copies.flatMap fun copy => part (place copy) (off copy) copy.size).length =
      (copies.map Copy.size).sum := by
  simp [List.length_flatMap, part]

theorem Progress.length_before (progress : Progress env call remote initial cursor s) :
    (Segments.before (call.liov.map addresses) cursor.li cursor.loff).length = cursor.copied ∧
      (Segments.before (call.riov.map addresses) cursor.ri cursor.roff).length =
        cursor.copied := by
  rw [← progress.localDone, ← progress.remoteDone, ← progress.copied]
  exact ⟨length_parts _ _ _, length_parts _ _ _⟩

theorem Progress.buffers (progress : Progress env call remote initial cursor s)
    (short : cursor.copied < totalLen call.liov) (equal : totalLen call.liov = totalLen call.riov) :
    ∃ liov riov, call.liov[cursor.li]? = some liov ∧ call.riov[cursor.ri]? = some riov := by
  obtain ⟨localLength, remoteLength⟩ := progress.length_before
  have localTotal : totalLen call.liov ≤ (call.liov.map Iovec.len).sum := mod_le _ _
  have remoteTotal : totalLen call.riov ≤ (call.riov.map Iovec.len).sum := mod_le _ _
  rw [← length_addresses] at localTotal remoteTotal
  have li := index_lt (localLength.trans_lt (by omega))
  have ri := index_lt (remoteLength.trans_lt (by omega))
  rw [List.length_map] at li ri
  exact ⟨_, _, List.getElem?_eq_getElem li, List.getElem?_eq_getElem ri⟩

theorem before_advance (current : iovs[i]? = some iov) (fits : off + size ≤ iov.len) :
    Segments.before (iovs.map addresses) i off ++ part iov off size =
      Segments.before (iovs.map addresses) (nextIndex i off size iov.len)
        (nextOffset off size iov.len) := by
  have length : (addresses iov).length = iov.len := by simp [addresses]
  have segment : (iovs.map addresses)[i]? = some (addresses iov) := by
    rw [List.getElem?_map, current]
    rfl
  rw [← part_eq fits, ← before_next segment, length]

theorem nextOffset_ok (current : iovs[i]? = some iov) (fits : off + size ≤ iov.len)
    (now : iovs[nextIndex i off size iov.len]? = some next) :
    nextOffset off size iov.len = 0 ∨ nextOffset off size iov.len < next.len := by
  unfold nextIndex nextOffset at *
  split
  · exact .inl rfl
  next inside =>
    rw [if_neg inside, current] at now
    cases now
    exact .inr (by omega)

theorem length_before_position (current : iovs[i]? = some iov) (inside : off ≤ iov.len) :
    (Segments.before (iovs.map addresses) i off).length =
      ((iovs.take i).map Iovec.len).sum + off := by
  have segment : (iovs.map addresses).getD i [] = addresses iov := by
    rw [List.getD_eq_getElem?_getD, List.getElem?_map, current]
    rfl
  rw [Segments.before, List.length_append, segment, ← List.map_take, length_addresses,
    List.length_take]
  simp [addresses, inside]

/-- Where a remote buffer is started, it begins in the current local buffer. -/
theorem Progress.beginsIn (progress : Progress env call remote initial cursor s)
    (currentLocal : call.liov[cursor.li]? = some liov)
    (currentRemote : call.riov[cursor.ri]? = some riov) (inside : cursor.loff < liov.len)
    (start : cursor.roff = 0) : BeginsIn call cursor.li cursor.ri := by
  obtain ⟨localLength, remoteLength⟩ := progress.length_before
  rw [length_before_position currentLocal (by omega)] at localLength
  rw [length_before_position currentRemote (by omega)] at remoteLength
  have next : ((call.liov.take (cursor.li + 1)).map Iovec.len).sum =
      ((call.liov.take cursor.li).map Iovec.len).sum + liov.len := by
    simp [List.take_add_one, currentLocal]
  unfold BeginsIn
  omega

theorem Progress.quiet (progress : Progress env call remote initial cursor before)
    (quiet : Quiet before after) : Progress env call remote initial cursor after where
  each := quiet.copies ▸ progress.each
  memory := by rw [quiet.memory, quiet.copies, progress.memory]
  vms id := (progress.vms id).trans (quiet.vms id)
  localDone := quiet.copies ▸ progress.localDone
  remoteDone := quiet.copies ▸ progress.remoteDone
  copied := quiet.copies ▸ progress.copied
  loff := progress.loff
  roff := progress.roff
  pli := progress.pli
  fresh := progress.fresh
  pri := progress.pri

theorem Progress.copy
    (progress : Progress env call remote initial cursor before) (quiet : Quiet before after)
    (currentLocal : call.liov[cursor.li]? = some liov)
    (currentRemote : call.riov[cursor.ri]? = some riov)
    (localFits : cursor.loff + size ≤ liov.len) (remoteFits : cursor.roff + size ≤ riov.len)
    (localPassed : Passed (initial.vms env.lvm) call.op.localProt liov)
    (remotePassed : cursor.pri = some cursor.ri ∨
      Passed (initial.vms remote) call.op.remoteProt (call.remoteAt cursor.li))
    (page : env.virtToPhys time (ULong.add riov.base cursor.roff) = some (phys, psize))
    (inPage : size ≤ rpageLeft (ULong.add riov.base cursor.roff) psize) :
    Progress env call remote initial (cursor.advance size liov riov)
      (fastMemcpy env call after
        ⟨after.clock, cursor.li, cursor.loff, cursor.ri, cursor.roff, phys, size⟩) := by
  generalize same : (⟨after.clock, cursor.li, cursor.loff, cursor.ri, cursor.roff, phys, size⟩ :
    Copy) = copy
  have inside : cursor.loff < liov.len := by
    have := progress.loff liov currentLocal
    have := localPassed.len_pos
    omega
  have remoteChecked : ∃ li, BeginsIn call li cursor.ri ∧
      Passed (initial.vms remote) call.op.remoteProt (call.remoteAt li) := by
    rcases progress.fresh with known | start
    · exact progress.pri known
    rcases remotePassed with known | passed
    · exact progress.pri known
    · exact ⟨cursor.li, progress.beginsIn currentLocal currentRemote inside start, passed⟩
  have copyOk : CopyOk env call remote initial copy := by
    subst same
    refine ⟨⟨liov, currentLocal, localFits, localPassed⟩,
      ⟨riov, currentRemote, remoteFits, time, psize, page, ?_⟩, remoteChecked⟩
    have inside : ULong.add riov.base cursor.roff % psize.bytes < psize.bytes :=
      Nat.mod_lt _ (Nat.two_pow_pos _)
    rw [rpageLeft_eq psize (ULong.add_lt _ _)] at inPage
    simp only
    omega
  have localPart : copy.localPart call = part liov cursor.loff size := by
    simp [← same, Copy.localPart, currentLocal]
  have remotePart : copy.remotePart call = part riov cursor.roff size := by
    simp [← same, Copy.remotePart, currentRemote]
  have copySize : copy.size = size := by rw [← same]
  constructor
  · constructor
    · intro o member
      simp only [fastMemcpy, quiet.copies] at member ⊢
      rcases List.mem_append.mp member with earlier | now
      · exact progress.each o earlier
      · rw [List.mem_singleton.mp now]
        exact copyOk
    · simp only [fastMemcpy, quiet.copies, quiet.memory, progress.memory, List.flatMap_append,
        Mem.move_append, List.flatMap_singleton]
  · exact fun id => (progress.vms id).trans (quiet.vms id)
  · simp only [fastMemcpy, quiet.copies, List.flatMap_append, List.flatMap_singleton,
      progress.localDone, localPart]
    exact before_advance currentLocal localFits
  · simp only [fastMemcpy, quiet.copies, List.flatMap_append, List.flatMap_singleton,
      progress.remoteDone, remotePart]
    exact before_advance currentRemote remoteFits
  · simp [fastMemcpy, quiet.copies, progress.copied, copySize, Cursor.advance]
  · exact fun next now => nextOffset_ok currentLocal localFits now
  · exact fun next now => nextOffset_ok currentRemote remoteFits now
  · intro known next now
    simp only [Cursor.advance, some.injEq] at known now
    rw [← known, currentLocal] at now
    cases now
    exact localPassed
  · simp only [Cursor.advance]
    split
    · exact .inr rfl
    · exact .inl rfl
  · intro known
    simp only [Cursor.advance, some.injEq] at known
    simp only [Cursor.advance, ← known]
    exact remoteChecked

/-- The checks of all buffers pass, where a remote buffer is looked up under the index of a
local one, and the remote page table has every page. -/
structure Willing (env : Env) (call : Call) (remote : Nat) (initial : State) : Prop where
  here : ∀ iov ∈ call.liov, Passed (initial.vms env.lvm) call.op.localProt iov
  there : ∀ li < call.liov.length,
    Passed (initial.vms remote) call.op.remoteProt (call.remoteAt li)
  pages : ∀ time addr, (env.virtToPhys time addr).isSome

/-- What the copy loop comes to. -/
def Ends (env : Env) (call : Call) (remote : Nat) (initial : State) (result : Except Errno Int)
    (after : State) : Prop :=
  ∃ last, Progress env call remote initial last after ∧
    (Willing env call remote initial → ∃ value, result = .ok value) ∧
    ∀ value, result = .ok value →
      totalLen call.liov ≤ last.copied ∧ value = CInt.toInt last.copied

/-- What a call is for: the bytes copied are in ranges that allow the access, and a call that
succeeds has copied all buffers of both sides in order and returns their length. -/
structure Sound (env : Env) (call : Call) (initial : State) (result : Except Errno Int)
    (after : State) : Prop where
  here : ∀ copy ∈ after.copies, ∀ addr ∈ copy.localPart call,
    Allowed (initial.vms env.lvm) call.op.localProt addr
  there : ∀ remote, findRemote env call = .ok remote →
    ∀ copy ∈ after.copies, ∀ addr ∈ copy.remotePart call,
      Allowed (initial.vms remote) call.op.remoteProt addr
  success : ∀ value, result = .ok value → value = (call.liov.map Iovec.len).sum ∧
    after.copies.flatMap (Copy.localPart call) = (call.liov.map addresses).flatten ∧
    after.copies.flatMap (Copy.remotePart call) = (call.riov.map addresses).flatten

/-- The buffers that the checks let through are allowed as wholes, where a remote buffer is
let through with the one that has the index of the local buffer it begins in; and the length
is an `int`. -/
structure Lawful (env : Env) (call : Call) (initial : State) : Prop where
  length : (call.liov.map Iovec.len).sum < 2 ^ 31
  here : ∀ iov ∈ call.liov, Passed (initial.vms env.lvm) call.op.localProt iov →
    ∀ addr ∈ addresses iov, Allowed (initial.vms env.lvm) call.op.localProt addr
  there : ∀ remote, findRemote env call = .ok remote →
    ∀ ri iov, call.riov[ri]? = some iov →
      (∃ li, BeginsIn call li ri ∧
        Passed (initial.vms remote) call.op.remoteProt (call.remoteAt li)) →
      ∀ addr ∈ addresses iov, Allowed (initial.vms remote) call.op.remoteProt addr

/-- No byte is a target twice, or a target and a source. -/
def Apart (call : Call) (here there : Nat → Nat) : Prop :=
  let hereBytes := (call.liov.map addresses).flatten.map here
  let thereBytes := (call.riov.map addresses).flatten.map there
  (∀ byte ∈ hereBytes, byte ∉ thereBytes) ∧
    match call.op with
    | .read => hereBytes.Nodup
    | .write => thereBytes.Nodup

theorem mem_addresses (fits : off + size ≤ iov.len) (inside : addr ∈ part iov off size) :
    addr ∈ addresses iov := by
  obtain ⟨i, small, rfl⟩ := List.mem_map.mp inside
  rw [List.mem_range] at small
  exact List.mem_map.mpr ⟨off + i, List.mem_range.mpr (by omega), rfl⟩

theorem before_eq_flatten
    (long : (iovs.map Iovec.len).sum ≤ (Segments.before (iovs.map addresses) i off).length) :
    Segments.before (iovs.map addresses) i off = (iovs.map addresses).flatten := by
  rw [before_eq_take rfl, List.take_of_length_le (by rwa [length_addresses])]

section

variable (ends : Ends env call remote initial res after)
  (equal : (call.liov.map Iovec.len).sum = (call.riov.map Iovec.len).sum)
include ends equal

/-- A call of less than 2 GiB that succeeds has copied everything. -/
theorem Ends.success (small : (call.liov.map Iovec.len).sum < 2 ^ 31)
    (returned : res = .ok value) : value = (call.liov.map Iovec.len).sum ∧
      after.copies.flatMap (Copy.localPart call) = (call.liov.map addresses).flatten ∧
      after.copies.flatMap (Copy.remotePart call) = (call.riov.map addresses).flatten := by
  obtain ⟨last, progress, -, success⟩ := ends
  obtain ⟨localLength, remoteLength⟩ := progress.length_before
  obtain ⟨enough, valueEq⟩ := success value returned
  rw [totalLen, mod_eq_of_lt (by omega)] at enough
  have whole : last.copied ≤ (call.liov.map Iovec.len).sum := by
    rw [← localLength, ← length_addresses]
    exact before_prefix.length_le
  rw [progress.localDone, progress.remoteDone, valueEq, le_antisymm whole enough,
    CInt.toInt_of_range (by omega) (by omega)]
  exact ⟨rfl, before_eq_flatten (by omega), before_eq_flatten (by omega)⟩

theorem Ends.sound (found : findRemote env call = .ok remote)
    (lawful : Lawful env call initial) : Sound env call initial res after := by
  have success := fun value (returned : res = .ok value) =>
    ends.success equal lawful.length returned
  obtain ⟨last, progress, -, -⟩ := ends
  refine ⟨?_, ?_, success⟩
  · intro copy member addr inside
    obtain ⟨iov, current, fits, passed⟩ := (progress.each copy member).liov
    simp only [Copy.localPart, List.getD_eq_getElem?_getD, current, getD_some] at inside
    exact lawful.here iov (List.mem_of_getElem? current) passed addr (mem_addresses fits inside)
  · intro o again copy member addr inside
    obtain rfl : remote = o := Except.ok.inj (found.symm.trans again)
    obtain ⟨iov, current, fits, -⟩ := (progress.each copy member).riov
    simp only [Copy.remotePart, List.getD_eq_getElem?_getD, current, getD_some] at inside
    exact lawful.there remote found copy.ri iov current (progress.each copy member).checked addr
      (mem_addresses fits inside)

end

/-- When nothing stops the call, every byte is copied, so that every byte has to be allowed. -/
theorem Ends.lawful (ends : Ends env call remote initial res after)
    (willing : Willing env call remote initial)
    (sound : Sound env call initial res after) : Lawful env call initial := by
  obtain ⟨last, progress, succeeds, success⟩ := ends
  obtain ⟨value, returned⟩ := succeeds willing
  obtain ⟨isLength, localWhole, remoteWhole⟩ := sound.success value returned
  refine ⟨?_, fun iov member _ addr inside => ?_, fun o again ri iov current _ addr inside => ?_⟩
  · have isInt := (success value returned).2
    have upper : CInt.toInt last.copied < 2 ^ 31 := Int.bmod_lt (by decide)
    omega
  · have copied : addr ∈ after.copies.flatMap (Copy.localPart call) := by
      rw [localWhole]
      exact List.mem_flatten_of_mem (List.mem_map_of_mem member) inside
    obtain ⟨copy, isCopy, inCopy⟩ := List.mem_flatMap.mp copied
    exact sound.here copy isCopy addr inCopy
  · have copied : addr ∈ after.copies.flatMap (Copy.remotePart call) := by
      rw [remoteWhole]
      exact List.mem_flatten_of_mem (List.mem_map_of_mem (List.mem_of_getElem? current)) inside
    obtain ⟨copy, isCopy, inCopy⟩ := List.mem_flatMap.mp copied
    exact sound.there o again copy isCopy addr inCopy

section

variable {here there : Nat → Nat} {copy : Copy}

end

theorem Progress.start (quiet : Quiet { initial with copies := [] } s) :
    Progress env call remote initial startCursor s where
  each := by simp [quiet.copies]
  memory := by simp [quiet.copies, quiet.memory]
  vms := quiet.vms
  localDone := by simp [quiet.copies, startCursor]
  remoteDone := by simp [quiet.copies, startCursor]
  copied := by simp [quiet.copies, startCursor]
  loff _ _ := .inl rfl
  roff _ _ := .inl rfl
  pli := by simp [startCursor]
  fresh := .inr rfl
  pri := by simp [startCursor]

/-- An address space with three ranges: one with all permissions, one that is read-only, and
a large one again with all permissions. -/
def threeRanges : ProcessVm where
  ranges := fun range =>
    if range = 1 then ⟨0x400000, 0x401000, 0x72000, 0, 0, 0, 12, 0⟩
    else if range = 2 then ⟨0x401000, 0x402000, 0x12000, 0, 0, 0, 12, 0⟩
    else ⟨0x40000000, 0x200000000, 0x72000, 0, 0, 0, 12, 0⟩
  vmRangeTree := .node .black (.node .red .nil 1 .nil) 2 (.node .red .nil 3 .nil)
  rangeCache := [none, none, none, none]
  rangeCacheInd := 0
  region := ⟨0x200000, 0x800000000000, 0, 0, 0, 0x200000000⟩
  straightVa := 0
  straightLen := 0
  heapExtension := 0
  clock := 0

def twoProcesses (psize : PageSize) : Env where
  lvm := 0
  lcred := ⟨1, 1, 1, 1, 1, 1⟩
  rproc := some ⟨false, ⟨1, 1, 1, 1, 1, 1⟩, 1⟩
  virtToPhys _ addr := some (0x1000000000 + addr, psize)
  pageFault _ := false
  localPhys _ addr := addr

def numbered : State where
  vms _ := threeRanges
  memory addr := UInt8.ofNat addr
  clock := 0
  copies := []

def served (psize : PageSize) (call : Call) (fuel : Nat) : Option (Option Int × Bool) :=
  (doProcessVmReadWritev (twoProcesses psize) call fuel numbered).map fun returned =>
    (returned.1.toOption, decide (∀ copy ∈ returned.2.copies, ∀ addr ∈ copy.remotePart call,
      Allowed threeRanges call.op.remoteProt addr))

end McKernel.ReadWritev
