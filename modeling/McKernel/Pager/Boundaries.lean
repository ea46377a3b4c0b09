import McKernel.Lib.Errno

/-!
# The ends of a file

`pager_req_read` and `pager_req_write` of `executer/kernel/mcctrl/syscall.c` for one page.  What
`kernel_read` and `kernel_write` transfer is up to the host, and so is the mapping of the page.
The results are of type `int`, which the size of a page fits.
-/

namespace McKernel.Pager

open Errno

variable {α : Type} [Zero α]

/-- A file, with `i_size_read`. -/
structure File (α : Type) where
  size : Nat
  byte : Nat → α

/-- The file of a pager, if its handle is known, and the functions of the host.  The two
transfers return how many bytes they have moved, or an error. -/
structure Host (α : Type) where
  file : Option (File α)
  /-- There is no `rwfile`. -/
  readOnly : Bool
  /-- `/dev/mem` or `/dev/zero`. -/
  device : Bool
  mapped : Bool
  kernelRead : (pos count : Nat) → Int
  kernelWrite : (pos count : Nat) → Int

/-- `count` bytes from `start` on are replaced. -/
def overwrite (buffer : Nat → α) (start count : Nat) (bytes : Nat → α) : Nat → α :=
  fun index => if start ≤ index ∧ index < start + count then bytes (index - start) else buffer index

/-- The loop of `pager_req_read`, with the result `ss` and the page.  After every transfer the
position is `off + n`. -/
def readLoop (host : Host α) (file : File α) (off size : Nat) :
    Nat → Nat → (Nat → α) → Int × (Nat → α)
  | 0, n, buf => (n, buf)
  | rounds + 1, n, buf =>
    if n < size then
      let ss := host.kernelRead (off + n) (size - n)
      if ss < 0 then (ss, buf)
      else if ss = 0 then (size, overwrite buf n (size - n) fun _ => 0)
      else
        readLoop host file off size rounds (n + ss.toNat)
          (overwrite buf n ss.toNat fun index => file.byte (off + n + index))
    else (n, buf)

def pagerReqRead (host : Host α) (off size : Nat) (page : Nat → α) : Int × (Nat → α) :=
  match host.file with
  | none => (EBADF.code, page)
  | some file =>
    if ¬host.device ∧ file.size < off then (0, page)
    else if host.mapped then readLoop host file off size size 0 page
    else (EINVAL.code, page)

/-- The result and the file afterwards; a write behind its end extends it. -/
def pagerReqWrite (host : Host α) (off size : Nat) (page : Nat → α) : Int × Option (File α) :=
  match host.file with
  | none => (EBADF.code, none)
  | some file =>
    if host.readOnly then (EBADF.code, file)
    else if file.size ≤ off then (0, file)
    else if host.mapped then
      let len := if file.size < off + size then file.size - off else size
      let ss := host.kernelWrite off len
      (ss, some ⟨max file.size (off + ss.toNat), overwrite file.byte off ss.toNat page⟩)
    else (EINVAL.code, file)

/-- The usual transfers: something where there is something, but not always everything. -/
structure Usual (host : Host α) (file : File α) : Prop where
  isFile : host.file = some file
  mapped : host.mapped = true
  read : ∀ pos count, pos < file.size → 0 < count →
    0 < host.kernelRead pos count ∧ host.kernelRead pos count ≤ count ∧
      host.kernelRead pos count ≤ (file.size - pos : Nat)
  ended : ∀ pos count, file.size ≤ pos → host.kernelRead pos count = 0
  write : ∀ pos count, 0 ≤ host.kernelWrite pos count ∧ host.kernelWrite pos count ≤ count

/-- The bytes of the file in a page, with zeros behind its end. -/
def Holds (file : File α) (off : Nat) (page : Nat → α) (size : Nat) : Prop :=
  ∀ index < size, page index = if off + index < file.size then file.byte (off + index) else 0

/-- Data below the end of the file, and the end of the file elsewhere; exactly the bytes of the
page below the end are written, and writing back what was read changes nothing. -/
structure Bounded (host : Host α) (file : File α) (off size : Nat) (page : Nat → α) : Prop where
  data : off < file.size → (pagerReqRead host off size page).1 = size ∧
    Holds file off (pagerReqRead host off size page).2 size
  ended : file.size ≤ off → (pagerReqRead host off size page).1 = 0
  count : (pagerReqWrite host off size page).1 = (min size (file.size - off) : Nat)
  written : (pagerReqWrite host off size page).2 =
    some ⟨file.size, overwrite file.byte off (min size (file.size - off)) page⟩
  back : (pagerReqWrite host off size (pagerReqRead host off size page).2).2 = some file

variable {host : Host α} {file : File α} {off size : Nat} {page : Nat → α}

omit [Zero α] in
theorem overwrite_same {buffer bytes : Nat → α} {start count : Nat}
    (same : ∀ i, start ≤ i ∧ i < start + count → bytes (i - start) = buffer i) :
    overwrite buffer start count bytes = buffer := by
  funext i
  rw [overwrite]
  split
  next inside => exact same i inside
  · rfl

/-- The loop goes on over short reads until the page is full or the file ends. -/
theorem readLoop_spec (usual : Usual host file) (rounds n : Nat) (buf : Nat → α)
    (enough : size ≤ n + rounds) (before : n ≤ size) (start : Holds file off buf n) :
    (readLoop host file off size rounds n buf).1 = size ∧
      Holds file off (readLoop host file off size rounds n buf).2 size := by
  induction rounds generalizing n buf with
  | zero =>
    obtain rfl : n = size := by omega
    exact ⟨rfl, start⟩
  | succ rounds ih =>
    rw [readLoop]
    split
    next more =>
      rcases Nat.lt_or_ge (off + n) file.size with below | beyond
      · obtain ⟨pos, bounded, available⟩ := usual.read (off + n) (size - n) below (by omega)
        obtain ⟨count, isCount⟩ := Int.eq_ofNat_of_zero_le pos.le
        rw [isCount] at pos bounded available
        simp only [isCount, not_lt.mpr (Int.natCast_nonneg count), if_false, pos.ne',
          Int.toNat_natCast]
        refine ih (n + count) _ (by omega) (by omega) fun i inside => ?_
        rw [overwrite]
        split
        · rw [if_pos (by omega), show off + n + (i - n) = off + i by omega]
        · exact start i (by omega)
      · simp only [usual.ended _ _ beyond, lt_self_iff_false, if_false, if_true]
        refine ⟨trivial, fun i inside => ?_⟩
        rw [overwrite]
        split
        · rw [if_neg (by omega)]
        · exact start i (by omega)
    next done =>
      obtain rfl : n = size := by omega
      exact ⟨rfl, start⟩

theorem pagerReqRead_spec (usual : Usual host file)
    (inside : host.device = true ∨ off ≤ file.size) :
    (pagerReqRead host off size page).1 = size ∧
      Holds file off (pagerReqRead host off size page).2 size := by
  rw [pagerReqRead, usual.isFile]
  simp only [usual.mapped, if_true]
  rw [if_neg (by rintro ⟨file, behind⟩; simp_all; omega)]
  exact readLoop_spec usual size 0 page (by omega) (by omega) nofun

omit [Zero α] in
theorem pagerReqWrite_eq (usual : Usual host file) (writable : host.readOnly = false)
    (below : off < file.size) :
    pagerReqWrite host off size page =
      (host.kernelWrite off (min size (file.size - off)),
        some ⟨file.size, overwrite file.byte off
          (host.kernelWrite off (min size (file.size - off))).toNat page⟩) := by
  have len : (if file.size < off + size then file.size - off else size) =
      min size (file.size - off) := by
    split <;> omega
  obtain ⟨pos, bounded⟩ := usual.write off (min size (file.size - off))
  rw [pagerReqWrite, usual.isFile]
  simp only [writable, below.not_ge, Bool.false_eq_true, if_false, usual.mapped, if_true, len]
  rw [max_eq_left (by omega)]

/-- `pager_req_read` compares with `>` where `pager_req_write` compares with `>=`, and does not
look at the size of a device; `pager_req_write` does not go on after a short write. -/
theorem pager_boundaries_iff (usual : Usual host file) (positive : 0 < size) :
    Bounded host file off size page ↔ host.readOnly = false ∧
      off ≠ file.size ∧ (host.device = true → off < file.size) ∧
      (off < file.size → host.kernelWrite off (min size (file.size - off)) =
        (min size (file.size - off) : Nat)) := by
  constructor
  · intro bounded
    have reads (beyond : file.size ≤ off) (inside : host.device = true ∨ off ≤ file.size) :
        False := by
      have data : (pagerReqRead host off size page).1 = size := (pagerReqRead_spec usual inside).1
      rw [bounded.ended beyond] at data
      omega
    have writable : host.readOnly = false := by
      have count := bounded.count
      by_contra readOnly
      rw [pagerReqWrite, usual.isFile] at count
      simp only [Bool.not_eq_false _ ▸ readOnly, if_true, code] at count
      omega
    refine ⟨writable, fun same => reads same.ge (.inr same.le), fun device => ?_, fun below => ?_⟩
    · by_contra beyond
      exact reads (by omega) (.inl device)
    · have count := bounded.count
      rwa [pagerReqWrite_eq usual writable below] at count
  · rintro ⟨writable, different, device, full⟩
    rcases Nat.lt_or_ge off file.size with below | beyond
    · have read : _ ∧ Holds file off (pagerReqRead host off size page).2 size :=
        pagerReqRead_spec usual (.inr below.le)
      have write (page : Nat → α) : pagerReqWrite host off size page =
          (((min size (file.size - off) : Nat) : Int),
            some ⟨file.size, overwrite file.byte off (min size (file.size - off)) page⟩) := by
        rw [pagerReqWrite_eq usual writable below, full below, Int.toNat_natCast]
      refine ⟨fun _ => read, fun beyond => absurd below (by omega), by rw [write],
        by rw [write], ?_⟩
      rw [write, overwrite_same fun index inside => ?_]
      rw [read.2 (index - off) (by omega), if_pos (by omega), Nat.add_sub_cancel' inside.1]
    · have plain : host.device = false := by
        by_contra isDevice
        exact absurd (device (by simpa using isDevice)) (by omega)
      have unread : pagerReqRead host off size page = (0, page) := by
        simp [pagerReqRead, usual.isFile, plain, show file.size < off by omega]
      have unwritten (page : Nat → α) : pagerReqWrite host off size page = (0, some file) := by
        simp [pagerReqWrite, usual.isFile, writable, beyond]
      have nothing : min size (file.size - off) = 0 := by omega
      refine ⟨fun below => absurd below (by omega), fun _ => by rw [unread],
        by rw [unwritten, nothing]; rfl, ?_, by rw [unwritten]⟩
      rw [unwritten, nothing, overwrite_same fun index inside => absurd inside (by omega)]

/-- A file of two bytes, read and written one byte at a time where the page is longer. -/
def twoBytes : Host Nat where
  file := some ⟨2, fun index => index + 7⟩
  readOnly := false
  device := false
  mapped := true
  kernelRead pos count := if pos < 2 then min count 1 else 0
  kernelWrite _ count := count

theorem usual_twoBytes : Usual twoBytes ⟨2, fun i => i + 7⟩ where
  isFile := rfl
  mapped := rfl
  read pos count := by
    intro below some
    have below : pos < 2 := below
    simp only [twoBytes, below, if_true]
    omega
  ended pos count beyond := if_neg (not_lt.mpr beyond)
  write pos count := ⟨Int.natCast_nonneg _, le_refl _⟩

theorem pager_boundaries_iff_two : Bounded twoBytes ⟨2, fun index => index + 7⟩ 0 4096 fun _ => 1 :=
  (pager_boundaries_iff usual_twoBytes (by decide)).mpr
    ⟨rfl, by decide, nofun, fun _ => rfl⟩

/-- The page at the end of a file of one page is read as a page of zeros. -/
theorem page_at_end_is_data :
    ∃ host : Host Nat, ∃ file, Usual host file ∧ host.device = false ∧ file.size = 4096 ∧
      (pagerReqRead host 4096 4096 fun _ => 1).1 = 4096 ∧
      ¬Bounded host file 4096 4096 fun _ => 1 := by
  let host : Host Nat := ⟨some ⟨4096, fun _ => 7⟩, false, false, true,
    fun pos count => (min count (4096 - pos) : Nat), fun _ count => count⟩
  have usual : Usual host ⟨4096, fun _ => 7⟩ :=
    ⟨rfl, rfl, fun pos count below some => by simp only [host]; simp only at below; omega,
      fun pos count beyond => by simp only [host]; simp only at beyond; omega,
      fun pos count => ⟨Int.natCast_nonneg _, le_refl _⟩⟩
  have read : (pagerReqRead host 4096 4096 fun _ => 1).1 = 4096 :=
    (pagerReqRead_spec usual (.inr (le_refl 4096))).1
  refine ⟨host, _, usual, rfl, rfl, read, fun bounded => ?_⟩
  have ended := bounded.ended (le_refl 4096)
  cases ended

end McKernel.Pager
