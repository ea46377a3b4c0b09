import McKernel.ExecArgs.Model

/-!
# Arguments arrive as they were sent

A block carries a list of strings if each of its offsets leads to the characters of a string.
Merging a block with further strings keeps that, and so does the relocation, so that every
pointer on the new stack leads to its string.
-/

namespace McKernel.ExecArgs

open List Function Nat

def joined (strings : List Str) : List UInt8 := strings.flatMap Str.bytes

@[simp] theorem joined_nil : joined [] = [] := rfl

@[simp] theorem joined_cons (string : Str) (rest : List Str) :
    joined (string :: rest) = string.bytes ++ joined rest := rfl

@[simp] theorem joined_append (front back : List Str) :
    joined (front ++ back) = joined front ++ joined back := by
  simp [joined]

@[simp] theorem length_bytes (string : Str) : string.bytes.length = string.chars.length + 1 := by
  simp [Str.bytes]

def offsets : List Str → Nat → List Nat
  | [], _ => []
  | string :: rest, place => place :: offsets rest (place + string.bytes.length)

@[simp] theorem length_offsets (strings : List Str) (place : Nat) :
    (offsets strings place).length = strings.length := by
  induction strings generalizing place with
  | nil => rfl
  | cons string rest ih => simp [offsets, ih]

theorem offsets_append (front back : List Str) (place : Nat) :
    offsets (front ++ back) place =
      offsets front place ++ offsets back (place + (joined front).length) := by
  induction front generalizing place with
  | nil => simp [offsets]
  | cons string rest ih => simp [offsets, ih, add_assoc]

theorem map_add_offsets (strings : List Str) (place shift : Nat) :
    (offsets strings place).map (· + shift) = offsets strings (place + shift) := by
  induction strings generalizing place with
  | nil => rfl
  | cons string rest ih =>
    simp only [offsets, map_cons, ih]
    rw [add_right_comm]

theorem getElem?_offsets {strings : List Str} {i : Nat} {string : Str}
    (found : strings[i]? = some string) (place : Nat) :
    ∃ front back, joined strings = front ++ string.bytes ++ back ∧
      (offsets strings place)[i]? = some (place + front.length) := by
  induction strings generalizing place i with
  | nil => simp at found
  | cons head rest ih =>
    cases i with
    | zero =>
      cases found
      exact ⟨[], joined rest, by simp, by simp [offsets]⟩
    | succ i =>
      obtain ⟨front, back, parts, offset⟩ := ih found (place + head.bytes.length)
      refine ⟨head.bytes ++ front, back, by simp [parts], ?_⟩
      rw [offsets, getElem?_cons_succ, offset, length_append, add_assoc]

theorem copyStrings_eq (strings : List Str) (place : Nat) :
    copyStrings strings place =
      (offsets strings place, joined strings, place + (joined strings).length) := by
  induction strings generalizing place with
  | nil => simp [copyStrings, offsets]
  | cons string rest ih => simp [copyStrings, offsets, ih, add_assoc]

/-! ## Blocks -/

/-- The block is what flattening the strings gives. -/
structure Represents (flat : Flat) (strings : List Str) : Prop where
  words : flat.words = strings.length :: (offsets strings (wordSize * (strings.length + 2)) ++
    [wordSize * (strings.length + 2) + (joined strings).length])
  chars : flat.chars = joined strings

namespace Represents

variable {flat : Flat} {strings : List Str} (represents : Represents flat strings)

include represents

theorem length_words : flat.words.length = strings.length + 2 := by
  simp [represents.words]

theorem count : flat.count = strings.length := by
  simp [Flat.count, Flat.word, represents.words]

theorem offset (inside : i < strings.length) :
    flat.word (i + 1) =
      (offsets strings (wordSize * (strings.length + 2))).getD i 0 := by
  rw [Flat.word, represents.words, getD_cons_succ, getD_append]
  simpa using inside

theorem charsLen : flat.charsLen = (joined strings).length := by
  have last : flat.word (strings.length + 1) =
      wordSize * (strings.length + 2) + (joined strings).length := by
    rw [Flat.word, represents.words, getD_cons_succ, getD_append_right _ _ _ _ (by simp)]
    simp
  rw [Flat.charsLen, represents.count, last, Nat.add_sub_cancel_left]

theorem charsFrom_first : flat.charsFrom (flat.word 1) flat.charsLen = joined strings := by
  rw [Flat.charsFrom, represents.charsLen, represents.chars, represents.length_words]
  cases strings with
  | nil => simp
  | cons string rest =>
    have first : flat.word (0 + 1) = _ := represents.offset (zero_lt_succ rest.length)
    have start : flat.word 1 - wordSize * ((string :: rest).length + 2) = 0 := by
      rw [first]
      simp [offsets]
    rw [start, drop_zero, take_length]

end Represents

theorem represents_flatten (strings : List Str) : Represents (flatten none strings) strings := by
  constructor
  · simp [flatten, copyStrings_eq]
  · simp [flatten, copyStrings_eq]

theorem Represents.flatten (represents : Represents pre front) (strings : List Str) :
    Represents (ExecArgs.flatten (some pre) strings) (front ++ strings) := by
  have preOffsets : (range front.length).map (fun i =>
      pre.word (i + 1) + strings.length * wordSize) =
        offsets front (wordSize * (front.length + (strings.length + 2))) := by
    have shifted := map_add_offsets front (wordSize * (front.length + 2))
      (strings.length * wordSize)
    have place : wordSize * (front.length + 2) + strings.length * wordSize =
        wordSize * (front.length + (strings.length + 2)) := by
      simp only [wordSize]
      omega
    rw [place] at shifted
    rw [← shifted]
    refine ext_getElem (by simp) fun i inLeft inRight => ?_
    have inside : i < front.length := by simpa using inLeft
    simp only [getElem_map, getElem_range]
    rw [represents.offset inside, getD_eq_getElem _ _ (by simpa using inside)]
  have swapped : strings.length + front.length = front.length + strings.length := add_comm _ _
  constructor
  · simp only [ExecArgs.flatten, Option.map_some, Option.getD_some, copyStrings_eq,
      represents.count, represents.charsLen, swapped, length_append, offsets_append,
      joined_append, append_assoc, add_assoc, preOffsets]
  · simp [ExecArgs.flatten, copyStrings_eq, represents.charsFrom_first]

/-- The flat block holds the strings, with offsets to them. -/
structure Carries (flat : Flat) (strings : List Str) : Prop where
  words : flat.words.length = strings.length + 2
  count : flat.count = strings.length
  chars : flat.chars = joined strings
  offset : ∀ (index : Nat) (string : Str), strings[index]? = some string →
    ∃ front back, flat.chars = front ++ string.bytes ++ back ∧
      flat.word (index + 1) = wordSize * flat.words.length + front.length

variable {back chars : List UInt8} {flat : Flat} {offset : Nat}

theorem Represents.carries {strings : List Str}
    (represents : Represents flat strings) : Carries flat strings where
  words := represents.length_words
  count := represents.count
  chars := represents.chars
  offset i string found := by
    obtain ⟨inside, _⟩ := List.getElem?_eq_some_iff.mp found
    obtain ⟨front, back, parts, offset⟩ :=
      getElem?_offsets found (wordSize * (strings.length + 2))
    refine ⟨front, back, by rw [represents.chars, parts], ?_⟩
    rw [represents.offset inside, getD_eq_getElem?_getD, offset, represents.length_words]
    rfl

theorem carries_null : Carries ⟨[0, 0], []⟩ [] where
  words := rfl
  count := rfl
  chars := rfl
  offset i string found := by simp at found

/-! ## Reading the pages -/

theorem readString_of_bytes {prepared : Prepared} (noNul : 0 ∉ chars)
    (inside : offset + chars.length < pageSize * prepared.argenvPageCount)
    (bytes : ∀ i, i ≤ chars.length →
      prepared.pageByte (offset + i) = (chars ++ [0]).getD i 0) :
    prepared.readString (chars.length + 1) (prepared.addr + offset) = some chars := by
  induction chars generalizing offset with
  | nil =>
    have nul := bytes 0 (le_refl 0)
    have readable : ¬(prepared.addr + offset < prepared.addr ∨
        prepared.addr + pageSize * prepared.argenvPageCount ≤ prepared.addr + offset) := by
      omega
    simp only [add_zero, nil_append, getD_cons_zero] at nul
    rw [length_nil, Prepared.readString, if_neg readable]
    simp [nul]
  | cons char rest ih =>
    rw [mem_cons, not_or] at noNul
    have first := bytes 0 (zero_le _)
    simp only [add_zero, cons_append, getD_cons_zero] at first
    have readable : ¬(prepared.addr + offset < prepared.addr ∨
        prepared.addr + pageSize * prepared.argenvPageCount ≤ prepared.addr + offset) := by
      omega
    have notNul : char ≠ 0 := fun same => noNul.1 same.symm
    have tail : prepared.readString (rest.length + 1) (prepared.addr + (offset + 1)) =
        some rest := by
      refine ih noNul.2 ?_ ?_
      · simp only [length_cons] at inside
        omega
      · intro i bound
        have next := bytes (i + 1) (by simpa using bound)
        have place : offset + 1 + i = offset + (i + 1) := by omega
        rw [place, next]
        rfl
    rw [length_cons, Prepared.readString, if_neg readable]
    simp only [Nat.add_sub_cancel_left, first, notNul, if_false]
    rw [Nat.add_assoc, tail]
    rfl

section Prepare

variable {args envs : Flat} {argStrings envStrings : List Str}
variable {mapStart argsInPage envsInPage : Nat}

theorem len_le_alignLong (len : Nat) : len ≤ alignLong len := by
  simp only [alignLong, wordSize]
  omega

theorem alignLong_le_pages (inPage len : Nat) : alignLong len ≤ pageSize * pagesFor inPage len := by
  simp only [alignLong, pagesFor, pageSize, wordSize]
  omega

theorem blocks_inside (args envs : Flat) (mapStart argsInPage envsInPage : Nat) :
    (prepare mapStart argsInPage envsInPage args envs).envsOffset + alignLong envs.len ≤
      pageSize * (prepare mapStart argsInPage envsInPage args envs).argenvPageCount := by
  have argsFit := alignLong_le_pages argsInPage args.len
  have envsFit := alignLong_le_pages envsInPage envs.len
  simp only [prepare, mul_add]
  omega

theorem pageByte_args (inside : offset < alignLong args.len) :
    (prepare mapStart argsInPage envsInPage args envs).pageByte offset = args.byte offset :=
  if_pos inside

theorem pageByte_envs (offset : Nat) :
    (prepare mapStart argsInPage envsInPage args envs).pageByte (alignLong args.len + offset) =
      envs.byte offset := by
  have beyond : ¬alignLong args.len + offset < alignLong args.len := by omega
  have byte : (prepare mapStart argsInPage envsInPage args envs).pageByte
      (alignLong args.len + offset) =
        envs.byte (alignLong args.len + offset - alignLong args.len) := if_neg beyond
  rw [byte, Nat.add_sub_cancel_left]

theorem byte_of_parts (parts : flat.chars = front ++ (chars ++ [0]) ++ back)
    (bound : i ≤ chars.length) :
    flat.byte (wordSize * flat.words.length + front.length + i) =
      (chars ++ [0]).getD i 0 := by
  have place : wordSize * flat.words.length + front.length + i -
      wordSize * flat.words.length = front.length + i := by omega
  have below : ¬wordSize * flat.words.length + front.length + i <
      wordSize * flat.words.length := by omega
  rw [Flat.byte, if_neg below, place, parts, append_assoc,
    getD_append_right _ _ _ _ (by omega), Nat.add_sub_cancel_left]
  exact getD_append _ _ _ _ (by simp only [length_append, length_singleton]; omega)

theorem end_of_parts (parts : flat.chars = front ++ (chars ++ [0]) ++ back) :
    wordSize * flat.words.length + front.length + chars.length < flat.len := by
  simp only [Flat.len, parts, length_append, length_singleton]
  omega

/-- The pointers lead to the strings. -/
structure Readable (prepared : Prepared) (pointers : List Nat) (strings : List Str) : Prop where
  length : pointers.length = strings.length
  each : ∀ (index : Nat) (string : Str), strings[index]? = some string →
    ∃ pointer, pointers[index]? = some pointer ∧
      ∃ fuel, prepared.readString fuel pointer = some string.chars

/-- Pointers into a block that lies in the pages lead to its strings. -/
theorem readable_of_carries {prepared : Prepared} {strings : List Str} {base : Nat}
    (carries : Carries flat strings)
    (bytes : ∀ place, place < flat.len → prepared.pageByte (base + place) = flat.byte place)
    (fits : base + flat.len ≤ pageSize * prepared.argenvPageCount) :
    Readable prepared ((range flat.count).map fun i =>
      prepared.addr + base + flat.word (i + 1)) strings where
  length := by simp [carries.count]
  each i string found := by
    obtain ⟨inside, _⟩ := List.getElem?_eq_some_iff.mp found
    obtain ⟨front, back, parts, offset⟩ := carries.offset i string found
    have bound := end_of_parts parts
    refine ⟨prepared.addr + base + flat.word (i + 1), by simp [carries.count, inside],
      string.chars.length + 1, ?_⟩
    rw [offset, add_assoc]
    refine readString_of_bytes string.noNul (by omega) fun place bounded => ?_
    rw [add_assoc, bytes _ (by omega)]
    exact byte_of_parts parts bounded

theorem readable_argv (carries : Carries args argStrings) :
    Readable (prepare mapStart argsInPage envsInPage args envs)
      (prepare mapStart argsInPage envsInPage args envs).argv argStrings := by
  have aligned := len_le_alignLong args.len
  have fits := blocks_inside args envs mapStart argsInPage envsInPage
  refine @readable_of_carries _ _ _ 0 carries (fun place inside => ?_) ?_
  · rw [zero_add, pageByte_args (lt_of_lt_of_le inside aligned)]
  · simp only [prepare] at fits ⊢
    omega

theorem readable_env (carries : Carries envs envStrings) :
    Readable (prepare mapStart argsInPage envsInPage args envs)
      (prepare mapStart argsInPage envsInPage args envs).env envStrings := by
  have aligned := len_le_alignLong envs.len
  have fits := blocks_inside args envs mapStart argsInPage envsInPage
  refine readable_of_carries carries (fun place _ => pageByte_envs place) ?_
  simp only [prepare] at fits ⊢
  omega

theorem savedCmdline_eq (carries : Carries args argStrings) :
    (prepare mapStart argsInPage envsInPage args envs).savedCmdline = joined argStrings := by
  have place : (argStrings.length + 2) * wordSize - wordSize * args.words.length = 0 := by
    rw [carries.words, Nat.mul_comm, Nat.sub_self]
  have length : args.len - (argStrings.length + 2) * wordSize = args.chars.length := by
    rw [Flat.len, carries.words, Nat.mul_comm, Nat.add_sub_cancel_left]
  simp only [prepare, carries.count, Flat.charsFrom, place, length, drop_zero,
    take_length, carries.chars]

end Prepare

/-! ## The stack -/

@[simp] theorem pushAll_eq (words frame : List Nat) : pushAll words frame = words ++ frame := by
  induction words with
  | nil => rfl
  | cons word rest ih => simp [pushAll] at ih ⊢

def frameWords (stackTop : Nat) (auxv : List Nat) (argc envc : Nat) : Nat :=
  populatedWords argc envc auxv +
    alignPadding (stackTop - wordSize * populatedWords argc envc auxv) 8 0

theorem initProcessStack_eq (stackTop : Nat) (auxv argv env : List Nat) (argc envc : Nat) :
    ∃ rest, initProcessStack stackTop auxv argc argv envc env =
      argc :: (argv ++ 0 :: (env ++ 0 :: rest)) := by
  refine ⟨auxv ++ ([0x010101011, 0x010101011] ++ replicate (alignPadding
    (stackTop - wordSize * populatedWords argc envc auxv) 8 0) 0), ?_⟩
  simp only [initProcessStack, pushAll_eq]

theorem length_initProcessStack (stackTop : Nat) (auxv argv env : List Nat) :
    (initProcessStack stackTop auxv argv.length argv env.length env).length =
      frameWords stackTop auxv argv.length env.length := by
  simp only [initProcessStack, pushAll_eq, frameWords, populatedWords, length_cons,
    length_append, length_replicate, length_nil]
  omega

/-- The new program gets the strings. -/
structure RoundTrip (prepared : Prepared) (frame : List Nat) (minsz : Nat)
    (args envs : List Str) : Prop where
  pushed : ∃ rest, frame = args.length :: (prepared.argv ++ 0 :: (prepared.env ++ 0 :: rest))
  stack : wordSize * frame.length ≤ minsz
  argv : Readable prepared prepared.argv args
  env : Readable prepared prepared.env envs
  inside : prepared.envsOffset + alignLong prepared.envs.len ≤ pageSize * prepared.argenvPageCount
  cmdline : prepared.savedCmdline = joined args

theorem carries_argsBlock (given : sender = .user → argv = none → pre.getD [] = []) :
    Carries (argsBlock sender pre argv) (pre.getD [] ++ argv.getD []) := by
  have merged (strings : List Str) :
      Carries (flatten (pre.map (flattenStrings none)) strings) (pre.getD [] ++ strings) := by
    cases pre with
    | none => exact (represents_flatten strings).carries
    | some front => exact ((represents_flatten front).flatten strings).carries
  cases sender with
  | mcexec => exact merged (argv.getD [])
  | user =>
    cases argv with
    | none =>
      rw [given rfl rfl]
      exact carries_null
    | some strings => exact merged strings

theorem carries_envsBlock (sender : Sender) (envp : Option (List Str)) :
    Carries (envsBlock sender envp) (envp.getD []) := by
  cases sender with
  | mcexec => exact (represents_flatten (envp.getD [])).carries
  | user =>
    cases envp with
    | none => exact carries_null
    | some strings => exact (represents_flatten strings).carries

/-- The new program gets exactly the strings that were sent, unless a process calls `execve`
of a script without an array of arguments or the pointers do not fit into the stack that is
mapped at the start. -/
theorem exec_round_trip_iff (sender : Sender) (pre argv envp : Option (List Str))
    (mapStart argsInPage envsInPage stackTop minsz : Nat) (auxv : List Nat) :
    let prepared := prepare mapStart argsInPage envsInPage (argsBlock sender pre argv)
      (envsBlock sender envp)
    let frame := initProcessStack stackTop auxv prepared.argc prepared.argv prepared.envc
      prepared.env
    RoundTrip prepared frame minsz (pre.getD [] ++ argv.getD []) (envp.getD []) ↔
      (sender = .user → argv = none → pre.getD [] = []) ∧
        wordSize * frameWords stackTop auxv (pre.getD [] ++ argv.getD []).length
          (envp.getD []).length ≤ minsz := by
  intro prepared frame
  have envCarries := carries_envsBlock sender envp
  have size (given : sender = .user → argv = none → pre.getD [] = []) :
      frame.length = frameWords stackTop auxv (pre.getD [] ++ argv.getD []).length
        (envp.getD []).length := by
    have argCarries := carries_argsBlock given
    have argc : prepared.argc = prepared.argv.length := by simp [prepared, prepare]
    have envc : prepared.envc = prepared.env.length := by simp [prepared, prepare]
    have argvLength : prepared.argv.length = (pre.getD [] ++ argv.getD []).length :=
      (readable_argv argCarries).length
    have envLength : prepared.env.length = (envp.getD []).length :=
      (readable_env envCarries).length
    rw [← argvLength, ← envLength, ← length_initProcessStack]
    simp only [frame, argc, envc]
  constructor
  · intro roundTrip
    have given : sender = .user → argv = none → pre.getD [] = [] := by
      rintro rfl rfl
      obtain ⟨rest, frameEq⟩ := roundTrip.pushed
      obtain ⟨others, pushed⟩ := initProcessStack_eq stackTop auxv prepared.argv prepared.env
        prepared.argc prepared.envc
      have same : prepared.argc = (pre.getD [] ++ []).length :=
        (cons.inj (pushed.symm.trans frameEq)).1
      rw [append_nil] at same
      exact eq_nil_of_length_eq_zero same.symm
    exact ⟨given, size given ▸ roundTrip.stack⟩
  · rintro ⟨given, fits⟩
    have argCarries := carries_argsBlock given
    refine ⟨?_, by rw [size given]; exact fits, readable_argv argCarries, readable_env envCarries,
      blocks_inside _ _ _ _ _, savedCmdline_eq argCarries⟩
    rw [← argCarries.count]
    exact initProcessStack_eq _ _ _ _ _ _

/-- The interpreter `/b` of a script. -/
def interpreter : Str := ⟨[47, 98], by decide⟩

/-- A process calls `execve` of a script without an array of arguments: the interpreter is
started without even its own name. -/
theorem exec_shebang_lost :
    let prepared := prepare 0x400000 0 0 (argsBlock .user (some [interpreter]) none)
      (envsBlock .user none)
    ¬RoundTrip prepared (initProcessStack 0x800000 (replicate 20 0) prepared.argc prepared.argv
      prepared.envc prepared.env) 0x200000 [interpreter] [] := by
  intro prepared roundTrip
  obtain ⟨rest, frame⟩ := roundTrip.pushed
  obtain ⟨others, pushed⟩ := initProcessStack_eq 0x800000 (replicate 20 0) prepared.argv
    prepared.env prepared.argc prepared.envc
  have argc : 0 = 1 := (cons.inj (pushed.symm.trans frame)).1
  cases argc

end McKernel.ExecArgs
