import McKernel.Lib.Errno

/-!
# Arguments and environment of a new program

The way of `argv` and `envp` into a new program: `flatten_strings` in `mcexec` and
`flatten_strings_from_user` in the kernel write them into one block each,
`prepare_process_ranges_args_envs` copies the blocks behind each other into fresh pages and
relocates them, and `init_process_stack` pushes the pointers.  A block is kept as its words and
its characters; offsets and addresses count bytes.
-/

namespace McKernel.ExecArgs

/-- `sizeof(long)`, which is also the size of a pointer. -/
def wordSize : Nat := 8

/-- The characters of a string before the terminating NUL. -/
structure Str where
  chars : List UInt8
  noNul : 0 ∉ chars

def Str.bytes (string : Str) : List UInt8 := string.chars ++ [0]

/-- A flattened array: the number of strings, their offsets, the length of the whole block,
and the characters. -/
structure Flat where
  words : List Nat
  chars : List UInt8
  deriving DecidableEq, Repr

namespace Flat

variable (flat : Flat)

def word (index : Nat) : Nat := flat.words.getD index 0

/-- `p - (char *)_flat` at the end, which is returned. -/
def len : Nat := wordSize * flat.words.length + flat.chars.length

/-- The number of strings. -/
def count : Nat := flat.word 0

/-- `pre_strings_len`. -/
def charsLen : Nat := flat.word (flat.count + 1) - wordSize * (flat.count + 2)

def charsFrom (offset length : Nat) : List UInt8 :=
  (flat.chars.drop (offset - wordSize * flat.words.length)).take length

def byte (offset : Nat) : UInt8 :=
  if offset < wordSize * flat.words.length then 0
  else flat.chars.getD (offset - wordSize * flat.words.length) 0

end Flat

def copyStrings : List Str → Nat → List Nat × List UInt8 × Nat
  | [], place => ([], [], place)
  | string :: rest, place =>
    let copied := copyStrings rest (place + string.bytes.length)
    (place :: copied.1, string.bytes ++ copied.2.1, copied.2.2)

/-- The body that both functions share.  Strings that come first are in a block already. -/
def flatten (preStrings : Option Flat) (strings : List Str) : Flat :=
  let preCount := (preStrings.map Flat.count).getD 0
  let preLen := (preStrings.map Flat.charsLen).getD 0
  let place := wordSize * (strings.length + preCount + 2)
  let preOffsets := (preStrings.map fun pre =>
    (List.range pre.count).map fun index =>
      pre.word (index + 1) + strings.length * wordSize).getD []
  let preChars := (preStrings.map fun pre => pre.charsFrom (pre.word 1) pre.charsLen).getD []
  let copied := copyStrings strings (place + preLen)
  { words := (strings.length + preCount) :: (preOffsets ++ copied.1 ++ [copied.2.2])
    chars := preChars ++ copied.2.1 }

/-- `flatten_strings` of `mcexec`. -/
def flattenStrings (preStrings : Option Flat) (strings : List Str) : Flat :=
  flatten preStrings strings

/-- `flatten_strings_from_user`; no array at all gives a block of its own. -/
def flattenStringsFromUser (preStrings : Option Flat) : Option (List Str) → Flat
  | none => ⟨[0, 0], []⟩
  | some strings => flatten preStrings strings

/-- What `prepare_process_ranges_args_envs` leaves behind. -/
structure Prepared where
  addr : Nat
  argenvPageCount : Nat
  envsOffset : Nat
  args : Flat
  envs : Flat
  argc : Nat
  argv : List Nat
  envc : Nat
  env : List Nat
  savedCmdline : List UInt8

def pagesFor (offsetInPage len : Nat) : Nat := (offsetInPage + len + pageSize - 1) / pageSize

/-- Round up to a `long`. -/
def alignLong (len : Nat) : Nat := (len + wordSize - 1) / wordSize * wordSize

/-- `prepare_process_ranges_args_envs`, with the place in their page where blocks begin that
the host has sent. -/
def prepare (mapStart argsInPage envsInPage : Nat) (args envs : Flat) : Prepared :=
  let pages := pagesFor argsInPage args.len + pagesFor envsInPage envs.len
  let addr := mapStart - pageSize * pages
  let envsOffset := alignLong args.len
  { addr := addr
    argenvPageCount := pages
    envsOffset := envsOffset
    args := args
    envs := envs
    argc := args.count
    argv := (List.range args.count).map fun index => addr + args.word (index + 1)
    envc := envs.count
    env := (List.range envs.count).map fun index => addr + envsOffset + envs.word (index + 1)
    savedCmdline := args.charsFrom ((args.count + 2) * wordSize)
      (args.len - (args.count + 2) * wordSize) }

namespace Prepared

variable (prepared : Prepared)

def pageByte (offset : Nat) : UInt8 :=
  if offset < prepared.envsOffset then prepared.args.byte offset
  else prepared.envs.byte (offset - prepared.envsOffset)

def readString : Nat → Nat → Option (List UInt8)
  | 0, _ => none
  | fuel + 1, address =>
    if address < prepared.addr ∨
        prepared.addr + pageSize * prepared.argenvPageCount ≤ address then none
    else
      let byte := prepared.pageByte (address - prepared.addr)
      if byte = 0 then some [] else (readString fuel (address + 1)).map (byte :: ·)

end Prepared

/-- The words that `init_process_stack` needs for the arguments, the environment, the
auxiliary vector and the random bytes. -/
def populatedWords (argc envc : Nat) (auxv : List Nat) : Nat :=
  2 + auxv.length + (argc + 2) + (envc + 1)

def alignPadding (top : Nat) : Nat → Nat → Nat
  | 0, padding => padding
  | rounds + 1, padding =>
    if (top - wordSize * padding) % 64 = 0 then padding else alignPadding top rounds (padding + 1)

def pushAll (words frame : List Nat) : List Nat := words.foldr List.cons frame

/-- `init_process_stack`: the words from the stack pointer to the top of the stack. -/
def initProcessStack (stackTop : Nat) (auxv : List Nat) (argc : Nat) (argv : List Nat)
    (envc : Nat) (env : List Nat) : List Nat :=
  let populated := wordSize * populatedWords argc envc auxv
  let padding := alignPadding (stackTop - populated) 8 0
  let random := pushAll [0x010101011, 0x010101011] (List.replicate padding 0)
  let vector := pushAll auxv random
  let withEnv := pushAll env (0 :: vector)
  argc :: pushAll argv (0 :: withEnv)

/-- Who sends the strings: `mcexec`, or a process that calls `execve`. -/
inductive Sender where
  | mcexec
  | user
  deriving DecidableEq, Repr

def argsBlock (sender : Sender) (pre : Option (List Str)) (argv : Option (List Str)) : Flat :=
  let preStrings := pre.map (flattenStrings none)
  match sender with
  | .mcexec => flattenStrings preStrings (argv.getD [])
  | .user => flattenStringsFromUser preStrings argv

def envsBlock (sender : Sender) (envp : Option (List Str)) : Flat :=
  match sender with
  | .mcexec => flattenStrings none (envp.getD [])
  | .user => flattenStringsFromUser none envp

end McKernel.ExecArgs
