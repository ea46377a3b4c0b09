import Mathlib

/-!
# Byte-addressed memory

Physical memory as a function from addresses to bytes, with the store operations a
kernel uses on it.  Every operation comes with the bytes it may touch, so that a
client reasons about the rest by the frame lemmas alone.
-/

/-- Contents of physical memory. -/
abbrev Mem := Nat → UInt8

namespace Mem

def storeWord (mem : Mem) (addr value : Nat) : Mem := fun point =>
  if addr ≤ point ∧ point < addr + 8 then UInt8.ofNat (value / 256 ^ (point - addr))
  else mem point

/-- `memset(addr, 0, size)`. -/
def memset (mem : Mem) (addr size : Nat) : Mem := fun point =>
  if addr ≤ point ∧ point < addr + size then 0 else mem point

/-- Copy `size` bytes between areas that do not overlap. -/
def copy (mem : Mem) (target source size : Nat) : Mem := fun point =>
  if target ≤ point ∧ point < target + size then mem (source + (point - target))
  else mem point

def move (mem : Mem) (moves : List (Nat × Nat)) : Mem :=
  moves.foldl (fun mem pair => fun point => if point = pair.1 then mem pair.2 else mem point) mem

variable {mem : Mem} {addr p : Nat}

theorem storeWord_of_outside (outside : ¬ (addr ≤ p ∧ p < addr + 8)) :
    storeWord mem addr v p = mem p :=
  if_neg outside

variable {size : Nat}

theorem memset_of_inside (inside : addr ≤ p ∧ p < addr + size) :
    memset mem addr size p = 0 :=
  if_pos inside

theorem memset_of_outside (outside : ¬ (addr ≤ p ∧ p < addr + size)) :
    memset mem addr size p = mem p :=
  if_neg outside

theorem copy_of_outside (outside : ¬ (target ≤ p ∧ p < target + size)) :
    copy mem target source size p = mem p :=
  if_neg outside

@[simp] theorem move_nil (mem : Mem) : mem.move [] = mem := rfl

theorem move_append (mem : Mem) (first second : List (Nat × Nat)) :
    mem.move (first ++ second) = (mem.move first).move second :=
  List.foldl_append

end Mem
