import McKernel.Lib.CInt
import McKernel.Lib.Extent

/-!
# The bitmap allocator

The model of the allocator in `lib/page_alloc.c` that keeps one bit for each unit of an area.
Areas have fewer than `2 ^ 31 - 63` units, which the code counts as an `int`.
-/

namespace McKernel.Bitmap

open CInt List Function

/-! ## Words and bits -/

abbrev Map := Nat → BitVec 64

/-- The bit of a unit: `MAP_INDEX` and `MAP_BIT`. -/
def bit (map : Map) (unit : Nat) : Bool := (map (unit / 64)).getLsbD (unit % 64)

/-- `map[index] |= mask`. -/
def setWord (map : Map) (index : Nat) (mask : BitVec 64) : Map :=
  update map index (map index ||| mask)

/-- `map[MAP_INDEX(unit)] |= 1UL << MAP_BIT(unit)`. -/
def setBit (map : Map) (unit : Nat) : Map := setWord map (unit / 64) (1#64 <<< (unit % 64))

/-- `map[MAP_INDEX(unit)] &= ~(1UL << MAP_BIT(unit))`. -/
def clearBit (map : Map) (unit : Nat) : Map :=
  update map (unit / 64) (map (unit / 64) &&& ~~~(1#64 <<< (unit % 64)))

/-- `(1UL << bits) - 1`. -/
def mask (bits : Nat) : BitVec 64 := BitVec.ofNat 64 (2 ^ bits - 1)

/-! ## Descriptors -/

/-- `struct ihk_page_allocator_desc`. `last` is 0 at all times and left out. -/
structure Desc where
  start : Nat
  stop : Nat
  count : Nat
  shift : Nat
  map : Map

/-- `ADDRESS`. -/
def Desc.address (desc : Desc) (index bit : Nat) : Nat :=
  desc.start + (index * 64 + bit) * 2 ^ desc.shift

/-- `__ihk_pagealloc_init` for units of `2 ^ shift` bytes. The bits behind the last unit are
set. -/
def ihkPageallocInit (start size shift : Nat) : Desc where
  start
  stop := start + size
  count := (size / 2 ^ shift + 63) / 64
  shift
  map := (range ((size / 2 ^ shift + 63) / 64 * 64 - size / 2 ^ shift)).foldl
    (fun map k => setBit map (size / 2 ^ shift + k)) fun _ => 0

/-! ## Allocation -/

/-- The search for a run inside one word. -/
def smallPlace (desc : Desc) (npages p2align : Nat) : Option (Nat × Nat) :=
  (range desc.count).findSome? fun mi =>
    if desc.map mi = BitVec.allOnes 64 then none
    else ((range (65 - npages)).find? fun j =>
      j % 2 ^ p2align == 0 && desc.map mi &&& (mask npages <<< j) == 0).map (mi, ·)

/-- `nblocks`, the words of a large block. -/
def nblocks (npages : Nat) : Nat := npages / 64 + if npages % 64 = 0 then 0 else 1

/-- `mask`, the bits of a large block in its last word. -/
def lastMask (npages : Nat) : BitVec 64 :=
  if npages % 64 = 0 then BitVec.allOnes 64 else mask (npages % 64)

/-- The search of `__ihk_pagealloc_large`. -/
def largePlace (desc : Desc) (npages p2align : Nat) : Option Nat :=
  (range desc.count).find? fun mi =>
    !(decide (mi + nblocks npages ≥ desc.count) ||
        desc.address mi 0 % (4096 * 2 ^ p2align) != 0) &&
      (range (nblocks npages - 1)).all (fun k => desc.map (mi + k) == 0) &&
      desc.map (mi + nblocks npages - 1) &&& lastMask npages == 0

/-- The marking of `__ihk_pagealloc_large`. -/
def markLarge (map : Map) (mi npages : Nat) : Map :=
  setWord ((range (nblocks npages - 1)).foldl
    (fun map k => update map (mi + k) (BitVec.allOnes 64)) map)
    (mi + nblocks npages - 1) (lastMask npages)

/-- `ihk_pagealloc_alloc`; `none` stands for the address 0. -/
def ihkPageallocAlloc (desc : Desc) (npages p2align : Nat) : Option (Nat × Desc) :=
  if npages ≥ 32 ∨ p2align ≥ 5 then
    (largePlace desc npages p2align).map fun mi =>
      (desc.address mi 0, { desc with map := markLarge desc.map mi npages })
  else
    (smallPlace desc npages p2align).map fun (mi, j) =>
      (desc.address mi j, { desc with map := setWord desc.map mi (mask npages <<< j) })

/-! ## Reserving and freeing -/

/-- The loop of `ihk_pagealloc_reserve`, a word at a time where it can. -/
def reserveLoop (n : Nat) : Nat → Nat → Map → Map
  | 0, _, map => map
  | fuel + 1, i, map =>
    if i < n then
      if i % 64 = 0 ∧ i + 63 < n then
        reserveLoop n fuel (i + 64) (update map (i / 64) (BitVec.allOnes 64))
      else reserveLoop n fuel (i + 1) (setBit map i)
    else map

/-- `ihk_pagealloc_reserve`; the unit numbers are of type `int`. -/
def ihkPageallocReserve (desc : Desc) (start stop : Nat) : Desc :=
  let n := toInt (toULong (stop + 2 ^ desc.shift - 1 - desc.start) / 2 ^ desc.shift : Nat)
  let i := toInt (toULong (start - desc.start) / 2 ^ desc.shift : Nat)
  if i < 0 ∨ n < 0 then desc
  else { desc with map := reserveLoop n.toNat n.toNat i.toNat desc.map }

/-- The loop of `ihk_pagealloc_free`; `none` is the panic about a double free. -/
def freeUnits : Nat → Nat → Map → Option Map
  | 0, _, map => some map
  | npages + 1, unit, map =>
    if bit map unit then freeUnits npages (unit + 1) (clearBit map unit) else none

/-- `ihk_pagealloc_free`. -/
def ihkPageallocFree (desc : Desc) (address npages : Nat) : Option Desc :=
  (freeUnits npages ((address - desc.start) / 2 ^ desc.shift) desc.map).map fun map =>
    { desc with map }

end McKernel.Bitmap
