import McKernel.Lib.Machine
import McKernel.PageAlloc.Tree

/-!
# Runs of a NUMA node

A node together with the memory it was given and the blocks it has handed out.  The
callers of the allocator add fresh memory, allocate blocks, return page-aligned parts
of blocks they hold, write to blocks they hold, and start the zeroing of freed
memory.
-/

namespace McKernel.PageAlloc

open Mem Extent

instance (chunk : FreeChunk) : Decidable chunk.Valid :=
  decidable_of_iff (chunk.addr % pageSize = 0 ∧ chunk.size % pageSize = 0 ∧
      0 < chunk.addr ∧ 0 < chunk.size ∧ chunk.limit ≤ 2 ^ 52)
    ⟨fun ⟨a, b, c, d, e⟩ => ⟨a, b, c, d, e⟩, fun ⟨a, b, c, d, e⟩ => ⟨a, b, c, d, e⟩⟩

/-- `inner` lies inside `outer`. -/
def Within (inner outer : FreeChunk) : Prop :=
  outer.addr ≤ inner.addr ∧ inner.limit ≤ outer.limit

instance (inner outer : FreeChunk) : Decidable (Within inner outer) :=
  inferInstanceAs (Decidable (_ ∧ _))

/-- The node, the blocks its callers hold and the memory it was given. -/
structure System where
  node : NumaNode
  live : List FreeChunk
  added : List FreeChunk

/-- What can happen to a node. -/
inductive Op where
  | add (addr size : Nat)
  | alloc (npages : Int) (p2align : Nat)
  | free (addr : Nat) (npages : Int)
  | zero (nrPages : Int)
  | write (addr : Nat) (value : UInt8)
  deriving Repr

def remainder (block piece : FreeChunk) : List FreeChunk :=
  [⟨block.addr, piece.addr - block.addr⟩, ⟨piece.limit, block.limit - piece.limit⟩].filter
    fun rest => 0 < rest.size

def surrender (piece : FreeChunk) : List FreeChunk → List FreeChunk
  | [] => []
  | block :: rest =>
    if Within piece block then remainder block piece ++ rest
    else block :: surrender piece rest

def freedBlock (addr : Nat) (npages : Int) : FreeChunk := ⟨addr, pageSize * npages.toNat⟩

/-- What the callers promise: added memory is fresh and consists of whole pages, at least
one page is allocated, a part of a held block is returned in whole pages and is
smaller than `2 ^ 31` bytes, and only held blocks are written. -/
def Admissible (system : System) : Op → Prop
  | .add addr size =>
    (⟨addr, size⟩ : FreeChunk).Valid ∧
      ∀ other ∈ system.added, Apart other (⟨addr, size⟩ : FreeChunk)
  | .alloc npages p2align => 0 < npages ∧ npages < 2 ^ 31 ∧ p2align ≤ 51
  | .free addr npages =>
    addr % pageSize = 0 ∧ 0 < npages ∧ npages * pageSize < 2 ^ 31 ∧
      ∃ block ∈ system.live, Within (freedBlock addr npages) block
  | .zero nrPages => -2 ^ 31 ≤ nrPages ∧ nrPages < 2 ^ 31
  | .write addr _ => ∃ block ∈ system.live, Covers block addr

/-- The operation as the allocator executes it, with the bookkeeping of what was added
and what is held. -/
def exec (config : Config) (system : System) : Op → Option System
  | .add addr size =>
    match ihkNumaAddFreePages config system.node addr size with
    | (node, none) => some { system with node, added := ⟨addr, size⟩ :: system.added }
    | (node, some _) => some { system with node }
  | .alloc npages p2align =>
    (ihkNumaAllocPages config system.node npages p2align).map fun (node, addr) =>
      if addr ≠ 0 then
        { system with node, live := ⟨addr, allocSize npages⟩ :: system.live }
      else { system with node }
  | .free addr npages =>
    some { system with
      node := ihkNumaFreePages config system.node addr npages
      live := surrender (freedBlock addr npages) system.live }
  | .zero nrPages =>
    some { system with node := (ihkNumaZeroFreePages config system.node nrPages).1 }
  | .write addr value =>
    some { system with
      node := system.node.setMem (Function.update system.node.mem addr value) }

def System.boot (mem : Mem) : System := ⟨NumaNode.init mem, [], []⟩

/-- All runs of a node. -/
def machine (config : Config) : Machine System Op where
  init system := ∃ mem, system = System.boot mem
  step system op next := Admissible system op ∧ exec config system op = some next

instance (system : System) (op : Op) : Decidable (Admissible system op) := by
  cases op <;> unfold Admissible <;> unfold Apart <;> infer_instance

theorem reachable_of_run (reached : (machine config).Reachable system)
    (res : Machine.run (fun system op => decide (Admissible system op)) (exec config)
      system ops = some final) : (machine config).Reachable final := by
  refine Machine.reachable_of_run ?_ reached res
  intro state op next passed ran
  exact ⟨of_decide_eq_true passed, ran⟩

theorem exists_run (mem : Mem) (ops : List Op) {holds : System → Prop} [DecidablePred holds]
    (res : (Machine.run (fun system op => decide (Admissible system op)) (exec config)
      (System.boot mem) ops).any (fun system => decide (holds system)) = true) :
    ∃ system, (machine config).Reachable system ∧ holds system := by
  obtain ⟨system, ran, accepted⟩ := (Option.any_eq_true _ _).mp res
  exact ⟨system, reachable_of_run (.init ⟨_, rfl⟩) ran, of_decide_eq_true accepted⟩

end McKernel.PageAlloc
