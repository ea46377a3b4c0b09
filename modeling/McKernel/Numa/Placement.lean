import McKernel.Numa.Distance

/-!
# Placement of pages on NUMA nodes

The model of `mckernel_allocate_aligned_pages_node` of `kernel/mem.c`.  What a node answers to
the request, after the check against the memory limit, is a parameter: the physical address, or
0.  The nodes are tried in the order that `numa_distances_init` leaves behind.
-/

namespace McKernel.Numa

open List

/-! ## Model -/

/-- The memory policies. -/
inductive Mpol where
  | default
  | preferred
  | bind
  | interleave
  | local_
  deriving DecidableEq, Repr

/-- A memory range: its object, if any, and whether the flags of the object are `MF_SHM`. -/
structure VmRange where
  memobj : Option Bool
  deriving DecidableEq, Repr

/-- `struct vm_range_numa_policy`, without its bounds. -/
structure RangePolicy where
  mode : Mpol
  mask : Nat → Bool

/-- What the calling thread's `vm` knows: `vm_range_policy_search` and
`lookup_process_memory_range` are functions of the address. -/
structure Vm where
  policy : Mpol
  mask : Nat → Bool
  rangePolicy : Nat → Option RangePolicy
  range : Nat → Option VmRange

/-- The arguments; `virtAddr` is `none` for the address -1. -/
structure Request where
  npages : Int
  user : Bool
  prefNode : Int
  virtAddr : Option Nat

/-- `vm_range_policy_search` and `lookup_process_memory_range` for the address of a request,
if it has one. -/
def Request.rangePolicy (request : Request) (vm : Vm) : Option RangePolicy :=
  request.virtAddr.bind vm.rangePolicy
@[inherit_doc Request.rangePolicy]
def Request.range (request : Request) (vm : Vm) : Option VmRange :=
  request.virtAddr.bind vm.range

/-- The nodes: their number, the node of the CPU, its `nodes_by_distance` and the answers. -/
structure Nodes where
  count : Nat
  here : Nat
  byDistance : Option (List Nat)
  answer : Nat → Nat

/-- A page with the node it comes from and the node it is charged to, no page, or the access to a
missing object. -/
inductive Outcome where
  | page (node charged pa : Nat)
  | null
  | fault
  deriving DecidableEq, Repr

/-- `pref_node` is a node. -/
def Request.explicit (request : Request) (nodes : Nodes) : Bool :=
  decide (-1 < request.prefNode ∧ request.prefNode < nodes.count)

/-- Neither a node nor a policy is asked for. -/
def Request.plain (request : Request) (vm : Vm) : Bool :=
  request.prefNode == -1 && (!request.user || vm.policy == .default)

/-- `chk_shm` after the first lookup. -/
def chkShm (vm : Vm) (request : Request) : Bool :=
  (request.rangePolicy vm).isSome &&
    (request.range vm).any fun range => range.memobj == some true

/-- The policy for an address: that of the range, unless it is shared memory, then that of the
process; none for the kernel's own requests. -/
def effective (caller : Option Vm) (request : Request) : Mpol × (Nat → Bool) :=
  match caller with
  | none => (.default, fun _ => true)
  | some vm =>
    match request.rangePolicy vm, chkShm vm request with
    | some found, false => (found.mode, found.mask)
    | some _, true => (vm.policy, vm.mask)
    | none, _ =>
      if request.plain vm then (.default, fun _ => true) else (vm.policy, vm.mask)

/-- The nodes that a policy asks for. -/
def allowed (policy : Mpol × (Nat → Bool)) (id : Nat) : Bool :=
  match policy.1 with
  | .bind | .preferred => policy.2 id
  | _ => true

/-- The first node of the list that is permitted and can serve the request. -/
def nearest (nodes : Nodes) (order : List Nat) (permitted : Nat → Bool) : Option Nat :=
  order.find? fun id => permitted id && nodes.answer id != 0

/-- The explicit node, else the nearest node the policy asks for, else, unless the policy
binds, the nearest node. -/
def placement (caller : Option Vm) (request : Request) (nodes : Nodes) (order : List Nat) :
    Option Nat :=
  let policy := effective caller request
  if caller.isSome && request.explicit nodes && nodes.answer request.prefNode.toNat != 0 then
    some request.prefNode.toNat
  else
    (nearest nodes order (allowed policy)).or
      (if policy.1 = .bind then none else nearest nodes order fun _ => true)

/-- A page of the node, charged to it. -/
def Nodes.outcome (nodes : Nodes) : Option Nat → Outcome
  | some id => .page id id (nodes.answer id)
  | none => .null

variable {nodes : Nodes} {order : List Nat} {vm : Vm} {request : Request}

/-- The node that the code takes once it has consulted the policies, and the one that the policy
`mode` with the mask `mask` asks for. -/
def taken (vm : Vm) (nodes : Nodes) (order : List Nat) (mode : Mpol) : Option Nat :=
  (nearest nodes order (allowed (mode, vm.mask))).or (nearest nodes order fun _ => true)
@[inherit_doc taken]
def asked (nodes : Nodes) (order : List Nat) (policy : Mpol × (Nat → Bool)) : Option Nat :=
  (nearest nodes order (allowed policy)).or
    (if policy.1 = .bind then none else nearest nodes order fun _ => true)

section

open Distance

variable {distance : Nat → BitVec 32}

end

def twoNodes : Nodes := ⟨2, 0, some [0, 1], fun id => if id = 1 then 0x1000 else 0⟩

def process (policy : Mpol) (mask : Nat → Bool) : Vm := ⟨policy, mask, fun _ => none, fun _ => none⟩

def onePage : Request := ⟨1, true, -1, some 0⟩

end McKernel.Numa
