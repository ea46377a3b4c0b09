import McKernel.PageAlloc.Model

/-!
# Free memory as a list of chunks

What the tree operations of the allocator are for, stated without a tree: freeing a
range adds it to a separated list of chunks and joins it with the neighbours it
touches, allocating a block carves it out of one chunk.  The tree operations are
compared with these two relations; the invariants of the node follow from the
relations alone.
-/

namespace McKernel.PageAlloc

open Extent List Function

@[simp] theorem lo_freeChunk (c : FreeChunk) : lo c = c.addr := rfl

@[simp] theorem hi_freeChunk (c : FreeChunk) :
    hi c = c.addr + c.size := rfl

/-- A chunk of whole pages inside physical memory. Page 0 is never managed: address 0
is how the allocator reports failure. -/
structure FreeChunk.Valid (chunk : FreeChunk) : Prop where
  addrAligned : chunk.addr % pageSize = 0
  sizeAligned : chunk.size % pageSize = 0
  nonnull : 0 < chunk.addr
  nonempty : 0 < chunk.size
  bounded : chunk.limit ≤ 2 ^ 52

inductive Coalesces (range : FreeChunk) : List FreeChunk → List FreeChunk → Prop where
  | fresh (front back : List FreeChunk)
      (afterFront : ∀ chunk ∈ front, chunk.limit < range.addr)
      (beforeBack : ∀ chunk ∈ back, range.limit < chunk.addr) :
      Coalesces range (front ++ back) (front ++ range :: back)
  | toRight (front back : List FreeChunk) (chunk : FreeChunk)
      (touches : chunk.limit = range.addr)
      (beforeBack : ∀ other ∈ back, range.limit < other.addr) :
      Coalesces range (front ++ chunk :: back)
        (front ++ ⟨chunk.addr, chunk.size + range.size⟩ :: back)
  | toLeft (front back : List FreeChunk) (chunk : FreeChunk)
      (touches : range.limit = chunk.addr)
      (afterFront : ∀ other ∈ front, other.limit < range.addr) :
      Coalesces range (front ++ chunk :: back)
        (front ++ ⟨range.addr, chunk.size + range.size⟩ :: back)
  | bridge (front back : List FreeChunk) (left right : FreeChunk)
      (touchesLeft : left.limit = range.addr) (touchesRight : range.limit = right.addr) :
      Coalesces range (front ++ left :: right :: back)
        (front ++ ⟨left.addr, left.size + range.size + right.size⟩ :: back)

/-- A block leaves one chunk of a list. What remains of the chunk on the left keeps
its place; what remains on both sides joins the list again on the right. -/
inductive Carves (block : FreeChunk) : List FreeChunk → List FreeChunk → Prop where
  | whole (front back : List FreeChunk) :
      Carves block (front ++ block :: back) (front ++ back)
  | keepRight (front back : List FreeChunk) (rest : Nat) (nonempty : 0 < rest) :
      Carves block (front ++ ⟨block.addr, block.size + rest⟩ :: back)
        (front ++ ⟨block.limit, rest⟩ :: back)
  | keepLeft (front back : List FreeChunk) (addr rest : Nat) (nonempty : 0 < rest)
      (touches : addr + rest = block.addr) :
      Carves block (front ++ ⟨addr, rest + block.size⟩ :: back)
        (front ++ ⟨addr, rest⟩ :: back)
  | keepBoth (front back chunks : List FreeChunk) (addr left right : Nat)
      (leftNonempty : 0 < left) (rightNonempty : 0 < right)
      (touches : addr + left = block.addr)
      (joins : Coalesces ⟨block.limit, right⟩ (front ++ ⟨addr, left⟩ :: back) chunks) :
      Carves block (front ++ ⟨addr, left + block.size + right⟩ :: back) chunks

theorem separated_split (gaps : Separated (front ++ c :: back)) :
    (∀ o ∈ front, FreeChunk.limit o < c.addr) ∧
      ∀ o ∈ back, c.limit < o.addr := by
  simp only [Separated, pairwise_append, pairwise_cons, mem_cons,
    forall_eq_or_imp] at gaps
  exact ⟨fun o mem => (gaps.2.2 o mem).1, gaps.2.1.1⟩

theorem separated_insert (gaps : Separated (front ++ back))
    (afterFront : ∀ o ∈ front, FreeChunk.limit o < c.addr)
    (beforeBack : ∀ o ∈ back, c.limit < o.addr) :
    Separated (front ++ c :: back) := by
  obtain ⟨gapsFront, gapsBack, gapsAcross⟩ := pairwise_append.mp gaps
  refine pairwise_append.mpr
    ⟨gapsFront, pairwise_cons.mpr ⟨beforeBack, gapsBack⟩, fun x inFront => ?_⟩
  exact forall_mem_cons.mpr ⟨afterFront x inFront, gapsAcross x inFront⟩

namespace Coalesces

variable {r : FreeChunk} {chunks chunks' : List FreeChunk}

section

variable (step : Coalesces r chunks chunks')
include step

theorem coverage_eq (p : Nat) :
    coverage chunks' p = coverage chunks p + coverage [r] p := by
  cases step <;>
    simp only [coverage_append, coverage_cons, coverage_nil, FreeChunk.limit] at * <;>
    split_ifs <;> simp only [Covers, lo_freeChunk, hi_freeChunk] at * <;> omega

theorem total_eq :
    total chunks' = total chunks + r.size := by
  cases step <;> simp <;> omega

theorem separated (gaps : Separated chunks) :
    Separated chunks' := by
  cases step with
  | fresh front back afterFront beforeBack => exact separated_insert gaps afterFront beforeBack
  | toRight front back c touches beforeBack =>
    obtain ⟨frontChunk, -⟩ := separated_split gaps
    refine separated_insert (gaps.sublist (by simp)) frontChunk fun o inBack => ?_
    have := beforeBack o inBack
    simp only [FreeChunk.limit] at *
    omega
  | toLeft front back c touches afterFront =>
    obtain ⟨-, chunkBack⟩ := separated_split gaps
    refine separated_insert (gaps.sublist (by simp)) afterFront fun o inBack => ?_
    have := chunkBack o inBack
    simp only [FreeChunk.limit] at *
    omega
  | bridge front back left right touchesLeft touchesRight =>
    obtain ⟨frontLeft, -⟩ := separated_split gaps
    have rightBack := (separated_split (show Separated ((front ++ [left]) ++ right :: back)
      by simpa using gaps)).2
    refine separated_insert (gaps.sublist (by simp)) frontLeft fun o inBack => ?_
    have := rightBack o inBack
    simp only [FreeChunk.limit] at *
    omega

theorem forall_mem {property : FreeChunk → Prop}
    (join : ∀ left right, property left → property right → left.limit = right.addr →
      property ⟨left.addr, left.size + right.size⟩)
    (ofRange : property r) (all : ∀ c ∈ chunks, property c) :
    ∀ c ∈ chunks', property c := by
  cases step with
  | fresh front back =>
    simp only [forall_mem_append, forall_mem_cons] at all ⊢
    exact ⟨all.1, ofRange, all.2⟩
  | toRight front back c touches =>
    simp only [forall_mem_append, forall_mem_cons] at all ⊢
    exact ⟨all.1, join c r all.2.1 ofRange touches, all.2.2⟩
  | toLeft front back c touches =>
    simp only [forall_mem_append, forall_mem_cons] at all ⊢
    rw [Nat.add_comm c.size]
    exact ⟨all.1, join r c ofRange all.2.1 touches, all.2.2⟩
  | bridge front back left right touchesLeft touchesRight =>
    simp only [forall_mem_append, forall_mem_cons] at all ⊢
    have joined := join left r all.2.1 ofRange touchesLeft
    refine ⟨all.1, join _ right joined all.2.2.1 ?_, all.2.2.2⟩
    simp only [FreeChunk.limit] at *
    omega

theorem exists_front (untouched : ∀ c ∈ chunks, c.limit ≠ r.addr) :
    ∃ c ∈ chunks', c.addr = r.addr := by
  cases step with
  | fresh front back => exact ⟨r, by simp, rfl⟩
  | toRight front back c touches => exact absurd touches (untouched c (by simp))
  | toLeft front back c => exact ⟨⟨r.addr, c.size + r.size⟩, by simp, rfl⟩
  | bridge front back left right touches => exact absurd touches (untouched left (by simp))

theorem limit_eq {c : FreeChunk} (mem : c ∈ chunks') :
    c.limit = r.limit ∨ ∃ old ∈ chunks, c.limit = old.limit := by
  suffices all : ∀ new ∈ chunks', new.limit = r.limit ∨ ∃ old ∈ chunks, new.limit = old.limit
    from all c mem
  refine step.forall_mem (fun left right _ ofRight touches => ?_) (.inl rfl)
    fun c mem => .inr ⟨c, mem, rfl⟩
  -- Joined chunks end where the right one does.
  have ends : FreeChunk.limit ⟨left.addr, left.size + right.size⟩ = right.limit := by
    simp only [FreeChunk.limit] at touches ⊢
    omega
  rwa [ends]

theorem valid (ofRange : r.Valid)
    (all : ∀ c ∈ chunks, c.Valid) : ∀ c ∈ chunks', c.Valid := by
  refine step.forall_mem (fun left right ofLeft ofRight touches => ?_) ofRange all
  obtain ⟨_, _, _, _, _⟩ := ofLeft
  obtain ⟨_, _, _, _, _⟩ := ofRight
  constructor <;> simp only [FreeChunk.limit, pageSize] at * <;> omega

end

end Coalesces

namespace Carves

variable {b : FreeChunk} {chunks chunks' : List FreeChunk}

section

variable (step : Carves b chunks chunks')
include step

theorem coverage_eq (p : Nat) :
    coverage chunks p = coverage chunks' p + coverage [b] p := by
  cases step with
  | keepBoth front back _ addr left right _ _ touches joins =>
    rw [joins.coverage_eq]
    simp only [coverage_append, coverage_cons, coverage_nil, FreeChunk.limit]
    split_ifs <;> simp only [Covers, lo_freeChunk, hi_freeChunk] at * <;> omega
  | _ =>
    simp only [coverage_append, coverage_cons, coverage_nil, FreeChunk.limit]
    split_ifs <;> simp only [Covers, lo_freeChunk, hi_freeChunk] at * <;> omega

theorem total_eq :
    total chunks = total chunks' + b.size := by
  cases step with
  | keepBoth front back _ addr left right _ _ touches joins =>
    rw [joins.total_eq]
    simp
    omega
  | _ => simp; omega

theorem separated (gaps : Separated chunks) :
    Separated chunks' := by
  cases step with
  | whole front back =>
    exact gaps.sublist ((sublist_cons_self b back).append_left front)
  | keepRight front back rest =>
    simp only [Separated, pairwise_append, pairwise_cons, mem_cons,
      forall_eq_or_imp, lo_freeChunk, hi_freeChunk, FreeChunk.limit] at gaps ⊢
    grind
  | keepLeft front back addr rest nonempty touches =>
    simp only [Separated, pairwise_append, pairwise_cons, mem_cons,
      forall_eq_or_imp, lo_freeChunk, hi_freeChunk] at gaps ⊢
    grind
  | keepBoth front back _ addr left right _ _ touches joins =>
    refine joins.separated ?_
    simp only [Separated, pairwise_append, pairwise_cons, mem_cons,
      forall_eq_or_imp, lo_freeChunk, hi_freeChunk] at gaps ⊢
    grind

theorem valid (ofBlock : b.Valid)
    (all : ∀ c ∈ chunks, c.Valid) : ∀ c ∈ chunks', c.Valid := by
  obtain ⟨_, _, _, _, _⟩ := ofBlock
  cases step with
  | whole front back =>
    simp only [forall_mem_append, forall_mem_cons] at all ⊢
    exact ⟨all.1, all.2.2⟩
  | keepRight front back rest nonempty =>
    simp only [forall_mem_append, forall_mem_cons] at all ⊢
    obtain ⟨ofFront, ⟨_, _, _, _, _⟩, ofBack⟩ := all
    refine ⟨ofFront, ?_, ofBack⟩
    constructor <;> simp only [FreeChunk.limit, pageSize] at * <;> omega
  | keepLeft front back addr rest nonempty touches =>
    simp only [forall_mem_append, forall_mem_cons] at all ⊢
    obtain ⟨ofFront, ⟨_, _, _, _, _⟩, ofBack⟩ := all
    refine ⟨ofFront, ?_, ofBack⟩
    constructor <;> simp only [FreeChunk.limit, pageSize] at * <;> omega
  | keepBoth front back _ addr left right leftNonempty rightNonempty touches joins =>
    simp only [forall_mem_append, forall_mem_cons] at all
    obtain ⟨ofFront, ⟨_, _, _, _, _⟩, ofBack⟩ := all
    refine joins.valid ?_ ?_
    · constructor <;> simp only [FreeChunk.limit, pageSize] at * <;> omega
    · simp only [forall_mem_append, forall_mem_cons]
      refine ⟨ofFront, ?_, ofBack⟩
      constructor <;> simp only [FreeChunk.limit, pageSize] at * <;> omega

end

end Carves

end McKernel.PageAlloc
