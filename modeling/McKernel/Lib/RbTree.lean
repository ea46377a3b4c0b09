import Mathlib

/-!
# Red-black trees with parent-free nodes

This module develops the intrusive red-black tree used by C kernels as a purely
functional tree together with a path from a node up to the root.  Insertion links
a red node at the hole a descent fell into and repairs colours on the way up;
erasure replaces a node by its in-order successor and repairs the missing black
node.  Every operation is specified by the in-order list of the tree, so clients
never look at shapes or colours.
-/

namespace RbTree

universe u

/-- Colour of a node. -/
inductive Color where
  | red
  | black
  deriving BEq, DecidableEq, Repr

/-- A coloured binary tree. Clients order it by an invariant of their own. -/
inductive ColorTree (α : Type u) where
  | nil : ColorTree α
  | node (color : Color) (left : ColorTree α) (value : α) (right : ColorTree α) : ColorTree α
  deriving Repr

/-- One step of the path from a hole up to the root: the parent of the hole and
the sibling subtree. -/
inductive Frame (α : Type u) where
  | inLeft (color : Color) (value : α) (right : ColorTree α) : Frame α
  | inRight (color : Color) (left : ColorTree α) (value : α) : Frame α

/-- The path from a hole to the root, innermost parent first. -/
abbrev Spine (α : Type u) := List (Frame α)

variable {α : Type u}

namespace ColorTree

def toList : ColorTree α → List α
  | nil => []
  | node _ left value right => left.toList ++ value :: right.toList

def paint (color : Color) : ColorTree α → ColorTree α
  | nil => nil
  | node _ left value right => node color left value right

def isRed : ColorTree α → Bool
  | node .red _ _ _ => true
  | _ => false

@[simp] theorem toList_nil : (nil : ColorTree α).toList = [] := rfl

@[simp] theorem toList_node (color : Color) (left right : ColorTree α) (v : α) :
    (node color left v right).toList = left.toList ++ v :: right.toList := rfl

@[simp] theorem toList_paint (color : Color) (tree : ColorTree α) :
    (tree.paint color).toList = tree.toList := by
  cases tree <;> rfl

end ColorTree

open ColorTree

namespace Frame

/-- Put a subtree into the hole below a parent. -/
def fill : Frame α → ColorTree α → ColorTree α
  | inLeft color value right, tree => node color tree value right
  | inRight color left value, tree => node color left value tree

end Frame

namespace Spine

def plug (tree : ColorTree α) : Spine α → ColorTree α
  | [] => tree
  | frame :: rest => plug (frame.fill tree) rest

def before : Spine α → List α
  | [] => []
  | .inLeft _ _ _ :: rest => before rest
  | .inRight _ left value :: rest => before rest ++ (left.toList ++ [value])

def after : Spine α → List α
  | [] => []
  | .inLeft _ value right :: rest => value :: (right.toList ++ after rest)
  | .inRight _ _ _ :: rest => after rest

@[simp] theorem toList_plug (tree : ColorTree α) (path : Spine α) :
    (plug tree path).toList = before path ++ (tree.toList ++ after path) := by
  induction path generalizing tree with
  | nil => simp [plug, before, after]
  | cons frame rest ih =>
    cases frame <;> simp [plug, Frame.fill, ih, before, after]

theorem before_append (inner outer : Spine α) :
    before (inner ++ outer) = before outer ++ before inner := by
  induction inner with
  | nil => simp [before]
  | cons frame rest ih => cases frame <;> simp [before, ih]

theorem after_append (inner outer : Spine α) :
    after (inner ++ outer) = after inner ++ after outer := by
  induction inner with
  | nil => simp [after]
  | cons frame rest ih => cases frame <;> simp [after, ih]

end Spine

open Spine

/-! ## Insertion -/

/-- `rb_insert_color`: `tree` is a red node whose parent may be red too. A red
uncle moves the conflict two levels up, a black uncle is settled by one or two
rotations. -/
def insertColor : ColorTree α → Spine α → ColorTree α
  | tree, [] => tree.paint .black
  | tree, [frame] => plug tree [frame]
  | tree, .inLeft .black value right :: rest => plug tree (.inLeft .black value right :: rest)
  | tree, .inRight .black left value :: rest => plug tree (.inRight .black left value :: rest)
  | tree, .inLeft .red parent right :: .inLeft color grand uncle :: rest =>
    if uncle.isRed then
      insertColor (node .red (node .black tree parent right) grand (uncle.paint .black)) rest
    else
      plug (node color tree parent (node .red (right.paint .black) grand uncle)) rest
  | tree, .inRight .red left parent :: .inLeft color grand uncle :: rest =>
    if uncle.isRed then
      insertColor (node .red (node .black left parent tree) grand (uncle.paint .black)) rest
    else
      match tree with
      | nil => plug nil (.inRight .red left parent :: .inLeft color grand uncle :: rest)
      | node _ inner value outer =>
        plug (node color (node .red left parent (inner.paint .black)) value
          (node .red (outer.paint .black) grand uncle)) rest
  | tree, .inRight .red left parent :: .inRight color uncle grand :: rest =>
    if uncle.isRed then
      insertColor (node .red (uncle.paint .black) grand (node .black left parent tree)) rest
    else
      plug (node color (node .red uncle grand (left.paint .black)) parent tree) rest
  | tree, .inLeft .red parent right :: .inRight color uncle grand :: rest =>
    if uncle.isRed then
      insertColor (node .red (uncle.paint .black) grand (node .black tree parent right)) rest
    else
      match tree with
      | nil => plug nil (.inLeft .red parent right :: .inRight color uncle grand :: rest)
      | node _ outer value inner =>
        plug (node color (node .red uncle grand (outer.paint .black)) value
          (node .red (inner.paint .black) parent right)) rest

@[simp] theorem toList_insertColor (tree : ColorTree α) (path : Spine α) :
    (insertColor tree path).toList = before path ++ (tree.toList ++ after path) := by
  fun_induction insertColor tree path <;>
    simp_all [before, after]

/-- `rb_link_node` followed by `rb_insert_color`: put a new value into a hole. -/
def link (value : α) (path : Spine α) : ColorTree α :=
  insertColor (node .red nil value nil) path

@[simp] theorem toList_link (v : α) (path : Spine α) :
    (link v path).toList = before path ++ v :: after path := by
  simp [link]

/-! ## Erasure -/

/-- One round of `__rb_erase_color` with the short subtree on the left. The second
component says whether the rebuilt subtree is still one black node short. -/
def lighterLeft (short : ColorTree α) (color : Color) (parent : α) :
    ColorTree α → ColorTree α × Bool
  | nil => (node color short parent nil, false)
  | node _ inner sibling outer =>
    if outer.isRed then
      (node color (node .black short parent inner) sibling (outer.paint .black), false)
    else
      match inner with
      | node .red inner' value outer' =>
        (node color (node .black short parent inner') value
          (node .black (outer'.paint .black) sibling outer), false)
      | _ =>
        (node .black short parent (node .red inner sibling outer),
          color == .black)

/-- The mirror image of `lighterLeft`. -/
def lighterRight (short : ColorTree α) (color : Color) (parent : α) :
    ColorTree α → ColorTree α × Bool
  | nil => (node color nil parent short, false)
  | node _ outer sibling inner =>
    if outer.isRed then
      (node color (outer.paint .black) sibling (node .black inner parent short), false)
    else
      match inner with
      | node .red outer' value inner' =>
        (node color (node .black outer sibling (outer'.paint .black)) value
          (node .black inner' parent short), false)
      | _ =>
        (node .black (node .red outer sibling inner) parent short,
          color == .black)

def rebalanceLeft (short : ColorTree α) (color : Color) (parent : α) :
    ColorTree α → ColorTree α × Bool
  | node .red inner sibling outer =>
    (node color (lighterLeft short .red parent (inner.paint .black)).1 sibling outer, false)
  | sibling => lighterLeft short color parent sibling

/-- The mirror image of `rebalanceLeft`. -/
def rebalanceRight (short : ColorTree α) (color : Color) (parent : α) :
    ColorTree α → ColorTree α × Bool
  | node .red outer sibling inner =>
    (node color outer sibling (lighterRight short .red parent (inner.paint .black)).1, false)
  | sibling => lighterRight short color parent sibling

@[simp] theorem toList_lighterLeft (short : ColorTree α) (color : Color) (parent : α)
    (sibling : ColorTree α) :
    (lighterLeft short color parent sibling).1.toList =
      short.toList ++ parent :: sibling.toList := by
  fun_cases lighterLeft short color parent sibling <;> simp

@[simp] theorem toList_lighterRight (short : ColorTree α) (color : Color) (parent : α)
    (sibling : ColorTree α) :
    (lighterRight short color parent sibling).1.toList =
      sibling.toList ++ parent :: short.toList := by
  fun_cases lighterRight short color parent sibling <;> simp

@[simp] theorem toList_rebalanceLeft (short : ColorTree α) (color : Color) (parent : α)
    (sibling : ColorTree α) :
    (rebalanceLeft short color parent sibling).1.toList =
      short.toList ++ parent :: sibling.toList := by
  fun_cases rebalanceLeft short color parent sibling <;> simp

@[simp] theorem toList_rebalanceRight (short : ColorTree α) (color : Color) (parent : α)
    (sibling : ColorTree α) :
    (rebalanceRight short color parent sibling).1.toList =
      sibling.toList ++ parent :: short.toList := by
  fun_cases rebalanceRight short color parent sibling <;> simp

/-- `__rb_erase_color`: the subtree in the hole is one black node short. -/
def eraseColor : ColorTree α → Spine α → ColorTree α
  | tree, [] => tree
  | tree, .inLeft color value right :: rest =>
    match rebalanceLeft tree color value right with
    | (fixed, true) => eraseColor fixed rest
    | (fixed, false) => plug fixed rest
  | tree, .inRight color left value :: rest =>
    match rebalanceRight tree color value left with
    | (fixed, true) => eraseColor fixed rest
    | (fixed, false) => plug fixed rest

@[simp] theorem toList_eraseColor (tree : ColorTree α) (path : Spine α) :
    (eraseColor tree path).toList = before path ++ (tree.toList ++ after path) := by
  induction path generalizing tree with
  | nil => simp [eraseColor, before, after]
  | cons frame rest ih =>
    cases frame with
    | inLeft color v right =>
      have kept := toList_rebalanceLeft tree color v right
      simp only [eraseColor]
      split <;> rename_i fixed step <;> rw [step] at kept <;>
        simp_all [before, after]
    | inRight color left v =>
      have kept := toList_rebalanceRight tree color v left
      simp only [eraseColor]
      split <;> rename_i fixed step <;> rw [step] at kept <;>
        simp_all [before, after]

/-- Close the hole of a removed node: a remaining child moves up and is painted,
a missing child leaves the tree short when the removed node was black. -/
def closeHole (removed paintAs : Color) (path : Spine α) : ColorTree α → ColorTree α
  | nil => if removed = .black then eraseColor nil path else plug nil path
  | node color left value right => plug ((node color left value right).paint paintAs) path

@[simp] theorem toList_closeHole (removed paintAs : Color) (path : Spine α) (tree : ColorTree α) :
    (closeHole removed paintAs path tree).toList =
      before path ++ (tree.toList ++ after path) := by
  cases tree with
  | nil =>
    simp only [closeHole]
    split <;> simp
  | node => simp only [closeHole, toList_plug, toList_paint]

/-! ## A node together with its path -/

/-- A node of a tree, reached from the root along `path`. -/
structure Zipper (α : Type u) where
  color : Color
  left : ColorTree α
  value : α
  right : ColorTree α
  path : Spine α

namespace Zipper

def tree (zipper : Zipper α) : ColorTree α :=
  plug (node zipper.color zipper.left zipper.value zipper.right) zipper.path

/-- Values in front of the node. -/
def before (zipper : Zipper α) : List α :=
  zipper.path.before ++ zipper.left.toList

/-- Values behind the node. -/
def after (zipper : Zipper α) : List α :=
  zipper.right.toList ++ zipper.path.after

def set (zipper : Zipper α) (value : α) : Zipper α :=
  { zipper with value }

def leftmost (color : Color) (value : α) (right : ColorTree α) : ColorTree α → Spine α → Zipper α
  | nil, path => ⟨color, nil, value, right, path⟩
  | node color' left' value' right', path =>
    leftmost color' value' right' left' (.inLeft color value right :: path)

/-- `rb_erase`: a node with two children is replaced by its in-order successor. -/
def erase (zipper : Zipper α) : ColorTree α :=
  match zipper.left, zipper.right with
  | nil, child => closeHole zipper.color zipper.color zipper.path child
  | node color left value right, nil =>
    plug ((node color left value right).paint zipper.color) zipper.path
  | node color left value right, node color' left' value' right' =>
    let successor := leftmost color' value' right' left' []
    closeHole successor.color .black
      (successor.path ++
        .inRight zipper.color (node color left value right) successor.value :: zipper.path)
      successor.right

@[simp] theorem toList_tree (zipper : Zipper α) :
    zipper.tree.toList = zipper.before ++ zipper.value :: zipper.after := by
  simp [tree, before, after]

@[simp] theorem set_value (zipper : Zipper α) (v : α) :
    (zipper.set v).value = v := rfl

@[simp] theorem set_before (zipper : Zipper α) (v : α) :
    (zipper.set v).before = zipper.before := rfl

@[simp] theorem set_after (zipper : Zipper α) (v : α) :
    (zipper.set v).after = zipper.after := rfl

theorem leftmost_left (color : Color) (v : α) (left right : ColorTree α) (path : Spine α) :
    (leftmost color v right left path).left = nil := by
  induction left generalizing color v right path with
  | nil => rfl
  | node color' left' value' right' ihLeft _ => exact ihLeft ..

theorem leftmost_spec (color : Color) (v : α) (left right : ColorTree α) (path : Spine α) :
    (leftmost color v right left path).before = path.before ∧
      (leftmost color v right left path).value ::
          (leftmost color v right left path).after =
        left.toList ++ v :: (right.toList ++ path.after) := by
  induction left generalizing color v right path with
  | nil => simp [leftmost, before, after]
  | node color' left' value' right' ihLeft _ =>
    obtain ⟨sameBefore, sameAfter⟩ :=
      ihLeft color' value' right' (.inLeft color v right :: path)
    simp only [leftmost]
    exact ⟨by simpa [Spine.before] using sameBefore, by simpa [Spine.after] using sameAfter⟩

@[simp] theorem toList_erase (zipper : Zipper α) :
    zipper.erase.toList = zipper.before ++ zipper.after := by
  obtain ⟨color, left, v, right, path⟩ := zipper
  cases left with
  | nil => simp [erase, before, after]
  | node leftColor leftLeft leftValue leftRight =>
    cases right with
    | nil => simp [erase, before, after]
    | node color' left' value' right' =>
      have noLeft := leftmost_left color' value' left' right' []
      obtain ⟨sameBefore, sameAfter⟩ := leftmost_spec color' value' left' right' []
      simp only [before, after, noLeft, Spine.before, Spine.after, toList_nil,
        List.append_nil] at sameBefore sameAfter
      simp only [erase, toList_closeHole, before_append, after_append]
      simp [before, after, Spine.before, Spine.after, sameBefore, ← sameAfter]

/-- The node closest above on the right of a hole: the first ancestor entered from
its left child. -/
def ascendNext (below : ColorTree α) : Spine α → Option (Zipper α)
  | [] => none
  | .inLeft color value right :: rest => some ⟨color, below, value, right, rest⟩
  | .inRight color left value :: rest => ascendNext (node color left value below) rest

/-- The mirror image of `ascendNext`. -/
def ascendPrev (below : ColorTree α) : Spine α → Option (Zipper α)
  | [] => none
  | .inLeft color value right :: rest => ascendPrev (node color below value right) rest
  | .inRight color left value :: rest => some ⟨color, left, value, below, rest⟩

def rightmost (color : Color) (left : ColorTree α) (value : α) : ColorTree α → Spine α → Zipper α
  | nil, path => ⟨color, left, value, nil, path⟩
  | node color' left' value' right', path =>
    rightmost color' left' value' right' (.inRight color left value :: path)

/-- `rb_next`. -/
def next? (zipper : Zipper α) : Option (Zipper α) :=
  match zipper.right with
  | nil => ascendNext (node zipper.color zipper.left zipper.value nil) zipper.path
  | node color left value right =>
    some (leftmost color value right left
      (.inRight zipper.color zipper.left zipper.value :: zipper.path))

/-- `rb_prev`. -/
def prev? (zipper : Zipper α) : Option (Zipper α) :=
  match zipper.left with
  | nil => ascendPrev (node zipper.color nil zipper.value zipper.right) zipper.path
  | node color left value right =>
    some (rightmost color left value right
      (.inLeft zipper.color zipper.value zipper.right :: zipper.path))

theorem rightmost_spec (color : Color) (v : α) (left right : ColorTree α) (path : Spine α) :
    (rightmost color left v right path).after = path.after ∧
      (rightmost color left v right path).before ++
          [(rightmost color left v right path).value] =
        path.before ++ (left.toList ++ v :: right.toList) := by
  induction right generalizing color v left path with
  | nil => simp [rightmost, before, after]
  | node color' left' value' right' _ ihRight =>
    obtain ⟨sameAfter, sameBefore⟩ :=
      ihRight color' value' left' (.inRight color left v :: path)
    simp only [rightmost]
    exact ⟨by simpa [Spine.after] using sameAfter, by simpa [Spine.before] using sameBefore⟩

variable {below : ColorTree α} {found zipper : Zipper α} {path : Spine α}

theorem ascendNext_none (missing : ascendNext below path = none) : path.after = [] := by
  induction path generalizing below with
  | nil => rfl
  | cons frame rest ih =>
    cases frame with
    | inLeft => simp [ascendNext] at missing
    | inRight => exact ih missing

theorem ascendNext_some (reached : ascendNext below path = some found) :
    found.before = path.before ++ below.toList ∧
      found.value :: found.after = path.after := by
  induction path generalizing below with
  | nil => simp [ascendNext] at reached
  | cons frame rest ih =>
    cases frame with
    | inLeft color v right =>
      simp only [ascendNext, Option.some.injEq] at reached
      subst reached
      simp [before, after, Spine.before, Spine.after]
    | inRight color left v =>
      simpa [Spine.before, Spine.after] using ih reached

theorem ascendPrev_none (missing : ascendPrev below path = none) : path.before = [] := by
  induction path generalizing below with
  | nil => rfl
  | cons frame rest ih =>
    cases frame with
    | inLeft => exact ih missing
    | inRight => simp [ascendPrev] at missing

theorem ascendPrev_some (reached : ascendPrev below path = some found) :
    found.before ++ [found.value] = path.before ∧
      found.after = below.toList ++ path.after := by
  induction path generalizing below with
  | nil => simp [ascendPrev] at reached
  | cons frame rest ih =>
    cases frame with
    | inLeft color v right =>
      simpa [Spine.before, Spine.after] using ih reached
    | inRight color left v =>
      simp only [ascendPrev, Option.some.injEq] at reached
      subst reached
      simp [before, after, Spine.before, Spine.after]

theorem next?_none (last : zipper.next? = none) : zipper.after = [] := by
  obtain ⟨color, left, v, right, path⟩ := zipper
  cases right with
  | nil => simpa [after] using ascendNext_none last
  | node => simp [next?] at last

theorem next?_some (reached : zipper.next? = some found) :
    found.before = zipper.before ++ [zipper.value] ∧
      found.value :: found.after = zipper.after := by
  obtain ⟨color, left, v, right, path⟩ := zipper
  cases right with
  | nil => simpa [before, after] using ascendNext_some reached
  | node color' left' value' right' =>
    simp only [next?, Option.some.injEq] at reached
    subst reached
    simpa [before, after, Spine.before, Spine.after] using
      leftmost_spec color' value' left' right' (.inRight color left v :: path)

theorem prev?_none (first : zipper.prev? = none) :
    zipper.before = [] := by
  obtain ⟨color, left, v, right, path⟩ := zipper
  cases left with
  | nil => simpa [before] using ascendPrev_none first
  | node => simp [prev?] at first

theorem prev?_some (reached : zipper.prev? = some found) :
    found.before ++ [found.value] = zipper.before ∧
      found.after = zipper.value :: zipper.after := by
  obtain ⟨color, left, v, right, path⟩ := zipper
  cases left with
  | nil => simpa [before, after] using ascendPrev_some reached
  | node color' left' value' right' =>
    simp only [prev?, Option.some.injEq] at reached
    subst reached
    have spec := rightmost_spec color' value' left' right' (.inLeft color v right :: path)
    simpa [before, after, Spine.before, Spine.after, and_comm] using spec

/-- The value of `rb_next`. -/
def nextValue? (zipper : Zipper α) : Option α :=
  zipper.next?.map value

/-- The value of `rb_prev`. -/
def prevValue? (zipper : Zipper α) : Option α :=
  zipper.prev?.map value

/-- `rb_erase` of the next node. -/
def eraseNext (zipper : Zipper α) : ColorTree α :=
  match zipper.next? with
  | some right => right.erase
  | none => zipper.tree

/-- `rb_erase` of the previous node. -/
def erasePrev (zipper : Zipper α) : ColorTree α :=
  match zipper.prev? with
  | some left => left.erase
  | none => zipper.tree

theorem nextValue?_eq (zipper : Zipper α) : zipper.nextValue? = zipper.after.head? := by
  unfold nextValue?
  cases reached : zipper.next? with
  | none => simp [next?_none reached]
  | some right => simp [← (next?_some reached).2]

theorem prevValue?_eq (zipper : Zipper α) : zipper.prevValue? = zipper.before.getLast? := by
  unfold prevValue?
  cases reached : zipper.prev? with
  | none => simp [prev?_none reached]
  | some left => simp [← (prev?_some reached).1]

@[simp] theorem toList_eraseNext (zipper : Zipper α) :
    zipper.eraseNext.toList = zipper.before ++ zipper.value :: zipper.after.tail := by
  unfold eraseNext
  cases reached : zipper.next? with
  | none => simp [next?_none reached]
  | some right => simp [(next?_some reached).1, ← (next?_some reached).2]

@[simp] theorem toList_erasePrev (zipper : Zipper α) :
    zipper.erasePrev.toList = zipper.before.dropLast ++ zipper.value :: zipper.after := by
  unfold erasePrev
  cases reached : zipper.prev? with
  | none => simp [prev?_none reached]
  | some left => simp [← (prev?_some reached).1, (prev?_some reached).2]

end Zipper

/-! ## Searching -/

/-- What a descent does at a node. -/
inductive Turn where
  | left
  | right
  | stop
  deriving DecidableEq, Repr

/-- Where a descent ends. -/
inductive Landing (α : Type u) where
  | found (zipper : Zipper α)
  | hole (path : Spine α)

def descend (turn : α → Turn) : ColorTree α → Spine α → Landing α
  | nil, path => .hole path
  | node color left value right, path =>
    match turn value with
    | .stop => .found ⟨color, left, value, right, path⟩
    | .left => descend turn left (.inLeft color value right :: path)
    | .right => descend turn right (.inRight color left value :: path)

/-- The first node in order whose value satisfies `test`: a loop over `rb_first` and
`rb_next`. -/
def search (test : α → Bool) : ColorTree α → Spine α → Option (Zipper α)
  | nil, _ => none
  | node color left value right, path =>
    match search test left (.inLeft color value right :: path) with
    | some zipper => some zipper
    | none =>
      if test value then some ⟨color, left, value, right, path⟩
      else search test right (.inRight color left value :: path)

variable {turn : α → Turn}

variable {path : Spine α} {test : α → Bool} {tree : ColorTree α} {zipper : Zipper α}

theorem descend_found (landed : descend turn tree path = .found zipper) :
    turn zipper.value = .stop ∧ zipper.tree.toList = (plug tree path).toList := by
  induction tree generalizing path with
  | nil => simp [descend] at landed
  | node color left v right ihLeft ihRight =>
    simp only [descend] at landed
    split at landed
    next stopped =>
      simp only [Landing.found.injEq] at landed
      subst landed
      exact ⟨stopped, rfl⟩
    · exact ihLeft landed
    · exact ihRight landed

/-- A descent whose turns agree with the order ends in the hole between the values
it passed on their right and the values it passed on their left. -/
theorem descend_hole {hole : Spine α} (landed : descend turn tree path = .hole hole)
    (monotone : (plug tree path).toList.Pairwise fun x y =>
      (turn x = .left → turn y = .left) ∧ (turn y = .right → turn x = .right))
    (passedLeft : ∀ x ∈ path.before, turn x = .right)
    (passedRight : ∀ x ∈ path.after, turn x = .left) :
    (plug tree path).toList = hole.before ++ hole.after ∧
      (∀ x ∈ hole.before, turn x = .right) ∧ ∀ x ∈ hole.after, turn x = .left := by
  induction tree generalizing path with
  | nil =>
    simp only [descend, Landing.hole.injEq] at landed
    subst landed
    exact ⟨by simp, passedLeft, passedRight⟩
  | node color left v right ihLeft ihRight =>
    have ordered := monotone
    simp only [toList_plug, toList_node, List.append_assoc, List.cons_append,
      List.pairwise_append, List.pairwise_cons, List.mem_append, List.mem_cons] at ordered
    obtain ⟨-, ⟨-, ⟨behind, -⟩, leftBefore⟩, -⟩ := ordered
    simp only [descend] at landed
    split at landed
    · simp at landed
    next turnLeft =>
      refine ihLeft landed monotone (by simpa [before] using passedLeft) ?_
      simp only [after, List.mem_cons, List.mem_append]
      rintro x (rfl | inRight | inAfter)
      · exact turnLeft
      · exact (behind x (.inl inRight)).1 turnLeft
      · exact passedRight x inAfter
    next turnRight =>
      refine ihRight landed monotone ?_ (by simpa [after] using passedRight)
      simp only [before, List.mem_append, List.mem_singleton]
      rintro x (inBefore | inLeft | rfl)
      · exact passedLeft x inBefore
      · exact (leftBefore x inLeft v (.inl rfl)).2 turnRight
      · exact turnRight

theorem append_inj_of_forall {property : α → Prop} {front back front' back' : List α}
    (same : front ++ back = front' ++ back') (holds : ∀ x ∈ front, property x)
    (fails : ∀ x ∈ back, ¬ property x) (holds' : ∀ x ∈ front', property x)
    (fails' : ∀ x ∈ back', ¬ property x) : front = front' ∧ back = back' := by
  classical
  have filtered := congrArg (List.filter fun x => decide (property x)) same
  simp only [List.filter_append] at filtered
  have keep : ∀ l : List α, (∀ x ∈ l, property x) →
      l.filter (fun x => decide (property x)) = l := by
    intro l all
    exact List.filter_eq_self.mpr fun x mem => decide_eq_true (all x mem)
  have drop : ∀ l : List α, (∀ x ∈ l, ¬ property x) →
      l.filter (fun x => decide (property x)) = [] := by
    intro l none
    exact List.filter_eq_nil_iff.mpr fun x mem => by simpa using none x mem
  rw [keep _ holds, keep _ holds', drop _ fails, drop _ fails', List.append_nil,
    List.append_nil] at filtered
  subst filtered
  exact ⟨rfl, List.append_cancel_left same⟩

/-- A descent ends in the hole between the values that it passes on their right and those that it
passes on their left. -/
theorem descend_at {front back : List α} (position : tree.toList = front ++ back)
    (below : ∀ x ∈ front, turn x = .right) (above : ∀ x ∈ back, turn x = .left) :
    ∃ hole, descend turn tree [] = .hole hole ∧ hole.before = front ∧ hole.after = back := by
  cases landed : descend turn tree [] with
  | found zipper =>
    obtain ⟨stopped, list⟩ := descend_found landed
    have among : zipper.value ∈ front ++ back := by
      rw [← position, ← show zipper.tree.toList = tree.toList from list]
      simp
    rcases List.mem_append.mp among with inFront | inBack
    · simp [below _ inFront] at stopped
    · simp [above _ inBack] at stopped
  | hole hole =>
    have monotone : tree.toList.Pairwise fun x y =>
        (turn x = .left → turn y = .left) ∧ (turn y = .right → turn x = .right) := by
      rw [position, List.pairwise_append]
      refine ⟨List.pairwise_of_forall_mem_list fun x inFront y inFront' => ?_,
        List.pairwise_of_forall_mem_list fun x inBack y inBack' => ?_, fun x inFront y inBack => ?_⟩
      · simp [below x inFront, below y inFront']
      · simp [above x inBack, above y inBack']
      · simp [below x inFront, above y inBack]
    obtain ⟨list, isRight, isLeft⟩ := descend_hole landed monotone (by simp [before])
      (by simp [after])
    obtain ⟨before, after⟩ := append_inj_of_forall (list.symm.trans position) isRight
      (fun x inAfter => by simp [isLeft x inAfter]) below (fun x inBack => by simp [above x inBack])
    exact ⟨hole, rfl, before, after⟩

theorem search_some (found : search test tree path = some zipper) :
    test zipper.value = true ∧ zipper.tree.toList = (plug tree path).toList := by
  induction tree generalizing path with
  | nil => simp [search] at found
  | node color left v right ihLeft ihRight =>
    simp only [search] at found
    split at found
    next reached =>
      cases found
      exact ihLeft reached
    · split at found
      next holds =>
        cases found
        exact ⟨holds, rfl⟩
      · exact ihRight found

theorem search_none
    (missing : search test tree path = none) : ∀ x ∈ tree.toList, test x = false := by
  induction tree generalizing path with
  | nil => simp
  | node color left v right ihLeft ihRight =>
    simp only [search] at missing
    split at missing
    · simp at missing
    next leftMissing =>
      split at missing
      · simp at missing
      next fails =>
        simp only [toList_node, List.mem_append, List.mem_cons]
        rintro x (inLeft | rfl | inRight)
        · exact ihLeft leftMissing x inLeft
        · simpa using fails
        · exact ihRight missing x inRight

theorem search_before (found : search test tree path = some zipper)
    (passed : ∀ x ∈ path.before, test x = false) : ∀ x ∈ zipper.before, test x = false := by
  induction tree generalizing path with
  | nil => simp [search] at found
  | node color left v right ihLeft ihRight =>
    simp only [search] at found
    split at found
    next reached =>
      cases found
      exact ihLeft reached (by simpa [before] using passed)
    next missing =>
      have leftFails := search_none missing
      split at found
      · cases found
        simp only [Zipper.before, List.mem_append]
        rintro x (inPath | inLeft)
        · exact passed x inPath
        · exact leftFails x inLeft
      next fails =>
        refine ihRight found fun x => ?_
        simp only [before, List.mem_append, List.mem_singleton]
        rintro (inPath | inLeft | rfl)
        · exact passed x inPath
        · exact leftFails x inLeft
        · simpa using fails

end RbTree
