/-
Reparse/Tree/Cursor.lean

A cursor over the visible children of a node that moves from both ends.

Each end keeps a stack of frames, one for each hidden node that it is inside
of.  A frame holds the subtrees that are still ahead: from the front in order
with the start of the next one, from the back in reverse with its end.  The
ends do not know of each other; the count of children not yet given keeps
them apart.
-/
import Reparse.Tree

namespace Reparse

/-- A row of subtrees that an end of a cursor is inside of. -/
structure Frame where
  /-- The subtrees ahead, the next one first. -/
  ahead : List Subtree
  /-- The near edge of the next one. -/
  offset : Nat

/-! ### How far an end can go -/

namespace Subtree

mutual

/-- A bound on the steps inside a subtree. -/
def weight : Subtree → Nat
  | mk _ children => weights children + 2

/-- A bound on the steps along a row. -/
def weights : List Subtree → Nat
  | [] => 0
  | tree :: rest => weight tree + weights rest

end

theorem weights_append (xs ys : List Subtree) : weights (xs ++ ys) = weights xs + weights ys := by
  induction xs with
  | nil => simp [weights]
  | cons x xs ih => simp [weights, ih]; omega

theorem weights_reverse (xs : List Subtree) : weights xs.reverse = weights xs := by
  induction xs with
  | nil => rfl
  | cons x xs ih => simp [weights, weights_append, ih]; omega

theorem weight_eq (tree : Subtree) : weight tree = weights tree.children + 2 := by
  cases tree; rfl

end Subtree

/-- A bound on the steps through a stack of frames. -/
def Frame.weights : List Frame → Nat
  | [] => 0
  | frame :: rest => Subtree.weights frame.ahead + 1 + weights rest

/-! ### Steps of the ends -/

namespace Frame

/-- The next visible subtree from the front, with its position. -/
def next : List Frame → Option (Subtree × Nat) × List Frame
  | [] => (none, [])
  | ⟨[], _⟩ :: rest => next rest
  | ⟨tree :: ahead, offset⟩ :: rest =>
    let behind : List Frame := ⟨ahead, offset + tree.totalSize⟩ :: rest
    if tree.marks.visible then (some (tree, offset), behind)
    else if tree.marks.token then next behind
    else next (⟨tree.children, offset⟩ :: behind)
termination_by frames => weights frames
decreasing_by
  all_goals simp [weights, Subtree.weights, Subtree.weight_eq]
  all_goals omega

/-- The next visible subtree from the back, with its position. -/
def nextBack : List Frame → Option (Subtree × Nat) × List Frame
  | [] => (none, [])
  | ⟨[], _⟩ :: rest => nextBack rest
  | ⟨tree :: ahead, offset⟩ :: rest =>
    let start := offset - tree.totalSize
    let behind : List Frame := ⟨ahead, start⟩ :: rest
    if tree.marks.visible then (some (tree, start), behind)
    else if tree.marks.token then nextBack behind
    else nextBack (⟨tree.children.reverse, offset⟩ :: behind)
termination_by frames => weights frames
decreasing_by
  all_goals simp [weights, Subtree.weights, Subtree.weight_eq, Subtree.weights_reverse]
  all_goals omega

end Frame

/-! ### Cursors -/

/-- The visible children of a node that were not yet given from either end. -/
structure Cursor where
  language : Language
  front : List Frame
  back : List Frame
  /-- How many are left. -/
  remaining : Nat

/-- A cursor over all visible children of a node. -/
def Node.cursor (node : Node) : Cursor where
  language := node.language
  front := [⟨node.subtree.children, node.start⟩]
  back := [⟨node.subtree.children.reverse, node.start + node.subtree.totalSize⟩]
  remaining := node.childCount

namespace Cursor

/-- The first child that is left. -/
def next (cursor : Cursor) : Option Node × Cursor :=
  if cursor.remaining = 0 then (none, cursor)
  else
    match Frame.next cursor.front with
    | (none, front) => (none, { cursor with front })
    | (some (subtree, start), front) =>
      (some ⟨subtree, start, cursor.language⟩,
        { cursor with front, remaining := cursor.remaining - 1 })

/-- The last child that is left. -/
def nextBack (cursor : Cursor) : Option Node × Cursor :=
  if cursor.remaining = 0 then (none, cursor)
  else
    match Frame.nextBack cursor.back with
    | (none, back) => (none, { cursor with back })
    | (some (subtree, start), back) =>
      (some ⟨subtree, start, cursor.language⟩,
        { cursor with back, remaining := cursor.remaining - 1 })

/-- At most `count` children from the back. -/
def takeBack : Nat → Cursor → List Node
  | 0, _ => []
  | count + 1, cursor =>
    match cursor.nextBack with
    | (none, _) => []
    | (some node, cursor) => node :: takeBack count cursor

end Cursor

/-- The visible children, the last one first. -/
def Node.childrenFromBack (node : Node) : List Node :=
  Cursor.takeBack node.childCount node.cursor

end Reparse
