/-
Reparse/Tree/Walk.lean

A walk through a node and everything below it, each node before its children.

The walk keeps the nodes still to be visited on a stack.  The children of a
node are put on it from the last to the first, so that the first is on top.
-/
import Reparse.Tree.Cursor

namespace Reparse

/-- The nodes still to be visited, the next one first. -/
abbrev Walk := List Node

namespace Walk

/-- The next node of a walk. -/
def next : Walk → Option (Node × Walk)
  | [] => none
  | node :: rest => some (node, node.childrenFromBack.foldl (fun walk child => child :: walk) rest)

/-- At most `count` nodes of a walk. -/
def take : Nat → Walk → List Node
  | 0, _ => []
  | count + 1, walk =>
    match next walk with
    | none => []
    | some (node, walk) => node :: take count walk

end Walk

namespace Subtree

mutual

/-- The number of subtrees in a subtree, itself included. -/
def count : Subtree → Nat
  | mk _ children => counts children + 1

/-- The number of subtrees in a row. -/
def counts : List Subtree → Nat
  | [] => 0
  | tree :: rest => count tree + counts rest

end

end Subtree

/-- A node and everything visible below it, each before its children. -/
def Node.descendants (node : Node) : List Node :=
  Walk.take node.subtree.count [node]

end Reparse
