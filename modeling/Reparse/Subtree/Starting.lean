/-
Reparse/Subtree/Starting.lean

The subtrees that start at a given position of the text.
-/
import Reparse.Subtree

namespace Reparse.Subtree

mutual

/-- The subtrees below this one that start at `position` and have a width,
outermost first; this one starts at `start`. -/
def startingAt (position start : Nat) : Subtree → List Subtree
  | mk _ children => startingAmong position start children

/-- The same for a row of subtrees and everything below them. -/
def startingAmong (position start : Nat) : List Subtree → List Subtree
  | [] => []
  | tree :: rest =>
    let stop := start + tree.totalSize
    if position < start then []
    else if (start = position && 0 < tree.totalSize) || position < stop then
      if start = position then tree :: startingAt position start tree
      else startingAt position start tree
    else startingAmong position stop rest

end

end Reparse.Subtree
