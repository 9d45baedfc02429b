/-
Reparse/Subtree/Edit.lean

How a tree follows a change of its text.

An edit is handed down to every subtree that it touches or whose token it may
change; those are marked.  Inserted text goes to the first subtree touched,
and each of them gives up what was deleted of it.
-/
import Reparse.Span
import Reparse.Subtree

namespace Reparse

/-- A change of the source text: the bytes from `start` up to `oldEnd` became
those from `start` up to `newEnd`. -/
structure TextEdit where
  start : Nat
  oldEnd : Nat
  newEnd : Nat
deriving DecidableEq, Inhabited

/-- The edit that puts `new` in the place of the bytes from `start` up to `stop`. -/
def TextEdit.replace (start stop : Nat) (new : Text) : TextEdit :=
  ⟨start, stop, start + new.size⟩

/-- Both ends are made to lie at or behind the start, and then the low 32 bits
of all three are kept. -/
def TextEdit.normalize (edit : TextEdit) : TextEdit :=
  ⟨Span.lowBits edit.start, Span.lowBits (max edit.oldEnd edit.start),
    Span.lowBits (max edit.newEnd edit.start)⟩

/-- The edit as seen from `offset`; what lies before is cut off. -/
def TextEdit.seenFrom (edit : TextEdit) (offset : Nat) : TextEdit :=
  ⟨edit.start - offset, edit.oldEnd - offset, edit.newEnd - offset⟩

/-- The extent of a leaf after an edit. -/
def Head.resize (head : Head) (edit : TextEdit) : Head :=
  let total := head.padding + head.size
  if edit.oldEnd ≤ head.padding then
    -- entirely in the padding
    { head with
      padding := head.padding - (edit.oldEnd - edit.start) + (edit.newEnd - edit.start) }
  else if edit.start < head.padding then
    -- from the padding into the content
    { head with padding := edit.newEnd, size := total - edit.oldEnd }
  else if edit.start < total || (edit.start = total && edit.oldEnd = edit.start) then
    -- in the content, or an insertion right behind it
    { head with size := edit.newEnd - head.padding + (total - edit.oldEnd) }
  else head

namespace Subtree

mutual

/-- The subtree after an edit that touches it; offsets count from its start,
padding included. -/
def edit (edit : TextEdit) : Subtree → Subtree
  | mk head children =>
    let head := { head with marks := { head.marks with hasChanges := true } }
    if children.isEmpty then mk (head.resize edit) []
    else
      let children := editChildren edit (edit.oldEnd = edit.start) true 0 children
      mk (summarize head children) children

/-- The children from offset `left` on after an edit of their parent.  `first`
says that none came before. -/
def editChildren (edit : TextEdit) (isInsertion first : Bool) (left : Nat) :
    List Subtree → List Subtree
  | [] => []
  | child :: rest =>
    let right := left + child.totalSize
    if right + child.lookahead < edit.start then
      child :: editChildren edit isInsertion false right rest
    else if edit.oldEnd < left || (left = edit.oldEnd && 0 < child.totalSize && !first) then
      child :: rest
    else
      let takesInsertion := edit.start < right || (isInsertion && right = edit.start)
      let later := if takesInsertion then { edit with newEnd := edit.start } else edit
      Subtree.edit (edit.seenFrom left) child :: editChildren later isInsertion false right rest

end

end Subtree

end Reparse
