/-
Reparse/Proofs/Subtree/Guarded.lean

Edits with subtractions that fail below zero.

Extents are machine numbers, and a difference of two of them has to be one too.
The guarded functions have no answer where a difference would be below zero.
The extents as seen from a child, and what is left of a leaf behind the deleted
text, stop at zero on purpose; those subtractions are the same here.

With ends that do not lie in front of the start, a guarded edit gives the
answer of the unguarded one, whatever the subtree: `edit?_eq`.
-/
import Reparse.Proofs.Subtree.Share

namespace Reparse.Guarded

/-- A difference that is not below zero. -/
def minus? (a b : Nat) : Option Nat :=
  if b ≤ a then some (a - b) else none

def resize? (head : Head) (edit : TextEdit) : Option Head :=
  let total := head.padding + head.size
  if edit.oldEnd ≤ head.padding then do
    let rest ← minus? head.padding (← minus? edit.oldEnd edit.start)
    let inserted ← minus? edit.newEnd edit.start
    some { head with padding := rest + inserted }
  else if edit.start < head.padding then
    some { head with padding := edit.newEnd, size := total - edit.oldEnd }
  else if edit.start < total || (edit.start = total && edit.oldEnd = edit.start) then do
    let front ← minus? edit.newEnd head.padding
    some { head with size := front + (total - edit.oldEnd) }
  else some head

def summarize? (head : Head) : List Subtree → Option Head
  | [] => some head
  | first :: rest => do
    let children := first :: rest
    let size ← minus? (Subtree.totalSizes children) first.padding
    let lookahead ← minus? (Subtree.reach children) (Subtree.totalSizes children)
    some { head with padding := first.padding, size, lookahead }

mutual

def edit? (edit : TextEdit) : Subtree → Option Subtree
  | .mk head children => do
    let head := { head with marks := { head.marks with hasChanges := true } }
    if children.isEmpty then
      some (.mk (← resize? head edit) [])
    else
      let children ← editChildren? edit (edit.oldEnd = edit.start) true 0 children
      some (.mk (← summarize? head children) children)

def editChildren? (edit : TextEdit) (isInsertion first : Bool) (left : Nat) :
    List Subtree → Option (List Subtree)
  | [] => some []
  | child :: rest => do
    let right := left + child.totalSize
    if right + child.lookahead < edit.start then
      some (child :: (← editChildren? edit isInsertion false right rest))
    else if edit.oldEnd < left || (left = edit.oldEnd && 0 < child.totalSize && !first) then
      some (child :: rest)
    else
      let takesInsertion := edit.start < right || (isInsertion && right = edit.start)
      let later := if takesInsertion then { edit with newEnd := edit.start } else edit
      let child ← edit? (edit.seenFrom left) child
      some (child :: (← editChildren? later isInsertion false right rest))

end

/-! ### Answers -/

theorem minus?_eq {a b : Nat} (h : b ≤ a) : minus? a b = some (a - b) :=
  if_pos h

theorem resize?_eq {head : Head} {edit : TextEdit} (ho : edit.start ≤ edit.oldEnd)
    (hn : edit.start ≤ edit.newEnd) : resize? head edit = some (head.resize edit) := by
  rw [resize?, Head.resize]
  split
  · rename_i inPadding
    rw [minus?_eq ho, Option.bind_eq_bind, Option.bind_some, minus?_eq hn]
    rw [minus?_eq (show edit.oldEnd - edit.start ≤ head.padding by omega)]
    rfl
  · split
    · rfl
    · rename_i inContent
      split
      · rw [minus?_eq (show head.padding ≤ edit.newEnd by omega)]
        rfl
      · rfl

theorem summarize?_eq (head : Head) (children : List Subtree) :
    summarize? head children = some (Subtree.summarize head children) := by
  cases children with
  | nil => rfl
  | cons first rest =>
    have padding : first.padding ≤ Subtree.totalSizes (first :: rest) := by
      rw [Subtree.totalSizes, Subtree.totalSize]
      omega
    rw [summarize?, minus?_eq padding, minus?_eq (Subtree.totalSizes_le_reach _)]
    rfl

mutual

/-- **No difference is below zero** in an edit. -/
theorem edit?_eq {edit : TextEdit} (ho : edit.start ≤ edit.oldEnd)
    (hn : edit.start ≤ edit.newEnd) (tree : Subtree) : edit? edit tree = some (tree.edit edit) := by
  obtain ⟨head, children⟩ := tree
  rw [edit?, Subtree.edit]
  dsimp only
  split
  · rw [resize?_eq ho hn]
    rfl
  · rw [editChildren?_eq ho hn, Option.bind_eq_bind, Option.bind_some, summarize?_eq]
    rfl

theorem editChildren?_eq {edit : TextEdit} (ho : edit.start ≤ edit.oldEnd)
    (hn : edit.start ≤ edit.newEnd) (isInsertion first : Bool) (left : Nat) (trees : List Subtree) :
    editChildren? edit isInsertion first left trees =
      some (Subtree.editChildren edit isInsertion first left trees) := by
  cases trees with
  | nil => rw [editChildren?, Subtree.editChildren]
  | cons child rest =>
    rw [editChildren?, Subtree.editChildren]
    dsimp only
    split
    · rw [editChildren?_eq ho hn]
      rfl
    · split
      · rfl
      · -- neither the view from the child nor the loss of the inserted text turns the edit round
        have seen : (edit.seenFrom left).start ≤ (edit.seenFrom left).oldEnd ∧
            (edit.seenFrom left).start ≤ (edit.seenFrom left).newEnd := by
          constructor <;> exact Nat.sub_le_sub_right ‹_› left
        rw [edit?_eq seen.1 seen.2, Option.bind_eq_bind, Option.bind_some]
        rw [editChildren?_eq (by split <;> exact ho) (by split <;> simp [hn])]
        rfl

end

end Reparse.Guarded
