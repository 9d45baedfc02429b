/-
Reparse/Proofs/Tree/Moved.lean

How a tree moves with its text.

An edit changes nothing of a tree but extents and marks of changes: the `frame`
of it, which forgets these, stays the same.  The extents change as the text
does.  What an edit inserts is taken in by one leaf, and what it deletes is
given up by those that had it.  So the root is as long as the text after the
edit, and all leaves that lie apart from the edit keep their extents, in front
of it at their places and behind it as far from the end as before:
`Tree.edit_moves`.
-/
import Reparse.Proofs.Subtree.Descent
import Reparse.Proofs.Subtree.Guarded
import Reparse.Proofs.Tree.Grown

namespace Reparse

namespace Subtree

/-! ### Frames -/

mutual

/-- The subtree without extents and without marks of changes. -/
def frame : Subtree → Subtree
  | mk head children =>
    mk { head with
      padding := 0, size := 0, lookahead := 0
      marks := { head.marks with hasChanges := false } } (frames children)

/-- The same of a row of subtrees. -/
def frames : List Subtree → List Subtree
  | [] => []
  | tree :: trees => frame tree :: frames trees

end

@[simp] theorem frames_eq_map (trees : List Subtree) : frames trees = trees.map frame := by
  induction trees with
  | nil => rfl
  | cons tree trees ih => simp [frames, ih]

/-- The frame of a node follows from those of its children and from what says which node it is. -/
theorem frame_congr {a b : Subtree} (symbol : a.symbol = b.symbol)
    (state : a.parseState = b.parseState)
    (marks : { a.marks with hasChanges := false } = { b.marks with hasChanges := false })
    (children : a.children.map frame = b.children.map frame) : a.frame = b.frame := by
  obtain ⟨⟨⟩, as⟩ := a
  obtain ⟨⟨⟩, bs⟩ := b
  simp only [Subtree.symbol, Subtree.parseState, Subtree.marks, Subtree.children,
    Subtree.head] at symbol state marks children
  rw [frame, frame, frames_eq_map, frames_eq_map, children, symbol, state]
  simp only [marks]

theorem map_frame_editRow {edit : TextEdit} {first : Bool} {left : Nat} {trees : List Subtree}
    (kept : ∀ tree ∈ trees, ∀ share, (tree.edit share).frame = tree.frame) :
    (editRow edit first left trees).map frame = trees.map frame := by
  induction trees generalizing first left with
  | nil => rfl
  | cons child rest ih =>
    obtain ⟨hc, hr⟩ := List.forall_mem_cons.mp kept
    rw [editRow, List.map_cons, List.map_cons, ih hr, editAt]
    split
    · rfl
    · rw [hc]

/-- **An edit changes only extents** and marks of changes. -/
@[simp] theorem frame_edit (edit : TextEdit) (tree : Subtree) :
    (tree.edit edit).frame = tree.frame := by
  induction tree using inductionOn generalizing edit with
  | mk head children ih =>
    apply frame_congr
    · rw [symbol_edit]
    · rw [parseState_edit]
    · rw [marks_edit]
    · rw [children_edit]
      exact map_frame_editRow ih

/-! ### Leaves apart from the edit -/

section Leaf

variable {edit : TextEdit} {tree leaf : Subtree} {path : List Nat} {position : Nat}
  (ho : edit.start ≤ edit.oldEnd) (hn : edit.start ≤ edit.newEnd)
  (hm : Throughout Measured tree) (there : tree.descend? path = some (position, leaf))
  (wide : 0 < leaf.totalSize)
include ho hn hm there wide

/-- A leaf that ends in front of an edit stays as it is, but it may get a mark. -/
theorem leaf_before (none : leaf.children = [])
    (ends : position + leaf.totalSize < edit.start ∨
      (position + leaf.totalSize = edit.start ∧ edit.start < edit.oldEnd)) :
    ∃ leaf', (tree.edit edit).descend? path = some (position, leaf') ∧
      leaf'.padding = leaf.padding ∧ leaf'.size = leaf.size := by
  obtain ⟨after, found, fate⟩ := exists_descend?_edit ho hn hm there
  cases fate with
  | before => exact ⟨leaf, found, rfl, rfl⟩
  | behind late =>
    simp only at late
    omega
  | touched =>
    rw [TextEdit.place_before _ ho (by simp only; omega)] at found
    refine ⟨_, found, ?_⟩
    obtain ⟨head, children⟩ := leaf
    obtain rfl : children = [] := none
    have width : head.padding + head.size = (Subtree.mk head []).totalSize := rfl
    rw [edit_leaf, resize_of_end]
    · exact ⟨rfl, rfl⟩
    · rw [TextEdit.start_share, TextEdit.oldEnd_share]
      show head.padding + head.size < _ ∨ head.padding + head.size = _ ∧ _
      omega
    · exact TextEdit.start_le_oldEnd_share ho

/-- What starts behind an edit, and not at the very front, moves as a whole. -/
theorem descend?_behind (late : edit.oldEnd ≤ position) (behind : 0 < position) :
    (tree.edit edit).descend? path = some (position - edit.oldEnd + edit.newEnd, leaf) := by
  obtain ⟨after, found, fate⟩ := exists_descend?_edit ho hn hm there
  cases fate with
  | before short =>
    simp only at short
    omega
  | behind => rw [found, Nat.add_comm]
  | touched reached =>
    exfalso
    apply reached
    have later : path.all (· == 0) = false := by
      rw [Bool.eq_false_iff]
      intro first
      rw [offset_eq_zero_of_first first there] at behind
      exact Nat.lt_irrefl 0 behind
    rcases Nat.lt_or_eq_of_le late with late | late
    · exact .inl late
    · exact .inr ⟨late.symm, wide, later⟩

end Leaf

end Subtree

/-! ### Edits of trees -/

open Subtree

/-- The edit of a tree with subtractions that fail below zero. -/
def Guarded.editTree? (edit : TextEdit) (tree : Tree) : Option Tree := do
  some { tree with root := ← Guarded.edit? edit.normalize tree.root }

/-- An edit with ends that fit into 32 bits is applied as it is. -/
theorem TextEdit.normalize_eq {edit : TextEdit} (ho : edit.start ≤ edit.oldEnd)
    (hn : edit.start ≤ edit.newEnd) (old : edit.oldEnd < 0x100000000)
    (new : edit.newEnd < 0x100000000) : edit.normalize = edit := by
  ext <;> simp only [TextEdit.normalize, Span.lowBits] <;> omega

namespace Tree

/-- **A tree moves with its text.**  In an edit within the text of a tree no difference is below
zero.  The tree keeps its frame, its root becomes as long as the new text, and its nodes are as
long as their children again.  A leaf in front of the edit keeps its place and its extent; so
does one that ends where a deletion starts.  A leaf that starts behind the edit, and not at the
start of the text, keeps its extent and moves as far as the text behind the edit. -/
theorem edit_moves {tree : Tree} (measured : Throughout Measured tree.root) {edit : TextEdit}
    (ho : edit.start ≤ edit.oldEnd) (within : edit.oldEnd ≤ tree.root.totalSize)
    (hn : edit.start ≤ edit.newEnd) (small : tree.root.totalSize < 0x100000000)
    (small' : tree.root.totalSize - edit.oldEnd + edit.newEnd < 0x100000000) :
    Guarded.editTree? edit tree = some (tree.edit edit) ∧
    (tree.edit edit).language = tree.language ∧
    (tree.edit edit).root.frame = tree.root.frame ∧
    (tree.edit edit).root.totalSize = tree.root.totalSize - edit.oldEnd + edit.newEnd ∧
    Throughout Measured (tree.edit edit).root ∧
    ∀ path position leaf, tree.root.descend? path = some (position, leaf) →
      leaf.children = [] → 0 < leaf.totalSize →
      (position + leaf.totalSize < edit.start ∨
          (position + leaf.totalSize = edit.start ∧ edit.start < edit.oldEnd) →
        ∃ leaf', (tree.edit edit).root.descend? path = some (position, leaf') ∧
          leaf'.padding = leaf.padding ∧ leaf'.size = leaf.size) ∧
      (edit.oldEnd ≤ position → 0 < position →
        ∃ leaf', (tree.edit edit).root.descend? path =
            some (position - edit.oldEnd + edit.newEnd, leaf') ∧
          leaf'.padding = leaf.padding ∧ leaf'.size = leaf.size) := by
  have same : edit.normalize = edit := TextEdit.normalize_eq ho hn (by omega) (by omega)
  have root : (tree.edit edit).root = tree.root.edit edit := by
    rw [Tree.edit, same]
  rw [root]
  refine ⟨?_, rfl, frame_edit edit tree.root, ?_, ?_, ?_⟩
  · rw [Guarded.editTree?, same, Guarded.edit?_eq ho hn, Tree.edit, same]
    rfl
  · rw [totalSize_edit edit ho hn tree.root measured, widthAfter_behind ho within, Nat.add_comm]
  · exact Throughout.edit (fun edit tree _ => measured_edit edit tree) edit tree.root measured
  · intro path position leaf there none wide
    constructor
    · intro ends
      exact leaf_before ho hn measured there wide none ends
    · intro late behind
      exact ⟨leaf, descend?_behind ho hn measured there wide late behind, rfl, rfl⟩

end Tree

namespace Word

/-- Three letters with something else between the first two. -/
@[irreducible] def strewn : Tree :=
  (language.parse {} "a xa  a".toList none).1

theorem grown_strewn : strewn.Grown language := by
  unfold strewn
  apply Tree.Grown.parse
  intro tree none
  cases none

/-- A leaf of the tree, by its place and its extent. -/
theorem exists_leaf {path : List Nat} {position padding size : Nat}
    (shape : (strewn.root.descend? path).map (fun node =>
      (node.1, node.2.children.isEmpty, node.2.padding, node.2.size)) =
        some (position, true, padding, size)) :
    ∃ leaf, strewn.root.descend? path = some (position, leaf) ∧ leaf.children = [] ∧
      leaf.padding = padding ∧ leaf.size = size := by
  obtain ⟨⟨_, leaf⟩, there, same⟩ := Option.map_eq_some_iff.mp shape
  simp only [Prod.mk.injEq, List.isEmpty_iff] at same
  obtain ⟨rfl, none, padding, size⟩ := same
  exact ⟨leaf, there, none, padding, size⟩

/-- The first letter stays, and the last one moves with its blanks. -/
theorem edit_moves_strewn :
    strewn.Grown language ∧ strewn.root.totalSize = 7 ∧
    (strewn.edit ⟨2, 3, 5⟩).root.totalSize = 9 ∧
    (∃ leaf, (strewn.edit ⟨2, 3, 5⟩).root.descend? [0] = some (0, leaf) ∧
      leaf.padding = 0 ∧ leaf.size = 1) ∧
    (∃ leaf, strewn.root.descend? [1, 2] = some (4, leaf) ∧ leaf.padding = 2 ∧ leaf.size = 1) ∧
    ∃ leaf, (strewn.edit ⟨2, 3, 5⟩).root.descend? [1, 2] = some (6, leaf) ∧
      leaf.padding = 2 ∧ leaf.size = 1 := by
  have total : strewn.root.totalSize = 7 := by decide +kernel
  have measured := grown_strewn.measured (Table.consistent_of_load load_encode)
  obtain ⟨-, -, -, root, -, leaves⟩ := @Tree.edit_moves strewn measured ⟨2, 3, 5⟩ (by decide)
    (by rw [total]; decide) (by decide) (by rw [total]; decide) (by rw [total]; decide)
  rw [total] at root
  obtain ⟨first, there, none, padding, size⟩ := @exists_leaf [0] 0 0 1 (by decide +kernel)
  have width : first.totalSize = 1 := by rw [Subtree.totalSize, padding, size]
  have stays := (leaves [0] 0 first there none (by omega)).1 (.inl (by rw [width]; decide))
  rw [padding, size] at stays
  obtain ⟨last, there, none, padding, size⟩ := @exists_leaf [1, 2] 4 2 1 (by decide +kernel)
  have width : last.totalSize = 3 := by rw [Subtree.totalSize, padding, size]
  have moves := (leaves [1, 2] 4 last there none (by omega)).2 (by decide) (by decide)
  rw [padding, size] at moves
  exact ⟨grown_strewn, total, root, stays, ⟨last, there, padding, size⟩, moves⟩

end Word

end Reparse
