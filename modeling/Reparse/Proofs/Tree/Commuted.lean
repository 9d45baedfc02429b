/-
Reparse/Proofs/Tree/Commuted.lean

Trees behind two edits.

Two edits of one text that do not touch can be applied in either order, if the
one behind is counted in the text that it finds.  The tree comes out the same
in all its parts: `Tree.edits_commute`.
-/
import Reparse.Proofs.Subtree.Apart
import Reparse.Proofs.Tree.Moved

namespace Reparse

open Subtree

namespace Tree

/-- **Separated edits commute.**  Of two edits within the text of a tree, with some text between
them, the one in front may come first, and then the one behind as far along as its text has
moved; or the one behind comes first, and then the one in front as it is.  The trees are the
same, as long as none of the texts on the way exceeds 32 bits. -/
theorem edits_commute {tree : Tree} (measured : Throughout Measured tree.root)
    {front back : TextEdit} (frontOld : front.start ≤ front.oldEnd)
    (between : front.oldEnd < back.start) (backOld : back.start ≤ back.oldEnd)
    (within : back.oldEnd ≤ tree.root.totalSize) (frontNew : front.start ≤ front.newEnd)
    (backNew : back.start ≤ back.newEnd) (small : tree.root.totalSize < 0x100000000)
    (frontSmall : tree.root.totalSize - front.oldEnd + front.newEnd < 0x100000000)
    (backSmall : tree.root.totalSize - back.oldEnd + back.newEnd < 0x100000000)
    (bothSmall : tree.root.totalSize - back.oldEnd + back.newEnd - front.oldEnd + front.newEnd <
      0x100000000) :
    (tree.edit front).edit (back.behind front) = (tree.edit back).edit front := by
  have apart : TextEdit.Apart front back := ⟨frontOld, frontNew, between, backOld, backNew⟩
  have frontSame : front.normalize = front :=
    TextEdit.normalize_eq frontOld frontNew (by omega) (by omega)
  have backSame : back.normalize = back :=
    TextEdit.normalize_eq backOld backNew (by omega) (by omega)
  have behindSame : (back.behind front).normalize = back.behind front := by
    apply TextEdit.normalize_eq apart.behind_old apart.behind_new
    · show back.oldEnd - front.oldEnd + front.newEnd < _
      omega
    · show back.newEnd - front.oldEnd + front.newEnd < _
      omega
  simp only [Tree.edit, frontSame, backSame, behindSame, edit_comm measured apart]

end Tree

namespace Word

/-- One edit takes a letter away, and the other one stretches the blanks behind. -/
theorem edits_commute_strewn :
    strewn.Grown language ∧ strewn.root.totalSize = 7 ∧
    TextEdit.behind ⟨4, 6, 9⟩ ⟨0, 2, 1⟩ = ⟨3, 5, 8⟩ ∧
    (strewn.edit ⟨0, 2, 1⟩).edit ⟨3, 5, 8⟩ = (strewn.edit ⟨4, 6, 9⟩).edit ⟨0, 2, 1⟩ := by
  have total : strewn.root.totalSize = 7 := by decide +kernel
  have measured := grown_strewn.measured (Table.consistent_of_load load_encode)
  refine ⟨grown_strewn, total, rfl, ?_⟩
  apply @Tree.edits_commute strewn measured ⟨0, 2, 1⟩ ⟨4, 6, 9⟩
  · decide
  · decide
  · decide
  · rw [total]
    decide
  · decide
  · decide
  all_goals rw [total]; decide

end Word

end Reparse
