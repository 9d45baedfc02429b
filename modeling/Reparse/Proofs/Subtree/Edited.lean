/-
Reparse/Proofs/Subtree/Edited.lean

What an edit leaves alone.

A node that an edit does not mark is one of the tree before.  It either lies
before the edit, with all the text it depends on, and stays where it was; or
it lies behind the edit and moves as far as the text does.  So a property of
nodes at their old places becomes one of nodes at their new places:
`everywhereAmong_edit`.
-/
import Reparse.Proofs.Subtree.Descent

namespace Reparse.Subtree

variable {P Q : Nat → Subtree → Prop}

/-- A subtree before an edit, with all that it depends on, stays in its place. -/
theorem everywhere_of_before {a b : Nat} (reach : Nat) {tree : Subtree}
    (before : ∀ offset n, P (a + offset) n → offset + n.totalSize + n.lookahead < reach →
      Q (b + offset) n)
    (hm : Throughout Measured tree) (hp : Everywhere P a tree)
    (h : tree.totalSize + tree.lookahead < reach) : Everywhere Q b tree := by
  refine (hp.and (hm.everywhere_within a)).move fun offset n ⟨hn, hw⟩ => before offset n hn ?_
  omega

/-- **What an edit leaves alone** below a node that it touches: a node without a mark is one from
before.  It lies before the edit and stays, or behind it and moves with the text. -/
theorem everywhereAmong_edit (marked : ∀ p n, n.marks.hasChanges = true → Q p n) (edit : TextEdit)
    (ho : edit.start ≤ edit.oldEnd) (hn : edit.start ≤ edit.newEnd)
    (before : ∀ position n, P position n →
      position + n.totalSize + n.lookahead < edit.start → Q position n)
    (behind : ∀ position n, P position n → edit.oldEnd ≤ position →
      Q (edit.newEnd + (position - edit.oldEnd)) n)
    {tree : Subtree} (hm : Throughout Measured tree) (hp : EverywhereAmong P 0 tree.children) :
    EverywhereAmong Q 0 (tree.edit edit).children := by
  rw [everywhereAmong_children_iff_descend?] at hp ⊢
  intro index path offset found there
  obtain ⟨⟨position, node⟩, here, fate⟩ := exists_descend?_of_edit ho hn hm there
  have old := hp index path position node here
  rw [Nat.zero_add] at old ⊢
  cases fate with
  | before short => exact before _ _ old short
  | behind late => exact behind _ _ old late
  | touched => exact marked _ _ (by rw [marks_edit])

end Reparse.Subtree
