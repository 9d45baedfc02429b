/-
Reparse/Proofs/Header/Edited.lean

What an edit leaves for the next parse.

A subtree in front of an edit keeps the text that it depends on, and one behind
it moves along with its text.  So a subtree that was fresh before the edit and
is not marked is fresh behind it: `usable_edit`.
-/
import Reparse.Proofs.Header.Growing

namespace Reparse

open Subtree

/-! ### The text ahead of a place -/

namespace Text

/-- What comes first does not matter for what lies ahead behind it. -/
theorem ahead_append (front rest : Text) (position : Nat) :
    (front ++ rest).ahead (front.size + position) = rest.ahead position := by
  suffices drops : drop? (front ++ rest) (front.size + position) = drop? rest position by
    rw [ahead, ahead, drops]
  induction front with
  | nil => rw [List.nil_append, size_nil, Nat.zero_add]
  | cons c front ih =>
    obtain ⟨n, e⟩ := Nat.exists_eq_succ_of_ne_zero
      (Nat.ne_of_gt (Nat.add_pos_left c.utf8Size_pos (size front + position)))
    rw [size_cons, Nat.add_assoc, e, List.cons_append, drop?, if_pos (by omega), ← ih]
    congr 1
    omega

/-- Inside of the first part of a text its rest lies ahead, or the text cannot
be cut there at all. -/
theorem ahead_inside {front : Text} {position : Nat} (inside : position < front.size) :
    (∃ more, position + size more = front.size ∧
        ∀ rest, (front ++ rest).ahead position = more ++ rest) ∨
      ∀ rest, (front ++ rest).ahead position = [] := by
  rcases e : front.drop? position with - | more
  · right
    intro rest
    rcases whole : (front ++ rest).drop? position with - | tail
    · rw [ahead, whole, Option.getD_none]
    · -- a cut inside of the first part is one of that part
      obtain ⟨before, split, size⟩ := drop?_eq_some_iff.mp whole
      rcases List.append_eq_append_iff.mp split with ⟨gap, rfl, -⟩ | ⟨gap, rfl, -⟩
      · rw [size_append] at size
        omega
      · rw [drop?_eq_some_iff.mpr ⟨before, rfl, size⟩] at e
        cases e
  · left
    obtain ⟨before, rfl, rfl⟩ := drop?_eq_some_iff.mp e
    refine ⟨more, (size_append ..).symm, fun rest => ?_⟩
    rw [List.append_assoc]
    exact ahead_of_drop? (drop?_append before (more ++ rest))

end Text

/-! ### Properties of all that is below -/

namespace Subtree

variable {P : Nat → Subtree → Prop}

mutual

/-- What holds everywhere in a subtree holds everywhere in each part of it. -/
theorem Everywhere.nested {start : Nat} {tree : Subtree} (h : Everywhere P start tree) :
    Everywhere (Everywhere P) start tree := by
  obtain ⟨head, children⟩ := tree
  exact ⟨h, EverywhereAmong.nested h.2⟩

theorem EverywhereAmong.nested {start : Nat} {trees : List Subtree}
    (h : EverywhereAmong P start trees) : EverywhereAmong (Everywhere P) start trees := by
  cases trees with
  | nil => trivial
  | cons tree trees => exact ⟨Everywhere.nested h.1, EverywhereAmong.nested h.2⟩

end

end Subtree

/-! ### Edits of a text and its tree -/

namespace Header

variable {front slice new back : Text}

/-- A subtree in front of an edit, with all that it depends on, stays fresh. -/
theorem FreshAt.before (small : (front ++ slice ++ back).size < UInt32.size) {position : Nat}
    {tree : Subtree} (h : FreshAt (front ++ slice ++ back) position tree)
    (short : position + tree.totalSize + tree.lookahead < front.size) :
    FreshAt (front ++ new ++ back) position tree := by
  have rest := Text.size_ahead_lt small position
  rw [FreshAt, List.append_assoc] at h ⊢
  rw [List.append_assoc] at rest
  rcases Text.ahead_inside (show position < front.size by omega) with ⟨more, size, ahead⟩ | ahead
  · rw [ahead] at h rest ⊢
    exact h.local rest (by omega) _
  · rw [ahead] at h ⊢
    exact h

/-- A subtree behind an edit moves with its text. -/
theorem FreshAt.behind {position : Nat} {tree : Subtree}
    (h : FreshAt (front ++ slice ++ back) position tree)
    (late : (front ++ slice).size ≤ position) :
    FreshAt (front ++ new ++ back) ((front ++ new).size + (position - (front ++ slice).size))
      tree := by
  rw [FreshAt] at h ⊢
  rw [show position = (front ++ slice).size + (position - (front ++ slice).size) by omega,
    Text.ahead_append] at h
  rwa [Text.ahead_append]

/-- **An edit leaves a usable tree**, if all below the root was fresh before. -/
theorem usable_edit {tree : Tree} (grown : tree.Grown language)
    (intact : Throughout (Intact language) tree.root)
    (fresh : EverywhereAmong (FreshAt (front ++ slice ++ back)) 0 tree.root.children)
    (part : ∀ child ∈ tree.root.children, Throughout Partial child)
    (small : (front ++ slice ++ back).size < 0x100000000)
    (small' : (front ++ new ++ back).size < 0x100000000) :
    Usable (front ++ new ++ back)
      (some (tree.edit (.replace front.size (front ++ slice).size new)).root) where
  known root e := by
    rw [← Option.some.inj e]
    exact (Tree.Grown.edit tree _ grown).known consistent
  fresh root e := by
    rw [← Option.some.inj e]
    have exactly : (TextEdit.replace front.size (front ++ slice).size new).normalize =
        ⟨front.size, (front ++ slice).size, (front ++ new).size⟩ := by
      simp only [Text.size_append] at small small' ⊢
      simp only [TextEdit.replace, TextEdit.normalize, Span.lowBits, TextEdit.mk.injEq]
      omega
    show EverywhereAmong _ 0 (Subtree.edit (TextEdit.normalize _) tree.root).children
    rw [exactly]
    have measured : Throughout Measured tree.root := intact.mono fun _ _ h => h.measured
    have row := (fresh.nested.and (everywhereAmong_const.mpr part)).and
      (everywhere_iff.mp measured).2.nested
    refine everywhereAmong_edit (fun p n marked fine => ?_) _ (by simp) (by simp) ?_ ?_ measured row
    · rw [marked] at fine
      cases fine
    · -- in front of the edit nothing is changed that the node depends on
      rintro position n ⟨⟨fresh, part⟩, measured⟩ short -
      refine ⟨everywhere_of_before (front.size - position) ?_ (everywhere_const.mp measured) fresh
        (by simp only at short; omega), part⟩
      intro offset m here within
      exact here.before small (by omega)
    · -- behind it, the node finds the same text at another place
      rintro position n ⟨⟨fresh, part⟩, -⟩ late -
      refine ⟨fresh.move fun offset m here => ?_, part⟩
      simp only at late
      have moved := @FreshAt.behind _ _ new _ _ _ here (by omega)
      rwa [show position + offset - (front ++ slice).size =
        position - (front ++ slice).size + offset by omega, ← Nat.add_assoc] at moved

end Header

end Reparse
