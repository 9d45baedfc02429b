/-
Reparse/Proofs/Tree/Starting.lean

What a parse is offered at a position.

The search for subtrees that start at a position goes down one child at each
level, past all children without a width.  In a tree whose nodes are as long
as their children nothing is lost by that: nodes in front end at or before the
position, and nodes behind start behind it.  So the search finds what a filter
finds in the list of all nodes (`startingAt_eq`).  It finds each one inside all
those before it (`pairwise_startingAt`), and so none of them twice.

Main result: `Tree.Grown.starting_exact`.
-/
import Reparse.Proofs.Header.Table
import Reparse.Proofs.Subtree.Places
import Reparse.Proofs.Tree.Grown

namespace Reparse

namespace Subtree

variable {position start : Nat} {tree inner : Subtree}

/-! ### All that starts there -/

/-- Whether a node stands at a position, padding included, and has a width. -/
def begins (position : Nat) (place : Nat × Subtree) : Bool :=
  place.1 = position && 0 < place.2.totalSize

theorem begins_iff {place : Nat} {node : Subtree} :
    begins position (place, node) = true ↔ place = position ∧ 0 < node.totalSize := by
  simp [begins]

/-- Nothing starts in front of the row that it is in. -/
theorem filter_begins_of_lt {trees : List Subtree} (behind : position < start) :
    (placesAmong start trees).filter (begins position) = [] := by
  rw [List.filter_eq_nil_iff]
  rintro ⟨place, found⟩ listed here
  have := (begins_iff.mp here).1
  have := le_of_mem_placesAmong listed
  omega

/-- Nothing with a width starts at the end of a subtree that is as long as its children. -/
theorem filter_begins_of_le (measured : Throughout Measured tree)
    (before : start + tree.totalSize ≤ position) :
    (places start tree).filter (begins position) = [] := by
  rw [List.filter_eq_nil_iff]
  rintro ⟨place, found⟩ listed here
  obtain ⟨same, wide⟩ := begins_iff.mp here
  have := within_places measured listed
  omega

mutual

/-- **The search finds all that starts at the position**, in the order of the whole list. -/
theorem startingAt_eq (position start : Nat) (tree : Subtree)
    (measured : Throughout Measured tree) : tree.startingAt position start =
      ((placesAmong start tree.children).filter (begins position)).map (·.2) := by
  obtain ⟨head, children⟩ := tree
  exact startingAmong_eq position start children (throughout_iff.mp measured).2

theorem startingAmong_eq (position start : Nat) (trees : List Subtree)
    (measured : ∀ tree ∈ trees, Throughout Measured tree) : startingAmong position start trees =
      ((placesAmong start trees).filter (begins position)).map (·.2) := by
  cases trees with
  | nil => rfl
  | cons tree rest =>
    obtain ⟨first, later⟩ := List.forall_mem_cons.mp measured
    have below := startingAt_eq position start tree first
    rw [startingAmong, placesAmong_cons, List.filter_append, places_eq]
    split
    · -- the position lies in front of the row
      rename_i front
      rw [← List.filter_append, ← places_eq, ← placesAmong_cons, filter_begins_of_lt front]
      rfl
    · split
      · -- the position lies in this child, and what follows is behind it
        rename_i inside
        have short : position < start + tree.totalSize := by
          simp only [Bool.or_eq_true, Bool.and_eq_true, decide_eq_true_eq] at inside
          omega
        rw [filter_begins_of_lt short, List.append_nil]
        split
        · rename_i here
          have wide : begins position (start, tree) = true := begins_iff.mpr ⟨here, by omega⟩
          rw [List.filter_cons_of_pos wide, List.map_cons, below]
        · rename_i elsewhere
          have other : ¬ begins position (start, tree) = true := fun h =>
            elsewhere (begins_iff.mp h).1
          rw [List.filter_cons_of_neg other, below]
      · -- the position lies behind this child, or at a child without a width
        rename_i outside
        have passed : start + tree.totalSize ≤ position := by
          simp only [Bool.or_eq_true, Bool.and_eq_true, decide_eq_true_eq] at outside
          omega
        rw [← places_eq, filter_begins_of_le first passed, List.nil_append,
          startingAmong_eq position _ rest later]

end

/-! ### Each inside the last -/

/-- Whether a node has another one below it, right at its start. -/
def HasAtStart (outer inner : Subtree) : Prop :=
  ∃ index path, outer.descend? (index :: path) = some (0, inner)

/-- What is found in a subtree at the position stands right at the start of it. -/
theorem hasAtStart_of_mem_startingAt (found : inner ∈ tree.startingAt position position) :
    tree.HasAtStart inner := by
  -- whatever holds of each node below at its place holds of those found, so let it be the way there
  have ways : EverywhereAmong (fun place node => ∃ index path offset,
      tree.descend? (index :: path) = some (offset, node) ∧ place = position + offset) position
      tree.children :=
    everywhereAmong_children_iff_descend?.mpr fun index path offset _ there =>
      ⟨index, path, offset, there, rfl⟩
  obtain ⟨index, path, offset, there, same⟩ := mem_startingAt ways found
  obtain rfl : offset = 0 := by omega
  exact ⟨index, path, there⟩

mutual

/-- **Each node that the search finds** stands at the start of all those found before. -/
theorem pairwise_startingAt (position start : Nat) (tree : Subtree) :
    (tree.startingAt position start).Pairwise HasAtStart := by
  obtain ⟨head, children⟩ := tree
  exact pairwise_startingAmong position start children

theorem pairwise_startingAmong (position start : Nat) (trees : List Subtree) :
    (startingAmong position start trees).Pairwise HasAtStart := by
  cases trees with
  | nil => exact .nil
  | cons tree rest =>
    have below := pairwise_startingAt position start tree
    rw [startingAmong]
    split
    · exact .nil
    · split
      · split
        · rename_i here
          subst here
          exact List.pairwise_cons.mpr
            ⟨fun inner found => hasAtStart_of_mem_startingAt found, below⟩
        · exact below
      · exact pairwise_startingAmong position _ rest

end

theorem sizeOf_descend? {path : List Nat} {offset : Nat}
    (there : tree.descend? path = some (offset, inner)) : sizeOf inner ≤ sizeOf tree := by
  induction path generalizing tree offset with
  | nil =>
    obtain ⟨-, rfl⟩ : 0 = offset ∧ tree = inner := by simpa [Subtree.descend?] using there
    exact Nat.le_refl _
  | cons index path ih =>
    obtain ⟨child, within, here, further, -⟩ := descend?_cons.mp there
    obtain ⟨head, children⟩ := tree
    have below := ih further
    have smaller := List.sizeOf_lt_of_mem (List.mem_of_getElem? here)
    simp only [Subtree.children] at smaller
    simp only [Subtree.mk.sizeOf_spec]
    omega

/-- A node does not stand in itself. -/
theorem HasAtStart.ne (h : tree.HasAtStart inner) : tree ≠ inner := by
  rintro rfl
  obtain ⟨index, path, there⟩ := h
  obtain ⟨child, within, here, further, -⟩ := descend?_cons.mp there
  have below := sizeOf_descend? further
  obtain ⟨head, children⟩ := tree
  have smaller := List.sizeOf_lt_of_mem (List.mem_of_getElem? here)
  simp only [Subtree.children] at smaller
  simp only [Subtree.mk.sizeOf_spec] at below
  omega

end Subtree

open Subtree

/-! ### Any history -/

/-- **What a parse is offered at a position is exactly what starts there.**  In each tree of a
loaded language, whatever parses and edits it comes from, the search for a position gives the
nodes below the root that stand there, padding included, and have a width.  It gives all of
them, in the order in which the list of all nodes has them; each stands in all those before it,
so that the outermost comes first and none comes twice. -/
theorem Tree.Grown.starting_exact {language : Language} {table : Table} {origin : Nat}
    (loaded : table.load origin = .ok language) {tree : Tree} (grown : tree.Grown language)
    (position : Nat) :
    tree.root.startingAt position 0 =
      ((placesAmong 0 tree.root.children).filter (begins position)).map (·.2) ∧
    (∀ found, found ∈ tree.root.startingAt position 0 ↔ 0 < found.totalSize ∧
      ∃ index path, tree.root.descend? (index :: path) = some (position, found)) ∧
    (tree.root.startingAt position 0).Pairwise HasAtStart ∧
    (tree.root.startingAt position 0).Nodup := by
  have measured := grown.measured (Table.consistent_of_load loaded)
  have all := startingAt_eq position 0 tree.root measured
  have ordered := pairwise_startingAt position 0 tree.root
  refine ⟨all, fun found => ?_, ordered, ordered.imp HasAtStart.ne⟩
  rw [all, List.mem_map]
  constructor
  · rintro ⟨⟨place, node⟩, kept, rfl⟩
    obtain ⟨listed, here⟩ := List.mem_filter.mp kept
    obtain ⟨rfl, wide⟩ := begins_iff.mp here
    obtain ⟨index, path, offset, there, same⟩ := mem_placesAmong_children_iff.mp listed
    rw [Nat.zero_add] at same
    exact ⟨wide, index, path, same ▸ there⟩
  · rintro ⟨wide, index, path, there⟩
    have listed : (position, found) ∈ placesAmong 0 tree.root.children :=
      mem_placesAmong_children_iff.mpr ⟨index, path, position, there, (Nat.zero_add _).symm⟩
    exact ⟨(position, found), List.mem_filter.mpr ⟨listed, begins_iff.mpr ⟨rfl, wide⟩⟩, rfl⟩

namespace Header

/-- A header that has lost its bracket. -/
@[irreducible] def unbracketed : Tree :=
  (language.parse {} "[DOCUMENT]\n\n\x00".toList none).1.edit ⟨0, 1, 0⟩

/-- Behind the token that has lost its text the literal is found, in the document. -/
theorem starting_exact_unbracketed :
    unbracketed.Grown language ∧
    (unbracketed.root.startingAt 0 0).map symbol = [document, documentInner, documentLiteral] ∧
    (unbracketed.root.startingAt 0 0).Pairwise HasAtStart ∧
    unbracketed.root.startingAt 0 0 =
      ((placesAmong 0 unbracketed.root.children).filter (begins 0)).map (·.2) := by
  have grown : unbracketed.Grown language := by
    unfold unbracketed
    exact .edit _ _ (.parse _ _ none fun _ e => by cases e)
  obtain ⟨all, -, ordered, -⟩ := Tree.Grown.starting_exact load_header grown 0
  exact ⟨grown, by decide +kernel, ordered, all⟩

end Header

end Reparse
