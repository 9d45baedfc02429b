/-
Reparse/Proofs/Tree/Shown.lean

The symbols that are seen of a row of subtrees.

Which subtrees are seen does not depend on where they stand.  `shown` gives
their symbols; `proper` leaves out skipped input, which may stand anywhere.
-/
import Reparse.Proofs.Tree.Preorder

namespace Reparse

namespace Subtree

mutual

/-- The symbols of the visible subtrees that a subtree stands for. -/
def shown : Subtree → List Symbol
  | mk head children =>
    if head.marks.visible then [head.symbol]
    else if head.marks.token then []
    else shownAmong children

/-- The same for a row of subtrees. -/
def shownAmong : List Subtree → List Symbol
  | [] => []
  | tree :: rest => shown tree ++ shownAmong rest

end

mutual

theorem shown_eq_map (start : Nat) (tree : Subtree) :
    shown tree =
      (if tree.marks.visible then [(tree, start)]
        else if tree.marks.token then []
        else visibleChildren start tree).map (·.1.symbol) := by
  obtain ⟨head, children⟩ := tree
  have below := shownAmong_eq_map start children
  rw [shown, show (mk head children).marks = head.marks from rfl]
  split
  · rfl
  · split
    · rfl
    · exact below

theorem shownAmong_eq_map (start : Nat) (trees : List Subtree) :
    shownAmong trees = (visibleAmong start trees).map (·.1.symbol) := by
  cases trees with
  | nil => rfl
  | cons tree rest =>
    rw [shownAmong, visibleAmong, List.map_append, shown_eq_map start tree,
      shownAmong_eq_map (start + tree.totalSize) rest]

end

/-- The symbols of what is seen of a row, apart from skipped input. -/
def proper (trees : List Subtree) : List Symbol :=
  (shownAmong trees).filter (· ≠ errorSymbol)

@[simp] theorem proper_nil : proper [] = [] := rfl

theorem proper_cons (tree : Subtree) (trees : List Subtree) :
    proper (tree :: trees) = proper [tree] ++ proper trees := by
  simp [proper, shownAmong]

theorem proper_visible {tree : Subtree} (visible : tree.marks.visible = true) :
    proper [tree] = if tree.symbol = errorSymbol then [] else [tree.symbol] := by
  obtain ⟨head, children⟩ := tree
  have visible : head.marks.visible = true := visible
  simp only [proper, shownAmong, shown, visible, if_true, List.append_nil, List.filter_cons,
    List.filter_nil, decide_not, symbol, Subtree.head]
  by_cases e : head.symbol = errorSymbol
  · simp [e]
  · simp [e]

/-- A hidden node is not seen itself, but its children. -/
theorem proper_hidden {tree : Subtree} (hidden : tree.marks.visible = false)
    (inner : tree.marks.token = false) : proper [tree] = proper tree.children := by
  obtain ⟨head, children⟩ := tree
  have hidden : head.marks.visible = false := hidden
  have inner : head.marks.token = false := inner
  simp only [proper, shownAmong, shown, hidden, inner, List.append_nil]
  rfl

/-- A row of visible subtrees that are no skipped input. -/
theorem proper_eq_map {trees : List Subtree}
    (h : ∀ tree ∈ trees, tree.marks.visible = true ∧ tree.symbol ≠ errorSymbol) :
    proper trees = trees.map (·.symbol) := by
  induction trees with
  | nil => rfl
  | cons tree trees ih =>
    obtain ⟨visible, other⟩ := h tree (by simp)
    rw [proper_cons, proper_visible visible, if_neg other, ih fun t m => h t (by simp [m])]
    rfl

/-- The subtrees of a row that are no extras. -/
def core (trees : List Subtree) : List Subtree :=
  trees.filter fun tree => !tree.marks.extra

@[simp] theorem core_append (xs ys : List Subtree) : core (xs ++ ys) = core xs ++ core ys :=
  List.filter_append ..

theorem core_cons_extra {tree : Subtree} (h : tree.marks.extra = true) (trees : List Subtree) :
    core (tree :: trees) = core trees := by
  simp [core, h]

theorem core_cons {tree : Subtree} (h : tree.marks.extra = false) (trees : List Subtree) :
    core (tree :: trees) = tree :: core trees := by
  simp [core, h]

/-- Skipped input does not count. -/
theorem proper_core {trees : List Subtree}
    (h : ∀ tree ∈ trees, tree.marks.extra = true →
      tree.marks.visible = true ∧ tree.symbol = errorSymbol) : proper (core trees) = proper trees := by
  induction trees with
  | nil => rfl
  | cons tree trees ih =>
    have rest := ih fun t m => h t (by simp [m])
    rcases e : tree.marks.extra with - | -
    · rw [core_cons e, proper_cons, proper_cons tree trees, rest]
    · obtain ⟨visible, skipped⟩ := h tree (by simp) e
      rw [core_cons_extra e, proper_cons, proper_visible visible, if_pos skipped, rest]
      rfl

theorem filter_core {p : Subtree → Bool} {trees : List Subtree}
    (h : ∀ tree ∈ trees, tree.marks.extra = true → p tree = false) :
    (core trees).filter p = trees.filter p := by
  rw [core, List.filter_filter]
  refine List.filter_congr fun tree m => ?_
  rcases e : tree.marks.extra with - | -
  · simp
  · simp [h tree m e]

/-- In a row without hidden nodes the visible subtrees are seen themselves. -/
theorem map_visibleAmong {trees : List Subtree}
    (h : ∀ tree ∈ trees, tree.marks.visible = true ∨ tree.marks.token = true) (start : Nat) :
    (visibleAmong start trees).map (·.1) = trees.filter (·.marks.visible) := by
  induction trees generalizing start with
  | nil => rfl
  | cons tree trees ih =>
    have rest := ih (fun t m => h t (by simp [m])) (start + tree.totalSize)
    rw [visibleAmong, List.map_append, rest, List.filter_cons]
    rcases e : tree.marks.visible with - | -
    · have atom := (h tree (by simp)).resolve_left (by simp [e])
      simp [atom]
    · simp

end Subtree

namespace Node

open Subtree

/-- The visible children apart from skipped input. -/
def properChildren (node : Node) : List Node :=
  node.children.filter fun child => !child.isError

theorem properChildren_eq (node : Node) :
    node.properChildren =
      ((visibleAmong node.start node.subtree.children).filter
        fun found => found.1.symbol ≠ errorSymbol).map
          fun found => { node with subtree := found.1, start := found.2 } := by
  rw [properChildren, Node.children, visibleChildren_eq, List.filter_map]
  congr 1
  refine List.filter_congr fun found _ => ?_
  simp only [isError, symbol, Function.comp]
  exact decide_not.symm

/-- Their symbols do not depend on where the node stands. -/
theorem symbols_properChildren (node : Node) :
    node.properChildren.map (·.symbol) = proper node.subtree.children := by
  rw [properChildren_eq, proper, shownAmong_eq_map node.start, List.map_map, List.filter_map]
  rfl

theorem language_of_mem_children {node child : Node} (h : child ∈ node.properChildren) :
    child.language = node.language := by
  obtain ⟨found, -, rfl⟩ := List.mem_map.mp (List.mem_filter.mp h).1
  rfl

/-- The kinds of the children are those of their symbols. -/
theorem kinds_properChildren (node : Node) :
    node.properChildren.map (·.kind) =
      (proper node.subtree.children).map fun symbol => (node.language.kind? symbol).getD "" := by
  rw [← symbols_properChildren, List.map_map]
  refine List.map_congr_left fun child m => ?_
  rw [Node.kind, language_of_mem_children m]
  rfl

/-- In a row without hidden nodes the children are the visible subtrees. -/
theorem subtrees_properChildren {node : Node}
    (h : ∀ tree ∈ node.subtree.children, tree.marks.visible = true ∨ tree.marks.token = true) :
    node.properChildren.map (·.subtree) =
      node.subtree.children.filter fun tree => tree.symbol ≠ errorSymbol && tree.marks.visible := by
  rw [properChildren_eq, ← List.filter_filter, ← map_visibleAmong h node.start, List.map_map,
    List.filter_map]
  rfl

end Node

end Reparse
