/-
Reparse/Proofs/Subtree/Intact.lean

What a parse keeps of every subtree.

A parse makes subtrees in a few ways only, and all of them agree on what the
parts of a subtree mean: a node is as long as its children and depends on all
that they depend on, its marks say what its symbol is and whether there is an
error in it, and no edit has touched it.
-/
import Reparse.Proofs.Subtree.Edited
import Reparse.Run.Stack

namespace Reparse.Subtree

/-- Whether a subtree is as a parse makes it, apart from what is below it. -/
structure Intact (language : Language) (tree : Subtree) : Prop where
  /-- Tokens have no parts. -/
  atom : tree.marks.token = true → tree.children = []
  span : tree.marks.token = false → tree.totalSize = totalSizes tree.children
  reach : reach tree.children ≤ tree.totalSize + tree.lookahead
  unmarked : tree.marks.hasChanges = false
  visible : tree.marks.visible = (symbolMarks language tree.symbol).visible
  recovery : tree.marks.recovery = (symbolMarks language tree.symbol).recovery
  missing : tree.marks.missing = true → tree.marks.recovery = true
  error : tree.marks.hasError = (tree.marks.recovery || decide (tree.symbol = errorSymbol) ||
    tree.marks.missing || tree.children.any (·.marks.hasError))

variable {language : Language}

theorem Intact.measured {tree : Subtree} (h : Intact language tree) : Measured tree where
  span nonempty := by
    rcases e : tree.marks.token with - | -
    · exact h.span e
    · exact absurd (h.atom e) nonempty
  reach := h.reach

/-- Whether the marks of a node say which errors there are in it. -/
structure Flagged (language : Language) (tree : Subtree) : Prop where
  recovery : tree.marks.recovery = (symbolMarks language tree.symbol).recovery
  missing : tree.marks.missing = true → tree.marks.recovery = true
  error : tree.marks.hasError = (tree.marks.recovery || decide (tree.symbol = errorSymbol) ||
    tree.marks.missing || tree.children.any (·.marks.hasError))

theorem Intact.flagged {tree : Subtree} (h : Intact language tree) : Flagged language tree where
  recovery := h.recovery
  missing := h.missing
  error := h.error

theorem totalSize_token (symbol : Symbol) (padding size lookahead : Nat) (state : StateId) :
    (token language symbol padding size lookahead state).totalSize = padding + size := rfl

theorem totalSize_node (symbol : Symbol) (children : List Subtree) (state : StateId) :
    (node language symbol children state).totalSize = totalSizes children := by
  cases children with
  | nil => rfl
  | cons first rest => exact totalSize_mk_summarize _ first rest

@[simp] theorem children_node (symbol : Symbol) (children : List Subtree) (state : StateId) :
    (node language symbol children state).children = children := rfl

@[simp] theorem symbol_node (symbol : Symbol) (children : List Subtree) (state : StateId) :
    (node language symbol children state).symbol = symbol := by
  cases children <;> rfl

@[simp] theorem parseState_node (symbol : Symbol) (children : List Subtree) (state : StateId) :
    (node language symbol children state).parseState = state := by
  cases children <;> rfl

theorem marks_node (symbol : Symbol) (children : List Subtree) (state : StateId) :
    (node language symbol children state).marks =
      { symbolMarks language symbol with
        hasError := (symbolMarks language symbol).recovery || decide (symbol = errorSymbol) ||
          children.any (·.marks.hasError) } := by
  cases children <;> rfl

theorem lookahead_node (symbol : Symbol) (children : List Subtree) (state : StateId) :
    (node language symbol children state).lookahead = reach children - totalSizes children := by
  cases children <;> rfl

@[simp] theorem symbol_errorNode (children : List Subtree) (state : StateId) :
    (errorNode language children state).symbol = errorSymbol :=
  symbol_node errorSymbol children state

@[simp] theorem children_errorNode (children : List Subtree) (state : StateId) :
    (errorNode language children state).children = children := rfl

theorem marks_errorNode (children : List Subtree) (state : StateId) :
    (errorNode language children state).marks =
      { symbolMarks language errorSymbol with extra := true, hasError := true } := by
  rw [show (errorNode language children state).marks =
    { (node language errorSymbol children state).marks with extra := true } from rfl,
    marks_node errorSymbol children state]
  simp

/-! ### The ways subtrees are made -/

theorem intact_token (symbol : Symbol) (padding size lookahead : Nat) (state : StateId) :
    Intact language (token language symbol padding size lookahead state) where
  atom _ := rfl
  span h := by simp [token, marks, head] at h
  reach := Nat.zero_le _
  unmarked := rfl
  visible := rfl
  recovery := rfl
  missing h := by cases h
  error := (Bool.or_false _).symm.trans (Bool.or_false _).symm

theorem intact_node (symbol : Symbol) (children : List Subtree) (state : StateId) :
    Intact language (node language symbol children state) where
  atom h := by simp [marks_node, symbolMarks] at h
  span _ := totalSize_node symbol children state
  reach := by
    rw [children_node, totalSize_node, lookahead_node]
    omega
  unmarked := by simp [marks_node, symbolMarks]
  visible := by simp [marks_node]
  recovery := by simp [marks_node]
  missing h := by simp [marks_node, symbolMarks] at h
  error := by simp [marks_node, symbolMarks]

theorem intact_missing {symbol : Symbol}
    (recovery : (symbolMarks language symbol).recovery = true) (state : StateId) :
    Intact language (missing language symbol state) where
  atom _ := rfl
  span _ := rfl
  reach := Nat.zero_le _
  unmarked := rfl
  visible := rfl
  recovery := rfl
  missing _ := recovery
  error := by simp [Subtree.missing, mapMarks, marks, head]

theorem intact_errorNode (children : List Subtree) (state : StateId) :
    Intact language (errorNode language children state) where
  atom := (intact_node errorSymbol children state).atom
  span _ := totalSize_node errorSymbol children state
  reach := (intact_node errorSymbol children state).reach
  unmarked := (intact_node errorSymbol children state).unmarked
  visible := (intact_node errorSymbol children state).visible
  recovery := (intact_node errorSymbol children state).recovery
  missing := (intact_node errorSymbol children state).missing
  error := (intact_node errorSymbol children state).error

/-- The subtree if it depends on at least `needed` bytes behind its end. -/
def needing (tree : Subtree) (needed : Nat) : Subtree :=
  mk { tree.head with lookahead := max tree.lookahead needed } tree.children

/-- The token with another extent. -/
def extended (tree : Subtree) (size lookahead : Nat) : Subtree :=
  mk { tree.head with size, lookahead } tree.children

section Needing

variable (tree : Subtree) (needed : Nat)

@[simp] theorem marks_needing : (tree.needing needed).marks = tree.marks := rfl

@[simp] theorem symbol_needing : (tree.needing needed).symbol = tree.symbol := rfl

@[simp] theorem children_needing : (tree.needing needed).children = tree.children := rfl

@[simp] theorem totalSize_needing : (tree.needing needed).totalSize = tree.totalSize := rfl

@[simp] theorem parseState_needing : (tree.needing needed).parseState = tree.parseState := rfl

@[simp] theorem lookahead_needing :
    (tree.needing needed).lookahead = max tree.lookahead needed := rfl

end Needing

theorem Intact.needing {tree : Subtree} (h : Intact language tree) (needed : Nat) :
    Intact language (tree.needing needed) where
  atom := h.atom
  span := h.span
  reach := Nat.le_trans h.reach (Nat.add_le_add_left (Nat.le_max_left ..) _)
  unmarked := h.unmarked
  visible := h.visible
  recovery := h.recovery
  missing := h.missing
  error := h.error

theorem Intact.extended {tree : Subtree} (h : Intact language tree)
    (atom : tree.marks.token = true) (size lookahead : Nat) :
    Intact language (tree.extended size lookahead) where
  atom := h.atom
  span e := by rw [show (tree.extended size lookahead).marks = tree.marks from rfl, atom] at e; cases e
  reach := by
    rw [show (tree.extended size lookahead).children = [] from h.atom atom]
    exact Nat.zero_le _
  unmarked := h.unmarked
  visible := h.visible
  recovery := h.recovery
  missing := h.missing
  error := h.error

end Reparse.Subtree
