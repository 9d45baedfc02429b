/-
Reparse/Proofs/Subtree/Regular.lean

What parses and edits keep of every subtree.

A parse makes intact subtrees.  An edit marks what it touches and gives leaves
another extent, so that they may be longer than what was read of them.  But
also behind an edit a node sums up its children: it starts with the first one,
is as long as all of them, and has an error if one of them has.
-/
import Reparse.Proofs.Run.Closed

namespace Reparse.Subtree

/-- Whether a subtree sums up its children. -/
structure Regular (tree : Subtree) : Prop extends Measured tree where
  /-- Tokens have no parts. -/
  atom : tree.marks.token = true → tree.children = []
  front : ∀ first ∈ tree.children.head?, tree.padding = first.padding
  error : tree.marks.hasError = (tree.marks.recovery || decide (tree.symbol = errorSymbol) ||
    tree.marks.missing || tree.children.any (·.marks.hasError))

variable {language : Language}

/-! ### What a parse makes -/

theorem Intact.regular {tree : Subtree} (h : Intact language tree)
    (front : ∀ first ∈ tree.children.head?, tree.padding = first.padding) : Regular tree where
  toMeasured := h.measured
  atom := h.atom
  front := front
  error := h.error

theorem front_node (symbol : Symbol) (children : List Subtree) (state : StateId) :
    ∀ first ∈ children.head?, (node language symbol children state).padding = first.padding := by
  cases children with
  | nil => exact fun _ none => by cases none
  | cons first rest =>
    rintro found ⟨⟩
    rfl

/-- **However a parse makes a subtree**, it is regular. -/
theorem closed_regular (language : Language) : Closed language Regular where
  token {symbol padding size lookahead state} _ :=
    (@intact_token language symbol padding size lookahead state).regular
      fun _ none => by cases none
  node {symbol children state} _ _ :=
    (intact_node symbol children state).regular (front_node symbol children state)
  missing {symbol state} _ recovery :=
    (intact_missing recovery state).regular fun _ none => by cases none
  errorNode {children state} _ _ :=
    (@intact_errorNode language children state).regular (front_node errorSymbol children state)
  needing h needed :=
    { span := h.span
      reach := Nat.le_trans h.reach (Nat.add_le_add_left (Nat.le_max_left ..) _)
      atom := h.atom
      front := h.front
      error := h.error }
  extended {tree} h error size lookahead := by
    have none : tree.children = [] := h.atom (isErrorToken_iff.mp error).2
    exact
      { span := fun some => absurd none some
        reach := by
          rw [show (tree.extended size lookahead).children = [] from none]
          exact Nat.zero_le _
        atom := h.atom
        front := h.front
        error := h.error }

/-! ### What an edit keeps -/

theorem hasError_editRow (edit : TextEdit) (first : Bool) (left : Nat) (trees : List Subtree) :
    (editRow edit first left trees).any (·.marks.hasError) = trees.any (·.marks.hasError) := by
  induction trees generalizing first left with
  | nil => rfl
  | cons child rest ih =>
    rw [editRow, List.any_cons, List.any_cons, ih, editAt]
    split
    · rfl
    · rw [marks_edit]

/-- **An edit keeps a subtree regular.** -/
theorem Regular.edit (edit : TextEdit) {tree : Subtree} (h : Regular tree) :
    Regular (tree.edit edit) := by
  obtain ⟨head, children⟩ := tree
  have error := h.error
  have measured := measured_edit edit (Subtree.mk head children)
  have marks := marks_edit edit (Subtree.mk head children)
  have symbol := symbol_edit edit (Subtree.mk head children)
  cases children with
  | nil =>
    -- the new extent of a leaf sums up nothing
    exact
      { toMeasured := measured
        atom := fun _ => rfl
        front := fun _ none => by cases none
        error := by rw [marks, symbol]; exact error }
  | cons first rest =>
    have errors := hasError_editRow edit true 0 (first :: rest)
    rw [edit_mk edit head (List.cons_ne_nil first rest)] at measured marks symbol ⊢
    exact
      { toMeasured := measured
        atom := fun token => by
          rw [marks] at token
          exact absurd (h.atom token) (List.cons_ne_nil first rest)
        front := by
          rintro found ⟨⟩
          rfl
        error := by
          rw [marks, symbol]
          refine error.trans ?_
          exact congrArg (_ || ·) errors.symm }

end Reparse.Subtree
