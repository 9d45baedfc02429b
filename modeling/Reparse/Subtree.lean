/-
Reparse/Subtree.lean

Syntax trees without positions.

A subtree knows only its own extent: the skipped `padding` in front of it, its
`size`, and how many bytes behind its end it depends on.  Positions come up
while one walks down from a root.  A subtree that an edit leaves alone can
therefore stand in the tree of the edited text as it is.
-/
import Reparse.Language

namespace Reparse

/-- The marks on a subtree. -/
structure Marks where
  /-- It is seen in the tree; otherwise its children are seen in its place. -/
  visible : Bool := false
  named : Bool := false
  /-- It is no part of a production, like skipped input. -/
  extra : Bool := false
  token : Bool := false
  /-- It was put in by error recovery and has no width. -/
  missing : Bool := false
  /-- It is an error production of the grammar. -/
  recovery : Bool := false
  /-- It or something below it is an error. -/
  hasError : Bool := false
  /-- An edit has touched it since it was parsed. -/
  hasChanges : Bool := false
deriving DecidableEq, Inhabited

/-- A subtree apart from its children. -/
structure Head where
  symbol : Symbol
  padding : Nat
  size : Nat
  /-- How many bytes behind its end it depends on. -/
  lookahead : Nat
  /-- The parse state it was put on. -/
  parseState : StateId
  marks : Marks
deriving DecidableEq, Inhabited

/-- A node of a syntax tree with everything below it. -/
inductive Subtree where
  | mk (head : Head) (children : List Subtree)
deriving Inhabited

namespace Subtree

def head : Subtree → Head
  | mk head _ => head

def children : Subtree → List Subtree
  | mk _ children => children

def symbol (tree : Subtree) : Symbol := tree.head.symbol

def padding (tree : Subtree) : Nat := tree.head.padding

def size (tree : Subtree) : Nat := tree.head.size

def lookahead (tree : Subtree) : Nat := tree.head.lookahead

def parseState (tree : Subtree) : StateId := tree.head.parseState

def marks (tree : Subtree) : Marks := tree.head.marks

/-- The length with the padding. -/
def totalSize (tree : Subtree) : Nat := tree.padding + tree.size

/-- Whether this is skipped input that can take in more skipped input. -/
def isErrorToken (tree : Subtree) : Bool :=
  tree.symbol = errorSymbol && tree.marks.token

/-! ### Extents -/

/-- The length of a row of subtrees. -/
def totalSizes : List Subtree → Nat
  | [] => 0
  | tree :: trees => tree.totalSize + totalSizes trees

/-- How far from its start a row of subtrees depends on the text. -/
def reach : List Subtree → Nat
  | [] => 0
  | tree :: trees => max (tree.totalSize + tree.lookahead) (tree.totalSize + reach trees)

@[simp] theorem totalSizes_append (xs ys : List Subtree) :
    totalSizes (xs ++ ys) = totalSizes xs + totalSizes ys := by
  induction xs with
  | nil => simp [totalSizes]
  | cons x xs ih => simp [totalSizes, ih, Nat.add_assoc]

/-- The head of a node with the extent that its children give it.  Without
children the extent stays as it is. -/
def summarize (head : Head) : List Subtree → Head
  | [] => head
  | first :: rest =>
    let children := first :: rest
    { head with
      padding := first.padding
      size := totalSizes children - first.padding
      lookahead := reach children - totalSizes children }

/-- A node is as long as its children together. -/
theorem totalSize_mk_summarize (head : Head) (first : Subtree) (rest : List Subtree) :
    (mk (summarize head (first :: rest)) (first :: rest)).totalSize =
      totalSizes (first :: rest) := by
  have h : first.padding ≤ totalSizes (first :: rest) := by
    simp only [totalSizes, totalSize]
    omega
  exact Nat.add_sub_of_le h

/-! ### Construction -/

/-- The marks that a symbol gives to every subtree of it. -/
def symbolMarks (language : Language) (symbol : Symbol) : Marks :=
  let flags := language.flags symbol
  { visible := flags.contains .visible
    named := flags.contains .named
    recovery := flags.contains .recovery }

/-- A token.  One of the error symbol is an extra. -/
def token (language : Language) (symbol : Symbol) (padding size lookahead : Nat)
    (parseState : StateId) : Subtree :=
  let marks := symbolMarks language symbol
  let isError := decide (symbol = errorSymbol)
  mk
    { symbol, padding, size, lookahead, parseState
      marks := { marks with
        token := true, extra := isError, hasError := marks.recovery || isError } }
    []

/-- An inner node. -/
def node (language : Language) (symbol : Symbol) (children : List Subtree)
    (parseState : StateId) : Subtree :=
  let marks := symbolMarks language symbol
  let hasError := marks.recovery || decide (symbol = errorSymbol) ||
    children.any (·.marks.hasError)
  let head : Head :=
    { symbol, padding := 0, size := 0, lookahead := 0, parseState
      marks := { marks with hasError } }
  mk (summarize head children) children

/-- The subtree with other marks. -/
def mapMarks (tree : Subtree) (f : Marks → Marks) : Subtree :=
  mk { tree.head with marks := f tree.marks } tree.children

/-- A node of an error production that covers no input. -/
def missing (language : Language) (symbol : Symbol) (parseState : StateId) : Subtree :=
  (node language symbol [] parseState).mapMarks fun marks =>
    { marks with missing := true, hasError := true }

/-- A node of skipped input. -/
def errorNode (language : Language) (children : List Subtree) (parseState : StateId) : Subtree :=
  (node language errorSymbol children parseState).mapMarks fun marks => { marks with extra := true }

/-! ### Error productions below -/

mutual

/-- Whether an error production in this subtree has consumed input. -/
def hasConsumedRecovery : Subtree → Bool
  | mk head children =>
    head.marks.hasError &&
      ((head.marks.recovery && !head.marks.missing) || anyConsumedRecovery children)

/-- The same of any subtree of a row. -/
def anyConsumedRecovery : List Subtree → Bool
  | [] => false
  | tree :: trees => hasConsumedRecovery tree || anyConsumedRecovery trees

end

end Subtree

end Reparse
