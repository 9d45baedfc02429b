/-
Reparse/Tree/Outline.lean

What is seen of a tree, as a tree of its own, and how it is written.
-/
import Reparse.Text.Quoted
import Reparse.Tree

namespace Reparse

/-- A node with the outlines of its visible children. -/
inductive Outline where
  | mk (node : Node) (children : List Outline)

/-! ### From a tree -/

namespace Subtree

mutual

/-- The outlines of the visible children of a subtree at `start`. -/
def outlines (language : Language) (start : Nat) : Subtree → List Outline
  | mk _ children => outlinesAmong language start children

/-- The outlines of the visible subtrees that a row stands for. -/
def outlinesAmong (language : Language) (start : Nat) : List Subtree → List Outline
  | [] => []
  | tree :: rest =>
    (if tree.marks.visible then [.mk ⟨tree, start, language⟩ (outlines language start tree)]
      else if tree.marks.token then []
      else outlines language start tree) ++
      outlinesAmong language (start + tree.totalSize) rest

end

end Subtree

/-- What is seen of a node, which itself is always seen. -/
def Node.outline (node : Node) : Outline :=
  .mk node (node.subtree.outlines node.language node.start)

namespace Outline

/-! ### As a list -/

mutual

/-- The nodes with their depths, each before its children. -/
def preorder (depth : Nat) : Outline → List (Nat × Node)
  | mk node children => (depth, node) :: preorders (depth + 1) children

/-- The nodes of a row of outlines. -/
def preorders (depth : Nat) : List Outline → List (Nat × Node)
  | [] => []
  | outline :: rest => preorder depth outline ++ preorders depth rest

end

/-! ### As a nested expression -/

/-- The kind of a node, in quotes if it has no name of its own. -/
def label (node : Node) : Text :=
  if node.isNamed then node.kind.toList else Text.quote node.kind.toList

mutual

/-- The named structure in parentheses. -/
def sexp : Outline → Text
  | mk node children =>
    if node.isMissing then "(MISSING ".toList ++ label node ++ [')']
    else '(' :: node.kind.toList ++ sexps children ++ [')']

/-- The same for a row; the children of a node without a name take its place. -/
def sexps : List Outline → Text
  | [] => []
  | mk node children :: rest =>
    (if node.isNamed || node.isMissing then ' ' :: sexp (mk node children)
      else sexps children) ++ sexps rest

end

/-! ### As an indented list -/

/-- The line of a node without its end: depth, missing or not, kind and span. -/
def line (depth : Nat) (node : Node) : Text :=
  List.replicate (4 * depth) ' ' ++ (if node.isMissing then "MISSING ".toList else []) ++
    label node ++ ' ' :: node.span.render

/-- The text of a node in quotes, empty where the source has no such range. -/
def quotedText (source : Text) (node : Node) : Text :=
  Text.quote ((node.text? source).getD [])

mutual

/-- One line for each node, with the text of those that have no children. -/
def dump (source : Text) (depth : Nat) : Outline → Text
  | mk node children =>
    line depth node ++
      if children.isEmpty then ' ' :: quotedText source node ++ ['\n']
      else '\n' :: dumps source (depth + 1) children

/-- The lines of a row of outlines. -/
def dumps (source : Text) (depth : Nat) : List Outline → Text
  | [] => []
  | outline :: rest => dump source depth outline ++ dumps source depth rest

end

end Outline

/-! ### Written trees -/

/-- The named structure of a node. -/
def Node.sexp (node : Node) : Text := node.outline.sexp

namespace Tree

/-- The named structure of a tree. -/
def sexp (tree : Tree) : Text := tree.rootNode.sexp

/-- All that is seen of a tree, with the texts that the leaves have in `source`. -/
def dump (tree : Tree) (source : Text) : Text := tree.rootNode.outline.dump source 0

/-- Structure and language on one line. -/
def describe (tree : Tree) : String :=
  "Tree \x7b root: " ++ String.ofList tree.sexp ++ ", language: " ++ tree.language.describe ++ " \x7d"

end Tree

end Reparse
