/-
Reparse/Tree.lean

Syntax trees and the nodes that are seen in them.

A hidden inner node is not seen itself; its children take its place.  A hidden
token is not seen at all.  A node carries the position of its subtree, padding
included, since a subtree does not know it.
-/
import Reparse.Span
import Reparse.Subtree.Edit

namespace Reparse

/-- A parsed tree and the language it was parsed with. -/
structure Tree where
  root : Subtree
  language : Language

/-- A place in a tree. -/
structure Node where
  subtree : Subtree
  /-- The position of the padding. -/
  start : Nat
  language : Language

namespace Tree

def rootNode (tree : Tree) : Node := ⟨tree.root, 0, tree.language⟩

/-- The tree after a change of its text.  What the change touches is marked,
so that a later parse does not reuse it. -/
def edit (tree : Tree) (edit : TextEdit) : Tree :=
  { tree with root := tree.root.edit edit.normalize }

end Tree

/-! ### Children -/

namespace Subtree

mutual

/-- The visible children of a subtree at `start`, with their positions. -/
def visibleChildren (start : Nat) : Subtree → List (Subtree × Nat)
  | mk _ children => visibleAmong start children

/-- The visible subtrees that a row of subtrees stands for. -/
def visibleAmong (start : Nat) : List Subtree → List (Subtree × Nat)
  | [] => []
  | tree :: rest =>
    (if tree.marks.visible then [(tree, start)]
      else if tree.marks.token then []
      else visibleChildren start tree) ++
      visibleAmong (start + tree.totalSize) rest

end

mutual

/-- The number of visible children. -/
def visibleCount : Subtree → Nat
  | mk _ children => visibleCounts children

/-- The number of visible subtrees that a row stands for. -/
def visibleCounts : List Subtree → Nat
  | [] => 0
  | tree :: rest =>
    (if tree.marks.visible then 1
      else if tree.marks.token then 0
      else visibleCount tree) + visibleCounts rest

end

mutual

/-- The visible child at an index, or else by how much the index is past them. -/
def visibleChild (start index : Nat) : Subtree → Except Nat (Subtree × Nat)
  | mk _ children => visibleOf start index children

/-- The visible subtree at an index of a row, or else by how much the index is
past them. -/
def visibleOf (start index : Nat) : List Subtree → Except Nat (Subtree × Nat)
  | [] => .error index
  | tree :: rest =>
    let next := start + tree.totalSize
    if tree.marks.visible then
      match index with
      | 0 => .ok (tree, start)
      | index + 1 => visibleOf next index rest
    else if tree.marks.token then visibleOf next index rest
    else
      match visibleChild start index tree with
      | .ok found => .ok found
      | .error index => visibleOf next index rest

end

end Subtree

namespace Node

variable (node : Node)

/-! ### Properties -/

def symbol : Symbol := node.subtree.symbol

def kind : String := (node.language.kind? node.symbol).getD ""

def isNamed : Bool := node.subtree.marks.named

/-- Whether this is skipped input. -/
def isError : Bool := node.symbol = errorSymbol

def isMissing : Bool := node.subtree.marks.missing

def isExtra : Bool := node.subtree.marks.extra

/-- Whether this is an error production of the grammar. -/
def isRecovery : Bool := node.subtree.marks.recovery

def hasError : Bool := node.subtree.marks.hasError

def hasChanges : Bool := node.subtree.marks.hasChanges

/-- Where the node starts; the padding lies before. -/
def startByte : Nat := node.start + node.subtree.padding

def endByte : Nat := node.start + node.subtree.totalSize

def span : Span := ⟨node.startByte, node.endByte⟩

/-- The text of the node. -/
def text? (source : Text) : Option Text :=
  source.slice? node.startByte node.endByte

/-! ### Family -/

/-- The visible children in order. -/
def children : List Node :=
  (node.subtree.visibleChildren node.start).map fun (subtree, start) =>
    { node with subtree, start }

def childCount : Nat := node.subtree.visibleCount

/-- The visible child at an index. -/
def child? (index : Nat) : Option Node :=
  match node.subtree.visibleChild node.start index with
  | .ok (subtree, start) => some { node with subtree, start }
  | .error _ => none

def namedChildren : List Node := node.children.filter (·.isNamed)

/-- The first child of a kind. -/
def childOfKind? (kind : String) : Option Node :=
  node.children.find? fun child => child.kind = kind

def childrenOfKind (kind : String) : List Node :=
  node.children.filter fun child => child.kind = kind

/-- The node that a path of child indices leads to. -/
def follow? (node : Node) : List Nat → Option Node
  | [] => some node
  | index :: path => (node.child? index).bind (follow? · path)

/-- Kind and span on one line. -/
def describe : String :=
  "\x7bNode " ++ node.kind ++ " " ++ toString node.span ++ "\x7d"

end Node

/-- Whether two paths from the root lead to the same node, or both nowhere. -/
def Tree.samePlace (tree : Tree) (a b : List Nat) : Bool :=
  match tree.rootNode.follow? a, tree.rootNode.follow? b with
  | some _, some _ => a = b
  | none, none => true
  | _, _ => false

end Reparse
