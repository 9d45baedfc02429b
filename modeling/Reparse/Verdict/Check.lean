/-
Reparse/Verdict/Check.lean

What can be verified of a grammar table: that it loads, that a text parses
without errors into a well formed tree, and that a reparse after an edit gives
the same tree as a fresh parse.
-/
import Reparse.Parser
import Reparse.Tree.Outline
import Reparse.Tree.Walk
import Reparse.Verdict

namespace Reparse

/-! ### Well formed trees -/

/-- What is wrong with the places of the nodes of a tree. -/
inductive Misplacement where
  | rootEnd (stop size : Nat)
  | overlap (child : Node)
  | outside (child parent : Node)

def Misplacement.message : Misplacement → String
  | .rootEnd stop size => s!"root ends at {stop} but the source has {size} bytes"
  | .overlap child => child.describe ++ " overlaps its preceding sibling"
  | .outside child parent => child.describe ++ " reaches outside " ++ parent.describe

/-- The first misplaced node in a row of siblings; the one before ends at `previous`. -/
def Node.misplacedChild? (parent : Node) (previous : Nat) : List Node → Option Misplacement
  | [] => none
  | child :: rest =>
    if child.startByte < previous then some (.overlap child)
    else if !parent.span.encloses child.span then some (.outside child parent)
    else parent.misplacedChild? child.endByte rest

/-- What is wrong with a tree over a source of `size` bytes. -/
def Node.misplacement? (root : Node) (size : Nat) : Option Misplacement :=
  if root.endByte ≠ size then some (.rootEnd root.endByte size)
  else
    root.descendants.findSome? fun node => node.misplacedChild? node.startByte node.children

/-! ### Checks -/

namespace Table

/-- Whether the table loads. -/
def verifyLoads (table : Table) : Verdict :=
  match table.load 0 with
  | .ok _ => .passed
  | .error _ => .failed loadFailure

/-- Whether a text parses without errors into a well formed tree. -/
def verifyParses (table : Table) (source : Text) : Verdict :=
  match table.load 0 with
  | .error _ => .failed loadFailure
  | .ok language =>
    let root := (language.parse {} source none).1.rootNode
    if root.hasError then .failed parseFailure
    else
      match root.misplacement? source.size with
      | none => .passed
      | some cause => .failed ("Malformed syntax tree: " ++ cause.message)

/-- Whether a reparse behind an edit gives the same as a fresh parse. -/
def verifyReparse (table : Table) (source : Text) (start stop : Nat) (new : Text) : Verdict :=
  match table.load 0 with
  | .error _ => .failed loadFailure
  | .ok language =>
    match source.replace? start stop new with
    | none => .failed s!"Invalid edit {start}..{stop}"
    | some edited =>
      let old := (language.parse {} source none).1.edit (.replace start stop new)
      let reparsed := (language.parse {} edited (some old)).1
      let fresh := (language.parse {} edited none).1
      if reparsed.dump edited = fresh.dump edited then .passed else .failed reparseFailure

/-- The case that the table loads. -/
def loadCase (table : Table) : Case Unit where
  check := fun _ => (table.verifyLoads, ())
  state := ()

end Table

end Reparse
