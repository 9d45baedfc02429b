/-
Reparse/Run.lean

What a parse works on, and the state it is in.
-/
import Reparse.Run.Lookahead
import Reparse.Run.Stack

namespace Reparse

/-- What stays the same during a parse. -/
structure Setting where
  language : Language
  text : Text
  /-- How many recoveries there may be before the parse gives up. -/
  maxRecoveries : Nat
  /-- The root of a tree that followed the changes of the text, to take
  subtrees from. -/
  old : Option Subtree

/-- The state of a parse. -/
structure Run where
  stack : Stack := []
  /-- The bytes that the stack covers. -/
  position : Nat := 0
  lookahead : Option Lookahead := none
  /-- Where error productions without width were put in. -/
  inserted : List (StateId × Nat) := []
  recoveries : Nat := 0
  /-- How many subtrees came from the old tree. -/
  reused : Nat := 0

namespace Run

def state (run : Run) : StateId := run.stack.top

/-- A subtree with its width put on the stack. -/
def push (run : Run) (target : StateId) (subtree : Subtree) : Run :=
  { run with
    stack := ⟨target, subtree⟩ :: run.stack, position := run.position + subtree.totalSize }

/-! ### Results -/

/-- Everything so far, the lookahead and the rest of the text under an error root.
Of the size of the text the low 32 bits count. -/
def giveUp (setting : Setting) (run : Run) (token : Subtree) : Subtree :=
  let stop := Subtree.token setting.language endSymbol 0 0 0 errorState
  let rest := Span.lowBits setting.text.size - (run.position + token.totalSize)
  let tail :=
    if token.symbol = endSymbol then [token]
    else if token.isErrorToken then
      [.mk { token.head with size := token.size + rest } token.children, stop]
    else if 0 < rest then
      [token, Subtree.token setting.language errorSymbol 0 rest 0 errorState, stop]
    else [token, stop]
  Subtree.node setting.language errorSymbol (run.stack.subtrees ++ tail) errorState

/-- The topmost subtree that is no extra becomes the root.  It takes in the
extras around it and the end token. -/
def accept (setting : Setting) (run : Run) (token : Subtree) : Subtree :=
  match run.stack.belowExtras with
  | [] => run.giveUp setting token
  | entry :: rest =>
    let root := entry.subtree
    let middle := if root.marks.token then [root] else root.children
    let children :=
      Stack.subtrees rest ++ middle ++ run.stack.extras.subtrees ++ [token]
    Subtree.node setting.language root.symbol children root.parseState

end Run

end Reparse
