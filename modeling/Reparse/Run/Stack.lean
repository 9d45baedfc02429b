/-
Reparse/Run/Stack.lean

The parse stack, and the ways in which subtrees on it are put together.

Extras may stand anywhere on the stack.  They do not count when a production
is reduced: those between its children become children too, and those above
stay on top.
-/
import Reparse.Subtree

namespace Reparse

/-- A subtree on the stack and the state behind it. -/
structure Entry where
  state : StateId
  subtree : Subtree
deriving Inhabited

/-- The topmost entry comes first. -/
abbrev Stack := List Entry

namespace Stack

def top : Stack → StateId
  | [] => startState
  | entry :: _ => entry.state

/-- The subtrees in text order. -/
def subtrees (stack : Stack) : List Subtree :=
  (stack.map (·.subtree)).reverse

/-- The extras on top. -/
def extras (stack : Stack) : Stack :=
  stack.takeWhile (·.subtree.marks.extra)

/-- What lies below the extras on top. -/
def belowExtras (stack : Stack) : Stack :=
  stack.dropWhile (·.subtree.marks.extra)

/-- Whether an error production on the stack has consumed input. -/
def hasConsumedRecovery (stack : Stack) : Bool :=
  stack.any (·.subtree.hasConsumedRecovery)

/-! ### Reduction -/

/-- Takes off entries until `count` of them were no extras or the stack is
empty.  Their subtrees are put in text order before `taken`. -/
def takeOff : Nat → Stack → List Subtree → List Subtree × Stack
  | 0, stack, taken => (taken, stack)
  | _ + 1, [], taken => (taken, [])
  | count + 1, entry :: stack, taken =>
    if entry.subtree.marks.extra then takeOff (count + 1) stack (entry.subtree :: taken)
    else takeOff count stack (entry.subtree :: taken)

/-- The stack after a reduction, if the state below has a goto.  The new node
depends on the lookahead token, which lies behind the extras on top. -/
def reduce? (language : Language) (stack : Stack) (symbol : Symbol) (count : UInt8)
    (token : Subtree) : Option Stack :=
  let extras := stack.extras
  let (children, rest) := takeOff count.toNat stack.belowExtras []
  let state := Stack.top rest
  (language.goto? state symbol).map fun target =>
    let made := Subtree.node language symbol children state
    let needed := Subtree.totalSizes extras.subtrees + token.totalSize + token.lookahead
    let node := Subtree.mk { made.head with lookahead := max made.lookahead needed } made.children
    extras.map (fun entry => { entry with state := target }) ++ ⟨target, node⟩ :: rest

/-! ### Skipped input -/

/-- One error token for two that follow each other. -/
def joinErrorTokens (first second : Subtree) : Subtree :=
  .mk
    { first.head with
      size := first.size + second.totalSize, lookahead := second.lookahead }
    first.children

/-- The children of an error node with one more token. -/
def addSkipped : List Subtree → Subtree → List Subtree
  | [], token => [token]
  | [last], token =>
    if last.isErrorToken && token.isErrorToken then [joinErrorTokens last token]
    else [last, token]
  | first :: second :: rest, token => first :: addSkipped (second :: rest) token

/-- The error in front of a skipped token and that token in one. -/
def mergeErrors (language : Language) (previous token : Subtree) (state : StateId) : Subtree :=
  if previous.isErrorToken && token.isErrorToken then joinErrorTokens previous token
  else
    let children := if previous.marks.token then [previous] else previous.children
    Subtree.errorNode language (addSkipped children token) state

/-- The stack with a token put on as skipped input.  It is merged with skipped
input on top. -/
def skip (language : Language) (stack : Stack) (token : Subtree) : Stack :=
  let state := stack.top
  let alone := if token.isErrorToken then token else Subtree.errorNode language [token] state
  match stack with
  | [] => [⟨state, alone⟩]
  | entry :: rest =>
    if entry.subtree.symbol = errorSymbol && entry.subtree.marks.extra then
      ⟨state, mergeErrors language entry.subtree token state⟩ :: rest
    else ⟨state, alone⟩ :: entry :: rest

end Stack

end Reparse
