/-
Reparse/Run/Lookahead.lean

The token that a parse has in front of it.
-/
import Reparse.Lexeme
import Reparse.Subtree

namespace Reparse

/-- A token that is not yet on the stack. -/
structure Lookahead where
  token : Subtree
  /-- The lex state it was looked for in. -/
  mode : LexStateId
deriving Inhabited

/-- The next token of a state.  Where its lex state finds none, that of the
error state is tried; then a single character is taken as an error token, and
at the end of the text there is the end token. -/
def Language.lookahead (language : Language) (text : Text) (position : Nat) (state : StateId) :
    Lookahead :=
  let mode := language.lexMode state
  let fallback := language.lexMode errorState
  let lexeme? :=
    (language.lexeme? text position mode).or
      (if fallback = mode then none else language.lexeme? text position fallback)
  let token :=
    match lexeme? with
    | some lexeme =>
      Subtree.token language lexeme.symbol lexeme.padding lexeme.size lexeme.lookahead state
    | none =>
      match text.drop? position with
      | some (c :: _) => Subtree.token language errorSymbol 0 c.utf8Size 0 state
      | _ => Subtree.token language endSymbol 0 0 0 state
  ⟨token, mode⟩

end Reparse
