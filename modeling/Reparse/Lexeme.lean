/-
Reparse/Lexeme.lean

Tokens as the lexer automaton finds them.

A scan begins in some lex state and follows the automaton for as long as a
step matches.  The token ends where an accepting state was passed last.  A
step that skips turns everything before it into padding and forgets what was
accepted so far.  At the end of the input one more step may be taken, which
consumes nothing.

The scan also keeps how far it has looked: the token found depends on no byte
behind that, see `Lexeme.lookahead`.

A scan measures in whole numbers.  A token has 32 bits for each of its lengths,
and gets the low bits of what was measured: below four gigabytes that is all.
-/
import Reparse.Language
import Reparse.Span

namespace Reparse

/-- A token.  All lengths are in bytes, and have 32 bits. -/
structure Lexeme where
  symbol : Symbol
  /-- The length of the skipped text in front. -/
  padding : Nat
  size : Nat
  /-- How far behind its end the lexer looked to find it. -/
  lookahead : Nat
deriving DecidableEq, Inhabited

/-- How far a scan has come.  Offsets count from where it began. -/
structure Scan where
  state : LexStateId
  cursor : Nat := 0
  /-- The end of the padding. -/
  tokenStart : Nat := 0
  /-- The end of the text looked at. -/
  examined : Nat := 0
  /-- The last token that could end, and where. -/
  accepted : Option (Symbol × Nat) := none
deriving DecidableEq, Inhabited

namespace Scan

variable (language : Language)

/-- Note the token that the current state accepts. -/
def visit (scan : Scan) : Scan :=
  match (language.lexState scan.state).accept with
  | some symbol => { scan with accepted := some (symbol, scan.cursor) }
  | none => scan

/-- Take a step over `width` bytes. -/
def take (scan : Scan) (width : Nat) : LexStep → Scan
  | .advance target => { scan with state := target, cursor := scan.cursor + width }
  | .skip target =>
    { scan with
      state := target
      cursor := scan.cursor + width
      tokenStart := scan.cursor + width
      accepted := none }

/-- Look at the next `width` bytes. -/
def look (scan : Scan) (width : Nat) : Scan :=
  { scan with examined := max scan.examined (scan.cursor + width) }

/-- Follow the automaton through the text as far as it goes. -/
def follow : Scan → Text → Scan
  | scan, [] =>
    let scan := scan.visit language
    match (language.lexState scan.state).atEnd with
    | none => scan
    | some step => (scan.take 0 step).visit language
  | scan, c :: rest =>
    let scan := (scan.visit language).look c.utf8Size
    match (language.lexState scan.state).step? c with
    | none => scan
    | some step => follow (scan.take c.utf8Size step) rest

/-- The token that a finished scan has found, with the low 32 bits of each length. -/
def lexeme? (scan : Scan) : Option Lexeme :=
  scan.accepted.map fun (symbol, stop) =>
    { symbol
      padding := Span.lowBits scan.tokenStart
      size := Span.lowBits (stop - scan.tokenStart)
      lookahead := Span.lowBits (scan.examined - stop) }

end Scan

/-- The token at a position, looked for in a lex state.  A position where the
text cannot be cut is taken for its end. -/
def Language.lexeme? (language : Language) (text : Text) (position : Nat) (mode : LexStateId) :
    Option Lexeme :=
  (Scan.follow language { state := mode } ((text.drop? position).getD [])).lexeme?

end Reparse
