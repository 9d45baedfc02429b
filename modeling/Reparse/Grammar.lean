/-
Reparse/Grammar.lean

Compiled grammars: a lexer automaton and an LR parse table over one symbol
table.

Symbol `0` is always the end of the input.  Symbols below the token count are
terminals, the rest are nonterminals.  Lex states, parse states and symbols
refer to each other by index; nothing here says that an index is in range,
which is what `Reparse.Language.Consistency` checks.
-/
namespace Reparse

/-! ### Symbols -/

/-- An index into the symbol table. -/
abbrev Symbol := UInt16

/-- An index into the parse states. -/
abbrev StateId := UInt16

/-- An index into the lex states. -/
abbrev LexStateId := UInt16

/-- The end-of-input token. -/
def endSymbol : Symbol := 0

/-- The symbol of skipped input.  It is never part of a symbol table. -/
def errorSymbol : Symbol := 65535

/-- The parse state whose lex state is the fallback mode of the lexer. -/
def errorState : StateId := 0

/-- The state of an empty parse stack. -/
def startState : StateId := 1

/-- The properties of a symbol, one bit each; bits without a meaning are kept. -/
structure SymbolFlags where
  bits : UInt8
deriving DecidableEq, Inhabited

namespace SymbolFlags

/-- No property at all: nodes of the symbol are left out of the visible tree. -/
def hidden : SymbolFlags := ⟨0⟩

/-- Nodes of the symbol are seen in the tree. -/
def visible : SymbolFlags := ⟨1⟩

/-- The symbol has a name of its own rather than standing for its text. -/
def named : SymbolFlags := ⟨2⟩

/-- The symbol is an error production, to be used where the input does not fit. -/
def recovery : SymbolFlags := ⟨4⟩

/-- The properties of either. -/
def union (a b : SymbolFlags) : SymbolFlags := ⟨a.bits ||| b.bits⟩

/-- Whether all properties of `b` are among those of `a`. -/
def contains (a b : SymbolFlags) : Bool := a.bits &&& b.bits == b.bits

end SymbolFlags

/-- An entry of the symbol table. -/
structure SymbolInfo where
  name : String
  flags : SymbolFlags
deriving DecidableEq, Inhabited

namespace SymbolInfo

def isVisible (info : SymbolInfo) : Bool := info.flags.contains .visible

def isNamed (info : SymbolInfo) : Bool := info.flags.contains .named

def isRecovery (info : SymbolInfo) : Bool := info.flags.contains .recovery

end SymbolInfo

/-! ### Character sets -/

/-- Characters given by inclusive ranges, or all others if `negated`.  A range
may be empty or reversed, and then holds nothing. -/
structure CharSet where
  ranges : List (Char × Char)
  negated : Bool
deriving DecidableEq, Inhabited

namespace CharSet

def empty : CharSet := ⟨[], false⟩

def range (first last : Char) : CharSet := ⟨[(first, last)], false⟩

def one (c : Char) : CharSet := range c c

def of (chars : List Char) : CharSet := ⟨chars.map fun c => (c, c), false⟩

/-- The set with one more range. -/
def withRange (set : CharSet) (first last : Char) : CharSet :=
  { set with ranges := set.ranges ++ [(first, last)] }

/-- The set with one more character. -/
def withChar (set : CharSet) (c : Char) : CharSet := set.withRange c c

/-- All characters that are not in the set. -/
def complement (set : CharSet) : CharSet :=
  { set with negated := !set.negated }

def contains (set : CharSet) (c : Char) : Bool :=
  (set.ranges.any fun (first, last) => first ≤ c && c ≤ last) != set.negated

end CharSet

/-! ### The lexer automaton -/

/-- What the lexer does with a character, and the lex state it goes on in. -/
inductive LexStep where
  /-- Take the character into the token. -/
  | advance (target : LexStateId)
  /-- Take the character as padding and begin the token anew behind it. -/
  | skip (target : LexStateId)
deriving DecidableEq, Inhabited

def LexStep.target : LexStep → LexStateId
  | .advance target => target
  | .skip target => target

/-- A step taken on the characters of a set. -/
structure Transition where
  chars : CharSet
  step : LexStep
deriving DecidableEq, Inhabited

/-- A state of the lexer automaton. -/
structure LexState where
  /-- The token recognized on reaching this state. -/
  accept : Option Symbol := none
  /-- The step taken at the end of the input; it consumes nothing. -/
  atEnd : Option LexStep := none
  /-- Tried in order: the first one whose set has the character is taken. -/
  transitions : List Transition := []
deriving DecidableEq, Inhabited

/-- The step on a character, if there is one. -/
def LexState.step? (state : LexState) (c : Char) : Option LexStep :=
  (state.transitions.find? fun transition => transition.chars.contains c).map (·.step)

/-! ### The parse table -/

/-- What the parser does on a lookahead token. -/
inductive ParseAction where
  /-- Push the token and go to the state. -/
  | shift (target : StateId)
  /-- Replace the topmost `childCount` subtrees by one of the symbol. -/
  | reduce (symbol : Symbol) (childCount : UInt8)
  /-- The text is complete. -/
  | accept
  /-- Only error recovery can deal with the token. -/
  | recover
deriving DecidableEq, Inhabited

/-- A state of the parse table. -/
structure ParseState where
  lexState : LexStateId
  /-- Actions keyed by terminal lookahead. -/
  actions : List (Symbol × ParseAction) := []
  /-- Successor states keyed by nonterminal. -/
  gotos : List (Symbol × StateId) := []
deriving DecidableEq, Inhabited

/-! ### Grammars -/

/-- All that makes a grammar. -/
structure Grammar where
  name : String
  tokenCount : UInt16
  symbols : List SymbolInfo
  lexStates : List LexState
  parseStates : List ParseState
deriving DecidableEq, Inhabited

namespace Grammar

/-- The entry of a symbol. -/
def symbol? (grammar : Grammar) (symbol : Symbol) : Option SymbolInfo :=
  grammar.symbols[symbol.toNat]?

def isTerminal (grammar : Grammar) (symbol : Symbol) : Bool :=
  symbol < grammar.tokenCount

end Grammar

end Reparse
