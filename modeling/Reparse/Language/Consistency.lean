/-
Reparse/Language/Consistency.lean

When a grammar can be run: every index that the lexer and the parser may
follow is in range, the dense tables have a bounded size, and some state
accepts.  `Grammar.fault?` finds the first thing that is wrong: the sizes come
first, then the lex states in order, then the parse states in order.
-/
import Reparse.Grammar

namespace Reparse

/-- What is wrong with a grammar; states are given by index. -/
inductive Inconsistency where
  | noTerminals
  | tooManyTokens (tokens symbols : Nat)
  | tooManySymbols (symbols : Nat)
  | noStartState (states : Nat)
  | tooManyStates (states : Nat)
  | tablesTooLarge (states symbols : Nat)
  | errorStateWithoutLexState
  | acceptsNonterminal (lexState : Nat) (symbol : Symbol)
  | stepsNowhere (lexState : Nat) (target : LexStateId)
  | lexesNowhere (state : Nat) (target : LexStateId)
  | actionOnNonterminal (state : Nat) (symbol : Symbol)
  | shiftsNowhere (state : Nat) (target : StateId)
  | reducesToTerminal (state : Nat) (symbol : Symbol)
  | gotoOnTerminal (state : Nat) (symbol : Symbol)
  | goesNowhere (state : Nat) (target : StateId)
  | neverAccepts
deriving DecidableEq, Inhabited

def Inconsistency.message : Inconsistency → String
  | .noTerminals => "no terminal symbols"
  | .tooManyTokens tokens symbols => s!"token count {tokens} exceeds symbol count {symbols}"
  | .tooManySymbols symbols => s!"too many symbols: {symbols}"
  | .noStartState states => s!"expected a start state, found {states} states"
  | .tooManyStates states => s!"too many parse states: {states}"
  | .tablesTooLarge states symbols =>
    s!"{states} states by {symbols} symbols exceed the table size limit"
  | .errorStateWithoutLexState => "error state has no lex state"
  | .acceptsNonterminal lexState symbol => s!"lex state {lexState} accepts nonterminal {symbol}"
  | .stepsNowhere lexState target => s!"lex state {lexState} steps to missing state {target}"
  | .lexesNowhere state target => s!"parse state {state} uses missing lex state {target}"
  | .actionOnNonterminal state symbol =>
    s!"parse state {state} has an action on nonterminal {symbol}"
  | .shiftsNowhere state target => s!"parse state {state} shifts to missing state {target}"
  | .reducesToTerminal state symbol => s!"parse state {state} reduces to non-nonterminal {symbol}"
  | .gotoOnTerminal state symbol =>
    s!"parse state {state} has a goto on non-nonterminal {symbol}"
  | .goesNowhere state target => s!"parse state {state} goes to missing state {target}"
  | .neverAccepts => "no parse state accepts the input"

/-- The most parse states there may be: their indices have 16 bits. -/
def maxStates : Nat := 0x10000

/-- The most entries that the dense tables may have together. -/
def maxTableEntries : Nat := 0x400000

namespace Grammar

/-- Whether a symbol is a nonterminal of the symbol table. -/
def isNonterminal (grammar : Grammar) (symbol : Symbol) : Bool :=
  grammar.tokenCount ≤ symbol && symbol.toNat < grammar.symbols.length

/-! ### Faults of the parts -/

/-- What is wrong with the sizes. -/
def sizeFault? (grammar : Grammar) : Option Inconsistency :=
  let tokens := grammar.tokenCount.toNat
  let symbols := grammar.symbols.length
  let states := grammar.parseStates.length
  if tokens = 0 then some .noTerminals
  else if symbols < tokens then some (.tooManyTokens tokens symbols)
  else if errorSymbol.toNat ≤ symbols then some (.tooManySymbols symbols)
  else if states ≤ startState.toNat then some (.noStartState states)
  else if maxStates < states then some (.tooManyStates states)
  else if maxTableEntries < states * symbols then some (.tablesTooLarge states symbols)
  else none

/-- The error state is looked at before all others. -/
def fallbackFault? (grammar : Grammar) : Option Inconsistency :=
  match grammar.parseStates with
  | [] => none
  | state :: _ =>
    if state.lexState.toNat < grammar.lexStates.length then none
    else some .errorStateWithoutLexState

/-- What is wrong with a lex state. -/
def lexFault? (grammar : Grammar) (state : LexState) (index : Nat) : Option Inconsistency :=
  let acceptFault :=
    match state.accept with
    | some symbol =>
      if grammar.isTerminal symbol then none else some (.acceptsNonterminal index symbol)
    | none => none
  let steps := state.transitions.map (·.step) ++ state.atEnd.toList
  acceptFault <|> steps.findSome? fun step =>
    if step.target.toNat < grammar.lexStates.length then none
    else some (.stepsNowhere index step.target)

/-- What is wrong with an action of a parse state. -/
def actionFault? (grammar : Grammar) (index : Nat) : Symbol × ParseAction → Option Inconsistency
  | (key, action) =>
    if !grammar.isTerminal key then some (.actionOnNonterminal index key)
    else
      match action with
      | .shift target =>
        if target.toNat < grammar.parseStates.length then none
        else some (.shiftsNowhere index target)
      | .reduce symbol _ =>
        if grammar.isNonterminal symbol then none else some (.reducesToTerminal index symbol)
      | .accept => none
      | .recover => none

/-- What is wrong with a goto of a parse state. -/
def gotoFault? (grammar : Grammar) (index : Nat) : Symbol × StateId → Option Inconsistency
  | (key, target) =>
    if !grammar.isNonterminal key then some (.gotoOnTerminal index key)
    else if target.toNat < grammar.parseStates.length then none
    else some (.goesNowhere index target)

/-- What is wrong with a parse state. -/
def parseFault? (grammar : Grammar) (state : ParseState) (index : Nat) : Option Inconsistency :=
  let lexFault :=
    if state.lexState.toNat < grammar.lexStates.length then none
    else some (.lexesNowhere index state.lexState)
  lexFault <|> state.actions.findSome? (grammar.actionFault? index)
    <|> state.gotos.findSome? (grammar.gotoFault? index)

/-- Whether some state has an accepting action. -/
def accepts (grammar : Grammar) : Bool :=
  grammar.parseStates.any fun state => state.actions.any fun entry => entry.2 = .accept

/-! ### The first fault -/

/-- The first thing that is wrong with a grammar. -/
def fault? (grammar : Grammar) : Option Inconsistency :=
  grammar.sizeFault?
    <|> grammar.fallbackFault?
    <|> grammar.lexStates.zipIdx.findSome? (fun (state, index) => grammar.lexFault? state index)
    <|> grammar.parseStates.zipIdx.findSome? (fun (state, index) => grammar.parseFault? state index)
    <|> if grammar.accepts then none else some .neverAccepts

end Grammar

end Reparse
