/-
Reparse/Language.lean

Languages: grammars made ready for parsing.

The listed actions and gotos of a grammar become dense tables, a row for each
parse state.  Of several entries for one key the last listed one counts.
-/
import Reparse.Grammar
import Reparse.Text.Quoted

namespace Reparse

/-- A grammar that a parser can run.

`origin` tells apart languages that were loaded at different times, also from
the same table: a tree belongs to the language that it was parsed with. -/
structure Language where
  origin : Nat
  name : String
  version : UInt32
  tokenCount : UInt16
  symbols : Array SymbolInfo
  lexStates : Array LexState
  /-- The lex state of each parse state. -/
  lexModes : Array LexStateId
  /-- The action on a terminal stands at `state * tokenCount + terminal`. -/
  actions : Array (Option ParseAction)
  /-- The goto on a nonterminal stands at
  `state * nonterminalCount + (nonterminal - tokenCount)`. -/
  gotos : Array (Option StateId)
  /-- The production that each state reduces by whatever comes next. -/
  defaultReductions : Array (Option (Symbol × UInt8))
  /-- The listed gotos of each state on error productions. -/
  recoveryGotos : Array (List (Symbol × StateId))
deriving DecidableEq, Inhabited

/-! ### From a grammar -/

/-- A state whose actions are all the same reduction reduces by default. -/
def ParseState.defaultReduction? (state : ParseState) : Option (Symbol × UInt8) :=
  match state.actions with
  | (_, .reduce symbol count) :: rest =>
    if rest.all fun entry => entry.2 = .reduce symbol count then some (symbol, count) else none
  | _ => none

/-- The gotos of a state on error productions. -/
def ParseState.recoveryGotos (symbols : Array SymbolInfo) (state : ParseState) :
    List (Symbol × StateId) :=
  state.gotos.filter fun entry => (symbols[entry.1.toNat]?.map (·.isRecovery)).getD false

/-- A table of `size` entries, filled in order. -/
def fillTable {α : Type} (size : Nat) (entries : List (Nat × α)) : Array (Option α) :=
  entries.foldl (fun table (index, value) => table.setIfInBounds index (some value))
    (Array.replicate size none)

theorem getElem?_foldl_setIfInBounds {α : Type} (entries : List (Nat × α))
    (table : Array (Option α)) (i : Nat) :
    (entries.foldl (fun table entry => table.setIfInBounds entry.1 (some entry.2)) table)[i]? =
      if i < table.size then
        some (((entries.filter (·.1 = i)).getLast?.map (·.2)).or (table[i]?.join))
      else none := by
  induction entries generalizing table with
  | nil =>
    by_cases hi : i < table.size
    · simp [hi]
    · simp [hi]
  | cons entry entries ih =>
    rw [List.foldl_cons, ih, Array.size_setIfInBounds]
    by_cases hi : i < table.size
    · by_cases he : entry.1 = i
      · subst he
        rcases e : entries.filter (·.1 = entry.1) with - | ⟨a, as⟩
        · simp [hi, e]
        · simp [hi, e, List.getLast?_cons]
      · simp [hi, he]
    · simp [hi]

/-- Of several entries for one place the last one counts. -/
theorem getElem?_fillTable {α : Type} (size : Nat) (entries : List (Nat × α)) (i : Nat) :
    (fillTable size entries)[i]? =
      if i < size then some ((entries.filter (·.1 = i)).getLast?.map (·.2)) else none := by
  have h := getElem?_foldl_setIfInBounds entries (Array.replicate size none) i
  simp only [Array.size_replicate] at h
  refine h.trans ?_
  by_cases hi : i < size
  · simp [hi]
  · simp [hi]

namespace Grammar

/-- The listed actions with their places in the dense table. -/
def actionEntries (grammar : Grammar) : List (Nat × ParseAction) :=
  grammar.parseStates.zipIdx.flatMap fun (state, index) =>
    state.actions.map fun (symbol, action) =>
      (index * grammar.tokenCount.toNat + symbol.toNat, action)

/-- The listed gotos with their places in the dense table. -/
def gotoEntries (grammar : Grammar) : List (Nat × StateId) :=
  let nonterminals := grammar.symbols.length - grammar.tokenCount.toNat
  grammar.parseStates.zipIdx.flatMap fun (state, index) =>
    state.gotos.map fun (symbol, target) =>
      (index * nonterminals + (symbol.toNat - grammar.tokenCount.toNat), target)

/-- The language of a grammar.  It runs as intended if the grammar is consistent. -/
def toLanguage (grammar : Grammar) (version : UInt32) (origin : Nat) : Language :=
  let symbols := grammar.symbols.toArray
  let tokens := grammar.tokenCount.toNat
  let states := grammar.parseStates.length
  { origin
    name := grammar.name
    version
    tokenCount := grammar.tokenCount
    symbols
    lexStates := grammar.lexStates.toArray
    lexModes := (grammar.parseStates.map (·.lexState)).toArray
    actions := fillTable (states * tokens) grammar.actionEntries
    gotos := fillTable (states * (symbols.size - tokens)) grammar.gotoEntries
    defaultReductions := (grammar.parseStates.map (·.defaultReduction?)).toArray
    recoveryGotos := (grammar.parseStates.map (·.recoveryGotos symbols)).toArray }

end Grammar

/-! ### Look-up -/

namespace Language

def symbolCount (language : Language) : Nat := language.symbols.size

def stateCount (language : Language) : Nat := language.lexModes.size

def nonterminalCount (language : Language) : Nat :=
  language.symbolCount - language.tokenCount.toNat

def isTerminal (language : Language) (symbol : Symbol) : Bool :=
  symbol < language.tokenCount

/-- The name under which the error symbol is known in every language. -/
def errorName : String := "ERROR"

/-- The name of a symbol. -/
def kind? (language : Language) (symbol : Symbol) : Option String :=
  if symbol = errorSymbol then some errorName
  else language.symbols[symbol.toNat]?.map (·.name)

/-- The symbol of a name; of several symbols of one name it is the last. -/
def symbolOf? (language : Language) (kind : String) : Option Symbol :=
  if kind = errorName then some errorSymbol
  else
    let places := language.symbols.toList.zipIdx.filter fun (info, _) => info.name = kind
    places.getLast?.map fun (_, index) => UInt16.ofNat index

/-- The properties of a symbol: the error symbol is seen and named. -/
def flags (language : Language) (symbol : Symbol) : SymbolFlags :=
  if symbol = errorSymbol then .union .visible .named
  else (language.symbols[symbol.toNat]?.map (·.flags)).getD .hidden

/-- The lex state that a parse state reads its lookahead in. -/
def lexMode (language : Language) (state : StateId) : LexStateId :=
  language.lexModes[state.toNat]?.getD 0

def lexState (language : Language) (id : LexStateId) : LexState :=
  language.lexStates[id.toNat]?.getD {}

/-- The action on a terminal lookahead.  To recover is not an action. -/
def action? (language : Language) (state : StateId) (symbol : Symbol) : Option ParseAction :=
  if language.isTerminal symbol then
    match language.actions[state.toNat * language.tokenCount.toNat + symbol.toNat]? with
    | some (some .recover) => none
    | some action => action
    | none => none
  else none

/-- The state to go to behind a nonterminal. -/
def goto? (language : Language) (state : StateId) (symbol : Symbol) : Option StateId :=
  if symbol = errorSymbol || language.isTerminal symbol then none
  else
    let column := symbol.toNat - language.tokenCount.toNat
    language.gotos[state.toNat * language.nonterminalCount + column]?.join

/-- The production that a state reduces by whatever comes next. -/
def defaultReduction? (language : Language) (state : StateId) : Option (Symbol × UInt8) :=
  language.defaultReductions[state.toNat]?.join

/-- The error productions that may stand in a state, each with the state behind it. -/
def repairs (language : Language) (state : StateId) : List (Symbol × StateId) :=
  language.recoveryGotos[state.toNat]?.getD []

/-- Name and version on one line. -/
def describe (language : Language) : String :=
  "Language \x7b name: " ++ String.ofList (Text.quote language.name.toList) ++ ", version: " ++
    toString language.version ++ " \x7d"

end Language

end Reparse
