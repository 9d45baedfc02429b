/-
Reparse/Grammar/Header.lean

The grammar of a document header:

    top_node  := DOCUMENT EOF
    DOCUMENT  := _document | document_error
    _document := "[" "DOCUMENT" "]" "\n" "\n" trailing_end_error?

where EOF is a NUL character behind the text.  Every position of the header
has an error production, so that a malformed text still gets a tree.
-/
import Reparse.Grammar

namespace Reparse.Header

/-! ### Symbols -/

abbrev documentErrorToken : Symbol := 1
abbrev trailingEndError : Symbol := 2
abbrev eof : Symbol := 3
abbrev documentLiteral : Symbol := 4
abbrev documentLiteralErrorToken : Symbol := 5
abbrev leftBracket : Symbol := 6
abbrev leftBracketError : Symbol := 7
abbrev rightBracket : Symbol := 8
abbrev newlineCharacter : Symbol := 9
abbrev topNode : Symbol := 10
abbrev document : Symbol := 11
abbrev documentInner : Symbol := 12
abbrev documentError : Symbol := 13
abbrev documentLiteralInner : Symbol := 14
abbrev documentLiteralError : Symbol := 15
abbrev leftBracketInner : Symbol := 16
abbrev rightBracketInner : Symbol := 17
abbrev rightBracketError : Symbol := 18
abbrev newlineCharacterInner : Symbol := 19
abbrev newlineCharacterError : Symbol := 20

/-- A symbol that is not seen although it has a name. -/
def hiddenNamed : SymbolFlags := .named

/-- A symbol that is seen. -/
def seen : SymbolFlags := .union .visible .named

/-- An error production. -/
def repair : SymbolFlags := .union seen .recovery

/-- The symbol table; the first ten symbols are terminals. -/
def symbols : List SymbolInfo :=
  [⟨"end", hiddenNamed⟩,
   ⟨"document_error_token1", .hidden⟩,
   ⟨"trailing_end_error", repair⟩,
   ⟨"EOF", seen⟩,
   ⟨"document_literal", seen⟩,
   ⟨"document_literal_error_token1", .hidden⟩,
   ⟨"left_bracket", seen⟩,
   ⟨"left_bracket_error", repair⟩,
   ⟨"right_bracket", seen⟩,
   ⟨"newline_character", seen⟩,
   ⟨"top_node", seen⟩,
   ⟨"DOCUMENT", seen⟩,
   ⟨"_document", hiddenNamed⟩,
   ⟨"document_error", repair⟩,
   ⟨"_document_literal", hiddenNamed⟩,
   ⟨"document_literal_error", repair⟩,
   ⟨"_left_bracket", hiddenNamed⟩,
   ⟨"_right_bracket", hiddenNamed⟩,
   ⟨"right_bracket_error", repair⟩,
   ⟨"_newline_character", hiddenNamed⟩,
   ⟨"newline_character_error", repair⟩]

/-! ### Lexer -/

def whitespace : CharSet := (CharSet.range '\t' '\r').withChar ' '

/-- White space other than the newline. -/
def blank : CharSet := ((CharSet.one '\t').withRange '\x0b' '\r').withChar ' '

def notNul : CharSet := (CharSet.one '\x00').complement

/-- Neither NUL nor in the block of white space controls. -/
def plain : CharSet := ((CharSet.one '\x00').withRange '\t' '\r').complement

/-- A state that goes on with a single character only. -/
def letter (c : Char) (next : LexStateId) : LexState :=
  { transitions := [⟨.one c, .advance next⟩] }

def lexStates : List LexState :=
  [ -- 0: the fallback mode, also for states that expect `EOF` or `end`
    { atEnd := some (.advance 15)
      transitions :=
        [⟨.one '\x00', .advance 18⟩, ⟨.one 'D', .advance 11⟩, ⟨.one '[', .advance 24⟩,
         ⟨.one ']', .advance 27⟩, ⟨whitespace, .skip 14⟩] },
    -- 1: after the two newlines
    { transitions :=
        [⟨.one '\x00', .advance 18⟩, ⟨.of ['\n', ' '], .advance 17⟩,
         ⟨.range '\t' '\r', .skip 1⟩] },
    -- 2: at the start
    { transitions :=
        [⟨.one '\n', .advance 26⟩, ⟨.one '[', .advance 24⟩, ⟨whitespace, .advance 16⟩,
         ⟨notNul, .advance 16⟩] },
    -- 3: after the left bracket
    { transitions :=
        [⟨.one '\n', .skip 3⟩, ⟨.one 'D', .advance 22⟩, ⟨whitespace, .advance 21⟩,
         ⟨notNul, .advance 20⟩] },
    -- 4: after the literal
    { transitions :=
        [⟨.one '\n', .skip 5⟩, ⟨.one ']', .advance 27⟩, ⟨whitespace, .advance 23⟩,
         ⟨notNul, .advance 20⟩] },
    -- 5: after the literal and a newline
    { transitions :=
        [⟨.one '\n', .skip 5⟩, ⟨whitespace, .advance 23⟩, ⟨notNul, .advance 20⟩] },
    -- 6: where a newline is expected
    { transitions := [⟨.one '\n', .advance 28⟩, ⟨notNul, .advance 16⟩] },
    -- 7 to 13: inside the literal
    letter 'C' 13,
    letter 'E' 10,
    letter 'M' 8,
    letter 'N' 12,
    letter 'O' 7,
    letter 'T' 19,
    letter 'U' 9,
    -- 14: the fallback mode after white space
    { atEnd := some (.advance 15)
      transitions :=
        [⟨.one '\x00', .advance 18⟩, ⟨.one 'D', .advance 11⟩, ⟨whitespace, .skip 14⟩] },
    -- 15 to 20
    { accept := some endSymbol },
    { accept := some documentErrorToken },
    { accept := some trailingEndError
      transitions := [⟨.of ['\n', ' '], .advance 17⟩] },
    { accept := some eof },
    { accept := some documentLiteral },
    { accept := some documentLiteralErrorToken },
    -- 21: white space before the literal
    { accept := some documentLiteralErrorToken
      transitions := [⟨.one 'D', .advance 22⟩, ⟨blank, .advance 21⟩, ⟨plain, .advance 20⟩] },
    -- 22: the first letter of the literal
    { accept := some documentLiteralErrorToken
      transitions := [⟨.one 'O', .advance 7⟩] },
    -- 23: white space behind the literal
    { accept := some documentLiteralErrorToken
      transitions := [⟨blank, .advance 23⟩, ⟨plain, .advance 20⟩] },
    -- 24, 25
    { accept := some leftBracket },
    { accept := some leftBracketError },
    -- 26: white space at the start
    { accept := some leftBracketError
      transitions :=
        [⟨whitespace, .advance 26⟩, ⟨(CharSet.of ['\x00', '[']).complement, .advance 25⟩] },
    -- 27, 28
    { accept := some rightBracket },
    { accept := some newlineCharacter }]

/-! ### Parser -/

def parseStates : List ParseState :=
  [ -- 0: the error state
    { lexState := 0
      actions :=
        [(endSymbol, .recover), (eof, .recover), (documentLiteral, .recover),
         (leftBracket, .recover), (rightBracket, .recover)] },
    -- 1: the start
    { lexState := 2
      actions :=
        [(documentErrorToken, .shift 11), (leftBracket, .shift 2), (leftBracketError, .shift 2)]
      gotos :=
        [(topNode, 12), (document, 13), (documentInner, 14), (documentError, 14),
         (leftBracketInner, 2)] },
    -- 2: after the left bracket
    { lexState := 3
      actions := [(documentLiteral, .shift 3), (documentLiteralErrorToken, .shift 6)]
      gotos := [(documentLiteralInner, 3), (documentLiteralError, 3)] },
    -- 3: after the literal
    { lexState := 4
      actions := [(documentLiteralErrorToken, .shift 7), (rightBracket, .shift 4)]
      gotos := [(rightBracketInner, 4), (rightBracketError, 4)] },
    -- 4: after the right bracket
    { lexState := 6
      actions := [(documentErrorToken, .shift 8), (newlineCharacter, .shift 5)]
      gotos := [(newlineCharacterInner, 5), (newlineCharacterError, 5)] },
    -- 5: after the first newline
    { lexState := 6
      actions := [(documentErrorToken, .shift 10), (newlineCharacter, .shift 9)]
      gotos := [(newlineCharacterInner, 9), (newlineCharacterError, 9)] },
    -- 6 to 8: error productions with a token
    { lexState := 4
      actions :=
        [(documentLiteralErrorToken, .reduce documentLiteralError 1),
         (rightBracket, .reduce documentLiteralError 1)] },
    { lexState := 6
      actions :=
        [(documentErrorToken, .reduce rightBracketError 1),
         (newlineCharacter, .reduce rightBracketError 1)] },
    { lexState := 6
      actions :=
        [(documentErrorToken, .reduce newlineCharacterError 1),
         (newlineCharacter, .reduce newlineCharacterError 1)] },
    -- 9: after the second newline
    { lexState := 1
      actions := [(trailingEndError, .shift 16), (eof, .reduce documentInner 5)] },
    -- 10, 11: error productions with a token
    { lexState := 1
      actions :=
        [(trailingEndError, .reduce newlineCharacterError 1),
         (eof, .reduce newlineCharacterError 1)] },
    { lexState := 0, actions := [(eof, .reduce documentError 1)] },
    -- 12: the whole text
    { lexState := 0, actions := [(endSymbol, .accept)] },
    -- 13 to 16
    { lexState := 0, actions := [(eof, .shift 15)] },
    { lexState := 0, actions := [(eof, .reduce document 1)] },
    { lexState := 0, actions := [(endSymbol, .reduce topNode 2)] },
    { lexState := 0, actions := [(eof, .reduce documentInner 6)] }]

/-- The header grammar. -/
def grammar : Grammar where
  name := "strictdoc"
  tokenCount := 10
  symbols := symbols
  lexStates := lexStates
  parseStates := parseStates

end Reparse.Header
