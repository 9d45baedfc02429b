/-
Reparse/Grammar/Word.lean

The smallest useful grammar: the one rule `word := "a"`, with white space
allowed around it.
-/
import Reparse.Grammar

namespace Reparse.Word

abbrev letter : Symbol := 1
abbrev word : Symbol := 2

/-- The one-letter grammar. -/
def grammar : Grammar where
  name := "word"
  tokenCount := 2
  symbols :=
    [⟨"end", .named⟩, ⟨"a", .visible⟩, ⟨"word", .union .visible .named⟩]
  lexStates :=
    [{ atEnd := some (.advance 1)
       transitions := [⟨.one 'a', .advance 2⟩, ⟨.of [' ', '\t', '\n'], .skip 0⟩] },
     { accept := some endSymbol },
     { accept := some letter }]
  parseStates :=
    [{ lexState := 0, actions := [(endSymbol, .recover)] },
     { lexState := 0, actions := [(letter, .shift 2)], gotos := [(word, 3)] },
     { lexState := 0, actions := [(endSymbol, .reduce word 1)] },
     { lexState := 0, actions := [(endSymbol, .accept)] }]

end Reparse.Word
