/-
Reparse/Table/Malformed.lean

Tables that must not load, one for each way in which a table can be wrong.
-/
import Reparse.Grammar.Header
import Reparse.Table

namespace Reparse.Table

/-- The table of the header grammar. -/
def header : Table := encode Header.grammar

/-- The header grammar with a goto to a state that it does not have. -/
def unresolvedGoto : Grammar :=
  { Header.grammar with
    parseStates := Header.grammar.parseStates.modify 1 fun state =>
      { state with gotos := state.gotos ++ [(Header.document, 99)] } }

/-- Tables that must not load, by name. -/
def malformed : List (String × Table) :=
  [("empty", ⟨[]⟩),
   ("header only", ⟨header.bytes.take 8⟩),
   ("truncated header", ⟨header.bytes.take 5⟩),
   ("truncated payload", ⟨header.bytes.take (header.bytes.length / 2)⟩),
   ("trailing bytes", ⟨header.bytes ++ [0]⟩),
   ("wrong magic", ⟨header.bytes.set 0 0x58⟩),
   ("future version", encodeAt Header.grammar 99),
   ("unresolved goto", encode unresolvedGoto)]

end Reparse.Table
