/-
Reparse/Proofs/Word.lean

The language of the one-letter grammar.
-/
import Reparse.Grammar.Word
import Reparse.Language.Load

namespace Reparse.Word

/-- The language of one letter. -/
def language : Language := grammar.toLanguage currentVersion 0

set_option maxRecDepth 4096 in
/-- The table of the grammar can be loaded. -/
theorem load_encode : (Table.encode grammar).load 0 = .ok language := rfl

end Reparse.Word
