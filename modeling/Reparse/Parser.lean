/-
Reparse/Parser.lean

Parsing a text with a language, and again after the text has changed.
-/
import Reparse.Config
import Reparse.Language.Load
import Reparse.Run.Step
import Reparse.Tree

namespace Reparse

/-- The subtrees that a parse may reuse: those of a tree of the same language,
unless the settings forbid it. -/
def Config.reusableRoot? (config : Config) (language : Language) (old : Option Tree) :
    Option Subtree :=
  if config.incremental then (old.filter fun tree => tree.language = language).map (·.root)
  else none

/-- The tree of a text and how many subtrees of the old tree are in it.  The
old tree has to have followed all changes of the text. -/
def Language.parse (language : Language) (config : Config) (text : Text) (old : Option Tree) :
    Tree × Nat :=
  let setting : Setting :=
    { language, text
      maxRecoveries := config.maxRecoveries.toNat
      old := config.reusableRoot? language old }
  let (root, reused) := setting.parse
  (⟨root, language⟩, reused)

/-- A parser: its settings, the language it has been given, and how many
subtrees its last parse has reused. -/
structure Parser where
  config : Config := {}
  language : Option Language := none
  reused : Nat := 0

namespace Parser

def setLanguage (parser : Parser) (language : Language) : Parser :=
  { parser with language := some language }

/-- The tree of a text; there is none without a language. -/
def parse? (parser : Parser) (text : Text) (old : Option Tree) : Option (Tree × Parser) :=
  parser.language.map fun language =>
    let (tree, reused) := language.parse parser.config text old
    (tree, { parser with reused })

end Parser

end Reparse
