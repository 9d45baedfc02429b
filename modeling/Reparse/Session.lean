/-
Reparse/Session.lean

Editing sessions: a parser, a text, and the tree that goes with it.

The tree follows the changes of the text until it is parsed again.  A text and
its tree can be put aside and taken up later.
-/
import Reparse.Parser

namespace Reparse

/-- The state of a session. -/
structure Session where
  parser : Parser := {}
  text : Text := []
  tree : Option Tree := none
  saved : List (String × Text × Tree) := []
  /-- How many languages were loaded. -/
  loads : Nat := 0

namespace Session

/-- Load a language and go on with it.  It differs from all loaded before. -/
def load (session : Session) (table : Table) : Except LanguageError (Language × Session) :=
  (table.load session.loads).map fun language =>
    (language,
      { session with
        parser := session.parser.setLanguage language, loads := session.loads + 1 })

/-- Begin with another text, which has no tree yet. -/
def openText (session : Session) (text : Text) : Session :=
  { session with text, tree := none }

/-- Parse the text with what can be reused of the tree. -/
def reparse? (session : Session) : Option (Tree × Session) :=
  (session.parser.parse? session.text session.tree).map fun (tree, parser) =>
    (tree, { session with tree := some tree, parser })

/-- Let the tree follow a change that the text does not show. -/
def edit (session : Session) (tree : Tree) (edit : TextEdit) : Tree × Session :=
  let tree := tree.edit edit
  (tree, { session with tree := some tree })

/-- Replace a part of the text and let the tree follow. -/
def replace? (session : Session) (tree : Tree) (start stop : Nat) (new : Text) :
    Option (Tree × Session) :=
  (session.text.replace? start stop new).map fun text =>
    { session with text }.edit tree (.replace start stop new)

/-- Put the text and its tree aside. -/
def save (session : Session) (slot : String) (tree : Tree) : Session :=
  { session with saved := (slot, session.text, tree) :: session.saved }

/-- Take up a text and its tree. -/
def restore? (session : Session) (slot : String) : Option (Tree × Session) :=
  (session.saved.lookup slot).map fun (text, tree) =>
    (tree, { session with text, tree := some tree })

end Session

end Reparse
