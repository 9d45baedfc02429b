/-
Reparse/Document.lean

Documents with a header.

The header grammar wants a NUL character behind the text.  It is put there
before parsing, and the first error in the tree is reported.
-/
import Reparse.Grammar.Header
import Reparse.Parser
import Reparse.Tree.Outline
import Reparse.Tree.Walk

namespace Reparse

/-- The character behind the text of a document. -/
def terminator : Char := '\x00'

/-- The language of document headers. -/
def Header.language : Language := Header.grammar.toLanguage currentVersion 0

/-! ### Documents -/

/-- A text with its terminator, and the tree of it. -/
structure Document where
  text : Text
  tree : Tree

namespace Document

/-- The text without the terminator. -/
def source (document : Document) : Text :=
  if document.text.getLast? = some terminator then document.text.dropLast else document.text

/-- All that is seen of the tree, with the texts of the leaves. -/
def dump (document : Document) : Text :=
  document.tree.dump document.text

end Document

/-! ### Errors -/

/-- The first error production below a node, or else the first skipped or
missing one. -/
def Node.firstError? (root : Node) : Option Node :=
  if root.hasError then
    (root.descendants.find? (·.isRecovery)).or
      (root.descendants.find? fun node => node.isError || node.isMissing)
  else none

/-- Where a document is wrong. -/
structure DocumentError where
  /-- The kind of the node where the first error was found. -/
  kind : String
  span : Span
  /-- The document as far as it could be parsed. -/
  document : Document

namespace DocumentError

def message (error : DocumentError) : String :=
  s!"syntax error: {error.kind} at {error.span}"

/-- The error as a message about a place. -/
def located (error : DocumentError) : Located :=
  ⟨s!"unexpected {error.kind}", error.span⟩

end DocumentError

/-- Why an edit does not give a valid document. -/
inductive EditError where
  /-- There is no such range; the document stays as it was. -/
  | invalidRange (start stop : Nat) (document : Document)
  | malformed (error : DocumentError)

namespace EditError

def message : EditError → String
  | .invalidRange start stop _ => s!"invalid edit {start}..{stop}"
  | .malformed error => error.message

/-- The document behind the edit. -/
def document : EditError → Document
  | .invalidRange _ _ document => document
  | .malformed error => error.document

end EditError

/-! ### Parsing -/

/-- A parser of documents, and how many subtrees its last parse has reused. -/
structure DocumentParser where
  config : Config := {}
  reused : Nat := 0

namespace DocumentParser

/-- Parse a text that has its terminator. -/
def parseText (parser : DocumentParser) (text : Text) (old : Option Tree) :
    Except DocumentError Document × DocumentParser :=
  let (tree, reused) := Header.language.parse parser.config text old
  let document : Document := ⟨text, tree⟩
  let result :=
    match tree.rootNode.firstError? with
    | none => .ok document
    | some node => .error ⟨node.kind, node.span, document⟩
  (result, { parser with reused })

/-- The document of a text. -/
def parse (parser : DocumentParser) (input : Text) :
    Except DocumentError Document × DocumentParser :=
  parser.parseText (input ++ [terminator]) none

/-- Replace a range of the source and parse again, with what the edit left
alone reused. -/
def edit (parser : DocumentParser) (document : Document) (start stop : Nat) (new : Text) :
    Except EditError Document × DocumentParser :=
  match document.source.slice? start stop, document.text.replace? start stop new with
  | some _, some text =>
    let tree := document.tree.edit (.replace start stop new)
    let (result, parser) := parser.parseText text (some tree)
    (result.mapError .malformed, parser)
  | _, _ => (.error (.invalidRange start stop document), parser)

end DocumentParser

end Reparse
