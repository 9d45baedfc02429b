/-
Reparse/Proofs/Document.lean

What a parse of a document says of its tree.

A result holds a document whether or not it is valid, and the complaint is that
of the tree.
-/
import Reparse.Proofs.Tree.Sight

namespace Reparse.DocumentParser

/-- The document of a result, valid or not. -/
def settled : Except DocumentError Document → Document
  | .ok document => document
  | .error error => error.document

/-- Kind and span of the error of a result. -/
def complaint? : Except DocumentError Document → Option (String × Span)
  | .ok _ => none
  | .error error => some (error.kind, error.span)

variable (parser : DocumentParser) (text : Text) (old : Option Tree)

@[simp] theorem settled_parseText :
    settled (parser.parseText text old).1 =
      ⟨text, (Header.language.parse parser.config text old).1⟩ := by
  simp only [parseText]
  rcases (Header.language.parse parser.config text old).1.rootNode.firstError? with - | node <;> rfl

@[simp] theorem complaint?_parseText :
    complaint? (parser.parseText text old).1 =
      (Header.language.parse parser.config text old).1.complaint? := by
  simp only [parseText, Tree.complaint?]
  rcases (Header.language.parse parser.config text old).1.rootNode.firstError? with - | node <;> rfl

theorem exists_ok_iff (result : Except DocumentError Document) :
    (∃ document, result = .ok document) ↔ complaint? result = none := by
  cases result <;> simp [complaint?]

end Reparse.DocumentParser
