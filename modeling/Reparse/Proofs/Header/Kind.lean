/-
Reparse/Proofs/Header/Kind.lean

Which error is reported for a document.

`headerFault` reads a text from the front and names the first place that is
wrong.  With at least one recovery, that is the kind of the reported error.
-/
import Reparse.Proofs.Header.Accepts

namespace Reparse.Header

open Subtree

/-- The kind of the first place of a header that is wrong, or else the text
behind the header. -/
def headerFault : Text → Except String Text
  | '\n' :: _ => .error "left_bracket_error"
  | '[' :: rest =>
    let word := (rest.dropWhile (· = '\n')).dropWhile isBlank
    if literal.isPrefixOf word then
      match word.drop literal.length with
      | ']' :: '\n' :: '\n' :: rest => .ok rest
      | ']' :: _ => .error "newline_character_error"
      | _ => .error "right_bracket_error"
    else .error "document_literal_error"
  | _ => .error "document_error"

/-- The name of a symbol of the header grammar. -/
def name (symbol : Symbol) : String :=
  (language.kind? symbol).getD ""

variable {text rest : Text} {stack : Stack}

/-! ### Reading a header from the front -/

/-- Line breaks and blanks end where the word begins. -/
theorem dropWhile_word {breaks blanks word : Text} (hb : ∀ c ∈ breaks, c = '\n')
    (hs : ∀ c ∈ blanks, isBlank c = true)
    (hw : word = [] ∨ ∃ c more, word = c :: more ∧ isBlank c = false)
    (solid : blanks = [] → word = [] ∨ ∃ c more, word = c :: more ∧ c ≠ '\n') :
    ((breaks ++ (blanks ++ word)).dropWhile (· = '\n')).dropWhile isBlank = word := by
  have line : blanks ++ word = [] ∨
      ∃ c more, blanks ++ word = c :: more ∧ decide (c = '\n') = false := by
    cases blanks with
    | nil =>
      rcases solid rfl with rfl | ⟨c, more, rfl, hc⟩
      · exact .inl rfl
      · exact .inr ⟨c, more, rfl, decide_eq_false hc⟩
    | cons c blanks =>
      refine .inr ⟨c, _, rfl, decide_eq_false ?_⟩
      rintro rfl
      exact absurd (hs '\n' (by simp)) (by decide)
  rw [(dropWhile_run (p := fun c => decide (c = '\n')) (by simpa using hb) _ line).1,
    (dropWhile_run hs _ hw).1]

theorem headerFault_word {breaks blanks : Text} (hb : ∀ c ∈ breaks, c = '\n')
    (hs : ∀ c ∈ blanks, isBlank c = true) (rest : Text) :
    headerFault ('[' :: (breaks ++ blanks ++ literal ++ rest)) =
      match rest with
      | ']' :: '\n' :: '\n' :: rest => .ok rest
      | ']' :: _ => .error "newline_character_error"
      | _ => .error "right_bracket_error" := by
  have word : ((breaks ++ blanks ++ literal ++ rest).dropWhile (· = '\n')).dropWhile isBlank =
      literal ++ rest := by
    rw [List.append_assoc, List.append_assoc]
    exact dropWhile_word hb hs (.inr ⟨'D', _, rfl, by decide⟩)
      fun _ => .inr ⟨'D', _, rfl, by decide⟩
  have front : literal.isPrefixOf (literal ++ rest) = true :=
    List.isPrefixOf_iff_prefix.mpr (List.prefix_append ..)
  rw [headerFault]
  simp only [word, front, if_true, List.drop_left]
  rfl

/-- A whole header has no fault. -/
theorem ReadUpTo.headerFault (h : ReadUpTo text none stack rest) :
    Header.headerFault text = .ok rest := by
  obtain ⟨breaks, blanks, hb, hs, rfl⟩ := h.textUpTo
  rw [List.append_assoc, headerFault_word hb hs]
  rfl

section Word

variable {breaks blanks : Text} (hb : ∀ c ∈ breaks, c = '\n')
  (hs : ∀ c ∈ blanks, isBlank c = true)
include hb hs

end Word

end Reparse.Header
