/-
Reparse/Proofs/Header/Accepts.lean

The language of document headers.

A document is a header in brackets, two newlines, and tabs to the end.  A fresh
parse is without errors exactly for the documents, each with its terminator and
perhaps white space behind it.
-/
import Reparse.Proofs.Document
import Reparse.Proofs.Header.Close
import Reparse.Proofs.Header.Misfit

namespace Reparse.Header

open Subtree

/-! ### Well formed documents -/

/-- The texts of well formed documents. -/
def IsDocument (input : Text) : Prop :=
  ∃ breaks blanks tabs : Text,
    (∀ c ∈ breaks, c = '\n') ∧
    (∀ c ∈ blanks, c ∈ ['\t', '\x0b', '\x0c', '\r', ' ']) ∧
    (∀ c ∈ tabs, c ∈ ['\t', '\x0b', '\x0c', '\r']) ∧
    input = "[".toList ++ breaks ++ blanks ++ "DOCUMENT]\n\n".toList ++ tabs

/-- The texts of well formed documents with a terminator and white space behind. -/
def IsTerminated (text : Text) : Prop :=
  ∃ document spaces : Text,
    IsDocument document ∧
    (∀ c ∈ spaces, c ∈ ['\t', '\n', '\x0b', '\x0c', '\r', ' ']) ∧
    text = document ++ terminator :: spaces

theorem isTab_iff {c : Char} : isTab c = true ↔ c ∈ ['\t', '\x0b', '\x0c', '\r'] := by
  simp [isTab, or_assoc]

theorem isBlank_iff {c : Char} : isBlank c = true ↔ c ∈ ['\t', '\x0b', '\x0c', '\r', ' '] := by
  simp [isBlank, isTab, or_assoc]

theorem isSpace_iff {c : Char} :
    isSpace c = true ↔ c ∈ ['\t', '\n', '\x0b', '\x0c', '\r', ' '] := by
  simp [isSpace, isBlank, isTab]
  grind

/-- A terminator ends a document. -/
theorem isTerminated_append_iff {input : Text} :
    IsTerminated (input ++ [terminator]) ↔ IsDocument input := by
  constructor
  · rintro ⟨document, spaces, hd, hs, e⟩
    have front : terminator ∉ spaces := fun m => absurd (hs _ m) (by decide)
    rcases List.eq_nil_or_concat spaces with rfl | ⟨others, last, rfl⟩
    · exact (List.append_cancel_right e) ▸ hd
    · have ends := congrArg List.getLast? e
      simp only [List.getLast?_append, List.getLast?_cons] at ends
      simp at ends front
      exact absurd ends front.2
  · intro hd
    exact ⟨input, [], hd, by simp, rfl⟩

/-! ### Headers up to a slot -/

/-- What lies between the word of a header and a slot behind it. -/
def closed : Option Slot → Text
  | some .newline => "]".toList
  | some .lastNewline => "]\n".toList
  | none => "]\n\n".toList
  | _ => []

/-- What the text of a header looks like up to a slot or its end. -/
def TextUpTo : Option Slot → Text → Text → Prop
  | some .opening, text, rest => text = rest
  | some .word, text, rest => text = '[' :: rest
  | place, text, rest =>
    ∃ breaks blanks : Text, (∀ c ∈ breaks, c = '\n') ∧ (∀ c ∈ blanks, isBlank c = true) ∧
      text = '[' :: (breaks ++ blanks ++ literal ++ closed place ++ rest)

variable {text rest : Text} {stack : Stack}

theorem ReadUpTo.textUpTo {place : Option Slot} (h : ReadUpTo text place stack rest) :
    TextUpTo place text rest := by
  induction h with
  | start => rfl
  | @fill slot stack rest more padding size before takes ih =>
    cases takes with
    | opening => exact ih
    | word hb hs => exact ⟨_, _, hb, hs, by rw [show text = _ from ih]; simp [closed]⟩
    | closing =>
      obtain ⟨breaks, blanks, hb, hs, rfl⟩ := ih
      exact ⟨breaks, blanks, hb, hs, by simp [closed]⟩
    | newline =>
      obtain ⟨breaks, blanks, hb, hs, rfl⟩ := ih
      exact ⟨breaks, blanks, hb, hs, by simp [closed]⟩
    | lastNewline =>
      obtain ⟨breaks, blanks, hb, hs, rfl⟩ := ih
      exact ⟨breaks, blanks, hb, hs, by simp [closed, Slot.next?]⟩

/-- A text that begins with a whole header is read as one. -/
theorem exists_filled {breaks blanks : Text} (hb : ∀ c ∈ breaks, c = '\n')
    (hs : ∀ c ∈ blanks, isBlank c = true) (rest : Text) :
    ∃ stack, ReadUpTo ("[".toList ++ breaks ++ blanks ++ "DOCUMENT]\n\n".toList ++ rest) none stack
      rest := by
  have word : Slot.Takes .word (breaks ++ blanks ++ literal ++ ']' :: '\n' :: '\n' :: rest) _ _ _ :=
    .word hb hs
  have opened : ReadUpTo ('[' :: (breaks ++ blanks ++ literal ++ ']' :: '\n' :: '\n' :: rest))
      (some .opening) [] _ := .start
  have e : "[".toList ++ breaks ++ blanks ++ "DOCUMENT]\n\n".toList ++ rest =
      '[' :: (breaks ++ blanks ++ literal ++ ']' :: '\n' :: '\n' :: rest) := by
    simp [literal]
  rw [e]
  exact ⟨_, .fill (.fill (.fill (.fill (.fill opened .opening) word) .closing) .newline)
    .lastNewline⟩

/-! ### Fresh parses -/

variable {limit : Nat}

/-- A fresh parse of a text of less than 4 GiB ends by itself. -/
theorem exists_ends_parse (small : text.size < UInt32.size) (limit : Nat) :
    ∃ steps, Run.Ends (setting text limit none) (setting text limit none).parse.1 steps {} := by
  have orderly : Orderly text limit none {} := orderly_start small
  obtain ⟨root, ends⟩ := exists_ends orderly (text.size + 16) (Nat.le_add_right ..)
  have enough : text.size + 16 ≤ stepLimit := by
    simp only [stepLimit, UInt32.size] at small ⊢
    omega
  exact ⟨_, ends.parse enough ▸ ends⟩

theorem At.not_wrong {place : Option Slot} {run : Run} (h : At text run place stack rest) :
    run.wrong = false := by
  rw [← Run.wrong_bare, Run.wrong, h.bare]
  have plain : ∀ entry ∈ stack, entry.subtree.marks.hasError = false := by
    intro entry he
    obtain ⟨slot, padding, size, rfl⟩ := h.filled.plain entry he
    simp [marks_leaf, slot_symbol_plain slot]
  simpa [anyError, Stack.subtrees] using plain

/-- **The language of the header grammar.** -/
theorem hasError_parse (small : text.size < UInt32.size) (limit : Nat) :
    (setting text limit none).parse.1.marks.hasError = false ↔ IsTerminated text := by
  obtain ⟨steps, ends⟩ := exists_ends_parse small limit
  have behind {stack : Stack} {rest : Text} (filled : ReadUpTo text none stack rest) :
      (setting text limit none).parse.1.marks.hasError = false ↔
        ∃ tabs spaces, rest = tabs ++ '\x00' :: spaces ∧ (∀ c ∈ tabs, isTab c = true) ∧
          ∀ c ∈ spaces, isSpace c = true := by
    obtain ⟨run, reached, here⟩ := filled.steps small limit
    obtain ⟨fewer, ends⟩ := ends.of_steps reached
    have orderly := (orderly_start small).of_steps reached
    exact here.behind.hasError_ends ends orderly here.not_wrong here.fine
  constructor
  · intro fine
    rcases readUpTo_or_misfit text with ⟨stack, rest, filled⟩ | ⟨slot, stack, rest, filled, misfit⟩
    · obtain ⟨tabs, spaces, rfl, ht, hs⟩ := (behind filled).mp fine
      obtain ⟨breaks, blanks, hb, hk, rfl⟩ := filled.textUpTo
      exact ⟨_, spaces, ⟨breaks, blanks, tabs, hb, fun c m => isBlank_iff.mp (hk c m),
        fun c m => isTab_iff.mp (ht c m), rfl⟩, fun c m => isSpace_iff.mp (hs c m),
        by simp [literal, terminator, closed]⟩
    · rw [(misfit_ends small filled misfit ends).1] at fine
      cases fine
  · rintro ⟨_, spaces, ⟨breaks, blanks, tabs, hb, hk, ht, rfl⟩, hs, rfl⟩
    obtain ⟨stack, filled⟩ := exists_filled hb (fun c m => isBlank_iff.mpr (hk c m))
      (tabs ++ terminator :: spaces)
    rw [← List.append_assoc] at filled
    exact (behind filled).mpr ⟨tabs, spaces, rfl, fun c m => isTab_iff.mpr (ht c m),
      fun c m => isSpace_iff.mpr (hs c m)⟩

theorem parse_fresh (config : Config) (text : Text) :
    (language.parse config text none).1 =
      ⟨(setting text config.maxRecoveries.toNat none).parse.1, language⟩ := by
  simp [Language.parse, Config.reusableRoot?, setting]

theorem intact_parse (small : text.size < UInt32.size) (limit : Nat) :
    Throughout (Intact language) (setting text limit none).parse.1 :=
  let ⟨_, ends⟩ := exists_ends_parse small limit
  (orderly_start small).intact_ends ends

/-- **The texts without errors are those of well formed documents.**  A fresh
parse finds no error in just these, under all settings, and the document of an
input is valid just if the input is well formed. -/
theorem parse_accepts (parser : Parser) (documents : DocumentParser) (text input : Text)
    (small : text.size < UInt32.size) (short : Text.size (input ++ [terminator]) < UInt32.size) :
    (∃ tree next, (parser.setLanguage language).parse? text none = some (tree, next) ∧
      (tree.rootNode.hasError = false ↔ IsTerminated text)) ∧
    ((∃ document, (documents.parse input).1 = .ok document) ↔ IsDocument input) ∧
    (∀ document, (documents.parse input).1 = .ok document →
      document.tree.rootNode.hasError = false) ∧
    ∀ error, (documents.parse input).1 = .error error →
      error.document.tree.rootNode.hasError = true := by
  have tree := parse_fresh documents.config (input ++ [terminator])
  have root : (DocumentParser.complaint? (documents.parse input).1).isSome =
      (DocumentParser.settled (documents.parse input).1).tree.rootNode.hasError := by
    rw [DocumentParser.parse, DocumentParser.settled_parseText, DocumentParser.complaint?_parseText,
      tree]
    exact Tree.complaint?_isSome showsRepairs (intact_parse short _)
  refine ⟨⟨(language.parse parser.config text none).1, _, rfl, ?_⟩, ?_, fun document h => ?_,
    fun error h => ?_⟩
  · rw [parse_fresh]
    exact hasError_parse small parser.config.maxRecoveries.toNat
  · rw [DocumentParser.exists_ok_iff, ← Option.not_isSome_iff_eq_none, root, DocumentParser.parse,
      DocumentParser.settled_parseText, tree, ← isTerminated_append_iff,
      ← hasError_parse short documents.config.maxRecoveries.toNat, Bool.not_eq_true]
    rfl
  · rw [h] at root
    exact root.symm
  · rw [h] at root
    exact root.symm

/-- The shortest document. -/
theorem parse_accepts_shortest :
    Text.size "[DOCUMENT]\n\n\x00".toList < UInt32.size ∧
      ∃ document, (({} : DocumentParser).parse "[DOCUMENT]\n\n".toList).1 = .ok document :=
  ⟨by decide, (parse_accepts {} {} "[DOCUMENT]\n\n\x00".toList "[DOCUMENT]\n\n".toList
    (by decide) (by decide)).2.1.mpr ⟨[], [], [], by simp, by simp, by simp, rfl⟩⟩

end Reparse.Header
