/-
Reparse/Proofs/Lexeme/Local.lean

Where the bytes that a token depends on are seen again, the token is found
again.

A token records how far the lexer has looked to find it.  So it is settled by
the bytes from where it was looked for up to there, as long as the text goes on
behind them: any other text with these bytes has the same token at their place,
also if they are the last ones there.  This is so below four gigabytes, for a
token does not record more (`Vast.lexeme?_of_window?_vast`).
-/
import Reparse.Proofs.Bytes
import Reparse.Proofs.Header.Automaton
import Reparse.Proofs.Lexeme.Cut
import Reparse.Proofs.Lexeme.Vast

namespace Reparse

/-- How many bytes a token depends on, from where it was looked for. -/
def Lexeme.needed (lexeme : Lexeme) : Nat :=
  lexeme.padding + lexeme.size + lexeme.lookahead

namespace Language

variable {language : Language} {text other : Text} {position place : Nat} {mode : LexStateId}
  {lexeme : Lexeme}

/-- **A token depends on the bytes that it says it depends on.**  Take a token with more text
behind them, and less than four gigabytes in all.  At any place of another text where the same bytes
are seen, be there more text behind them or not, the lexer finds the same token in the same lex
state. -/
theorem lexeme?_of_window? (cut : text.Cut position) (there : other.Cut place)
    (small : text.size < position + UInt32.size)
    (found : language.lexeme? text position mode = some lexeme)
    (inside : position + lexeme.needed < text.size)
    (same : other.window? place lexeme.needed = text.window? position lexeme.needed) :
    language.lexeme? other place mode = some lexeme := by
  obtain ⟨rest, here⟩ := Option.isSome_iff_exists.mp cut
  obtain ⟨rest', here'⟩ := Option.isSome_iff_exists.mp there
  have measured := (measures_of_lexeme? here small found).examined
  rw [Scan.lexeme?_of_drop? here] at found
  rw [Scan.lexeme?_of_drop? here']
  rw [Text.window?_of_drop? here, Text.window?_of_drop? here'] at same
  obtain ⟨before, rfl, rfl⟩ := Text.drop?_eq_some_iff.mp here
  rw [Text.size_append] at inside small
  -- what was examined is a front of the text, as long as the token says
  obtain ⟨examined, more, rfl, size, -⟩ := Scan.follow_local language rest { state := mode } rfl
  rw [measured, Nat.zero_add] at size
  have width : examined.size = lexeme.needed := size.symm
  rw [← width, Text.window?_front] at same
  obtain ⟨more', rfl⟩ := Text.eq_append_of_window? same
  exact Scan.lexeme?_local (Nat.lt_of_add_lt_add_left small) found
    (Nat.lt_of_add_lt_add_left inside) (Nat.le_of_eq size) more'

end Language

namespace Header

/-- The first letter of the literal, behind a newline.  To find that it stands alone the lexer has
looked at three more characters, which are the last ones of the other text. -/
theorem lexeme?_of_window?_letter :
    Text.size "[\nDOCX]".toList < 1 + UInt32.size ∧
    language.lexeme? "[\nDOCX]".toList 1 3 = some ⟨documentLiteralErrorToken, 1, 1, 3⟩ ∧
    Text.window? "é\nDOCX".toList 2 5 = Text.window? "[\nDOCX]".toList 1 5 ∧
    Text.size "é\nDOCX".toList = 2 + 5 ∧
    language.lexeme? "é\nDOCX".toList 2 3 = some ⟨documentLiteralErrorToken, 1, 1, 3⟩ := by
  have small : Text.size "[\nDOCX]".toList < 1 + UInt32.size := by decide
  have found : language.lexeme? "[\nDOCX]".toList 1 3 =
      some ⟨documentLiteralErrorToken, 1, 1, 3⟩ := by
    decide +kernel
  have same : Text.window? "é\nDOCX".toList 2 5 = Text.window? "[\nDOCX]".toList 1 5 := by
    decide +kernel
  have cut : Text.Cut "[\nDOCX]".toList 1 := by
    show (Text.drop? "[\nDOCX]".toList 1).isSome
    decide
  have there : Text.Cut "é\nDOCX".toList 2 := by
    show (Text.drop? "é\nDOCX".toList 2).isSome
    decide
  refine ⟨small, found, same, by decide, ?_⟩
  exact Language.lexeme?_of_window? cut there small found (by decide) same

end Header

namespace Vast

/-- The first five bytes show the letter and a wide one, if there is any. -/
theorem window?_text (count : Nat) :
    Text.window? (text (count + 1)) 0 5 = Text.window? ['a', wide] 0 5 :=
  @Text.window?_append_left ['a', wide] 0 5 (List.replicate count wide) (by decide)

/-- **In a text of four gigabytes a token may depend on more** than it says.  A word of five bytes
more says that it ends behind its first wide letter and depends on nothing behind that.  A text of
two wide letters begins with the same five bytes, and is a word of nine. -/
theorem lexeme?_of_window?_vast :
    (Table.encode grammar).load 0 = .ok language ∧
    language.lexeme? (text 1073741825) 0 0 = some ⟨word, 0, 5, 0⟩ ∧
    (text 1073741825).size = 4294967301 ∧ (text 2).size = 9 ∧
    Text.window? (text 2) 0 5 = Text.window? (text 1073741825) 0 5 ∧
    language.lexeme? (text 2) 0 0 = some ⟨word, 0, 9, 0⟩ :=
  ⟨load_grammar, lexeme?_text 1073741825, size_text 1073741825, size_text 2,
    (window?_text 1).trans (window?_text 1073741824).symm, lexeme?_text 2⟩

end Vast

end Reparse
