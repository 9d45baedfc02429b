/-
Reparse/Proofs/Lexeme/Vast.lean

A token of more than four gigabytes.

A grammar has one token only, a letter with any number of wide letters behind
it.  A scan measures it to its end, however many there are (`follow_wide`), but
of its size the token has 32 bits (`lexeme?_text`): one of five bytes more than
four gigabytes has the size of the letter with one wide letter.
-/
import Reparse.Language.Load
import Reparse.Proofs.Lexeme.Scan

namespace Reparse.Vast

abbrev word : Symbol := 1
abbrev root : Symbol := 2

/-- A letter of four bytes. -/
abbrev wide : Char := '𝐱'

/-- A grammar of a single word, a letter with wide letters behind it. -/
def grammar : Grammar where
  name := "vast"
  tokenCount := 2
  symbols :=
    [⟨"end", .named⟩, ⟨"word", .union .visible .named⟩, ⟨"root", .union .visible .named⟩]
  lexStates :=
    [{ atEnd := some (.advance 1), transitions := [⟨.one 'a', .advance 2⟩] },
     { accept := some endSymbol },
     { accept := some word, transitions := [⟨.one wide, .advance 2⟩] }]
  parseStates :=
    [{ lexState := 0 },
     { lexState := 0, actions := [(word, .shift 2)], gotos := [(root, 3)] },
     { lexState := 0, actions := [(endSymbol, .reduce root 1)] },
     { lexState := 0, actions := [(endSymbol, .accept)] }]

def language : Language := grammar.toLanguage currentVersion 0

theorem load_grammar : (Table.encode grammar).load 0 = .ok language := rfl

/-- The word with so many wide letters. -/
def text (count : Nat) : Text :=
  'a' :: List.replicate count wide

theorem size_replicate (count : Nat) : Text.size (List.replicate count wide) = 4 * count := by
  induction count with
  | zero => rfl
  | succ count ih =>
    rw [List.replicate_succ, Text.size_cons, ih, show wide.utf8Size = 4 from rfl]
    omega

theorem size_text (count : Nat) : (text count).size = 1 + 4 * count := by
  rw [text, Text.size_cons, size_replicate]
  rfl

/-! ### What is found -/

theorem step?_letter : (language.lexState 0).step? 'a' = some (.advance 2) := rfl

theorem step?_wide : (language.lexState 2).step? wide = some (.advance 2) := rfl

/-- A scan takes wide letters up to the end. -/
theorem follow_wide (count cursor : Nat) (accepted : Option (Symbol × Nat)) :
    Scan.follow language ⟨2, cursor, 0, cursor, accepted⟩ (List.replicate count wide) =
      ⟨2, cursor + 4 * count, 0, cursor + 4 * count, some (word, cursor + 4 * count)⟩ := by
  induction count generalizing cursor accepted with
  | zero =>
    have last : (language.lexState 2).atEnd = none := rfl
    rw [List.replicate_zero, Scan.follow_end last]
    rfl
  | succ count ih =>
    have taken : (Scan.peek language ⟨2, cursor, 0, cursor, accepted⟩ wide).take wide.utf8Size
        (.advance 2) = ⟨2, cursor + 4, 0, cursor + 4, some (word, cursor)⟩ := by
      show (⟨2, cursor + 4, 0, max cursor (cursor + 4), some (word, cursor)⟩ : Scan) = _
      rw [Nat.max_eq_right (Nat.le_add_right cursor 4)]
    rw [List.replicate_succ, Scan.follow_step step?_wide, taken, ih,
      show cursor + 4 + 4 * count = cursor + 4 * (count + 1) by omega]

/-- **The token has the low bits** of what there is. -/
theorem lexeme?_text (count : Nat) :
    language.lexeme? (text count) 0 0 = some ⟨word, 0, Span.lowBits (1 + 4 * count), 0⟩ := by
  have scanned : Scan.follow language { state := 0 } (text count) =
      ⟨2, 1 + 4 * count, 0, 1 + 4 * count, some (word, 1 + 4 * count)⟩ := by
    rw [text, Scan.follow_step step?_letter]
    exact follow_wide count 1 none
  have here : (text count).drop? 0 = some (text count) := rfl
  rw [Scan.lexeme?_of_drop? here, scanned]
  simp [Scan.lexeme?, Span.lowBits]

end Reparse.Vast
