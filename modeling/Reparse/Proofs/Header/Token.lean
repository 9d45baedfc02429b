/-
Reparse/Proofs/Header/Token.lean

The tokens of the header grammar, up to what they depend on.

`leaf` is a token without parse state and lookahead.  The token of a state is
the leaf that its lex mode finds, or the fallback mode, or a single character
of skipped input.  Of the lengths that are found the token has the low 32 bits,
which in a text below four gigabytes are all.
-/
import Reparse.Proofs.Header.Slot
import Reparse.Proofs.Header.Table
import Reparse.Proofs.Lexeme.Cut
import Reparse.Proofs.Run.Bare

namespace Reparse

open Subtree

/-! ### The text ahead -/

namespace Text

/-- The text from a position on; there is none where the text cannot be cut. -/
def ahead (text : Text) (position : Nat) : Text :=
  (text.drop? position).getD []

@[simp] theorem drop?_zero (text : Text) : text.drop? 0 = some text := by
  cases text <;> rfl

@[simp] theorem ahead_zero (text : Text) : text.ahead 0 = text := by
  rw [ahead, drop?_zero, Option.getD_some]

theorem ahead_of_drop? {text rest : Text} {position : Nat} (h : text.drop? position = some rest) :
    text.ahead position = rest := by
  rw [ahead, h, Option.getD_some]

/-- Text that lies ahead goes up to the end. -/
theorem size_ahead {text : Text} {position : Nat} (h : text.ahead position ≠ []) :
    position + size (text.ahead position) = size text := by
  rcases e : text.drop? position with - | rest
  · exact absurd (by rw [ahead, e]; rfl) h
  · rw [ahead_of_drop? e]
    obtain ⟨before, rfl, rfl⟩ := drop?_eq_some_iff.mp e
    rw [size_append]

/-- There is no more text ahead than there is text. -/
theorem size_ahead_le (text : Text) (position : Nat) : size (text.ahead position) ≤ size text := by
  by_cases none : text.ahead position = []
  · rw [none]
    exact Nat.zero_le _
  · exact Nat.le_of_add_left_le (Nat.le_of_eq (size_ahead none))

theorem size_ahead_lt {text : Text} {bound : Nat} (small : text.size < bound) (position : Nat) :
    size (text.ahead position) < bound :=
  Nat.lt_of_le_of_lt (size_ahead_le text position) small

/-- What is behind a position is no longer than the text. -/
theorem size_lt_of_drop? {text rest : Text} {position bound : Nat} (small : text.size < bound)
    (h : text.drop? position = some rest) : size rest < bound :=
  ahead_of_drop? h ▸ size_ahead_lt small position

end Text

/-- What lies before a position does not matter for the token there. -/
theorem Language.lookahead_ahead (language : Language) (text : Text) (position : Nat)
    (state : StateId) :
    language.lookahead text position state =
      language.lookahead (text.ahead position) 0 state := by
  simp only [lookahead, lexeme?, Text.drop?_zero, Option.getD_some, Text.ahead]
  rcases text.drop? position with - | rest <;> rfl

theorem Language.lookahead_at {language : Language} {text rest : Text} {position : Nat}
    (h : text.drop? position = some rest) (state : StateId) :
    language.lookahead text position state = language.lookahead rest 0 state := by
  rw [lookahead_ahead, Text.ahead_of_drop? h]

/-- The token of a state depends on its lex mode only. -/
theorem Language.lookahead_congr {language : Language} {s t : StateId}
    (h : language.lexMode s = language.lexMode t) (text : Text) (position : Nat) :
    (language.lookahead text position s).bare = (language.lookahead text position t).bare := by
  simp only [lookahead, h, Lookahead.bare]
  split
  · simp
  · split <;> simp

namespace Header

open Scan (found?)

/-- A token of the header grammar, up to what it depends on. -/
def leaf (symbol : Symbol) (padding size : Nat) : Subtree :=
  Subtree.token language symbol padding size 0 0

@[simp] theorem leaf_symbol (symbol : Symbol) (padding size : Nat) :
    (leaf symbol padding size).symbol = symbol := rfl

@[simp] theorem leaf_totalSize (symbol : Symbol) (padding size : Nat) :
    (leaf symbol padding size).totalSize = padding + size := rfl

@[simp] theorem leaf_children (symbol : Symbol) (padding size : Nat) :
    (leaf symbol padding size).children = [] := rfl

@[simp] theorem leaf_bare (symbol : Symbol) (padding size : Nat) :
    (leaf symbol padding size).bare = leaf symbol padding size := by
  simp [leaf]

theorem fallback_mode : language.lexMode errorState = 0 := by decide

section Found

variable {text : Text} {state : StateId} {symbol : Symbol} {padding size : Nat}

/-- The token of a state is the one that its lex mode finds, with 32 bits for each length. -/
theorem lookahead_low_of_found?
    (h : found? language { state := language.lexMode state } text =
      some (symbol, padding, size)) :
    (language.lookahead text 0 state).token.bare =
      leaf symbol (Span.lowBits padding) (Span.lowBits size) := by
  obtain ⟨lookahead, e⟩ := Scan.lexeme?_of_found? h
  simp [Language.lookahead, Language.lexeme?, e, leaf]

/-- Where the lex mode finds nothing the fallback mode counts. -/
theorem lookahead_low_of_fallback
    (none : found? language { state := language.lexMode state } text = none)
    (h : found? language { state := 0 } text = some (symbol, padding, size)) :
    (language.lookahead text 0 state).token.bare =
      leaf symbol (Span.lowBits padding) (Span.lowBits size) := by
  obtain ⟨lookahead, e⟩ := Scan.lexeme?_of_found? h
  have other : ¬ 0 = language.lexMode state := fun eq => by rw [← eq, h] at none; cases none
  simp [Language.lookahead, Language.lexeme?, Scan.found?_eq_none_iff.mp none, fallback_mode,
    other, e, leaf]

/-- In a text below four gigabytes the token is just what is found. -/
theorem lookahead_of_found? (small : Text.size text < UInt32.size)
    (h : found? language { state := language.lexMode state } text =
      some (symbol, padding, size)) :
    (language.lookahead text 0 state).token.bare = leaf symbol padding size := by
  obtain ⟨front, width⟩ := Scan.lowBits_of_found? small h
  rw [lookahead_low_of_found? h, front, width]

theorem lookahead_of_fallback (small : Text.size text < UInt32.size)
    (none : found? language { state := language.lexMode state } text = none)
    (h : found? language { state := 0 } text = some (symbol, padding, size)) :
    (language.lookahead text 0 state).token.bare = leaf symbol padding size := by
  obtain ⟨front, width⟩ := Scan.lowBits_of_found? small h
  rw [lookahead_low_of_fallback none h, front, width]

end Found

/-- Where neither mode finds anything a character is skipped. -/
theorem lookahead_of_nothing {c : Char} {more : Text} {state : StateId}
    (none : found? language { state := language.lexMode state } (c :: more) = none)
    (h : found? language { state := 0 } (c :: more) = Option.none) :
    (language.lookahead (c :: more) 0 state).token.bare = leaf errorSymbol 0 c.utf8Size := by
  have e := Scan.found?_eq_none_iff.mp h
  simp [Language.lookahead, Language.lexeme?, Scan.found?_eq_none_iff.mp none, fallback_mode, e,
    leaf, Text.drop?]

/-! ### All tokens -/

theorem mode_mem (state : StateId) : language.lexMode state ∈ modes := by
  have size : language.lexModes.size = 17 := by decide
  have all : ∀ i : Fin 17, language.lexMode (UInt16.ofNat i) ∈ modes := by decide
  rcases Nat.lt_or_ge state.toNat 17 with inside | outside
  · simpa using all ⟨_, inside⟩
  · rw [Language.lexMode, Array.getElem?_eq_none (by omega)]
    decide

/-- **What a token can be**: one that the lex mode finds, or else one of the
fallback mode, or else a skipped character. -/
theorem lookahead_cases {text : Text} (small : Text.size text < UInt32.size) (state : StateId) :
    (∃ symbol padding size, (language.lookahead text 0 state).token.bare = leaf symbol padding size ∧
        symbol ∈ finds (language.lexMode state) ∧ (symbol = endSymbol ∨ 0 < size)) ∨
      (found? language { state := language.lexMode state } text = none ∧
        ((∃ symbol padding size,
            (language.lookahead text 0 state).token.bare = leaf symbol padding size ∧
            found? language { state := 0 } text = some (symbol, padding, size) ∧
            symbol ∈ finds 0 ∧ (symbol = endSymbol ∨ 0 < size)) ∨
          found? language { state := 0 } text = none ∧ ∃ c more, text = c :: more ∧
            (language.lookahead text 0 state).token.bare = leaf errorSymbol 0 c.utf8Size)) := by
  rcases own : found? language { state := language.lexMode state } text with - | ⟨s, p, n⟩
  · refine .inr ⟨rfl, ?_⟩
    rcases other : found? language { state := 0 } text with - | ⟨s, p, n⟩
    · cases text with
      | nil => exact absurd other (by decide)
      | cons c more => exact .inr ⟨rfl, c, more, rfl, lookahead_of_nothing own other⟩
    · exact .inl ⟨s, p, n, lookahead_of_fallback small own other, rfl,
        found?_mem_finds (by decide) other⟩
  · exact .inl ⟨s, p, n, lookahead_of_found? small own, found?_mem_finds (mode_mem state) own⟩

/-- Only the end of the text is an empty token. -/
theorem lookahead_pos {text : Text} (small : text.size < UInt32.size) {position : Nat}
    {state : StateId} (h : (language.lookahead text position state).token.symbol ≠ endSymbol) :
    0 < (language.lookahead text position state).token.totalSize := by
  rw [Language.lookahead_ahead] at h ⊢
  rw [← bare_symbol] at h
  rw [← bare_totalSize]
  rcases lookahead_cases (Text.size_ahead_lt small position) state with ⟨s, p, n, e, -, pos⟩ |
    ⟨-, ⟨s, p, n, e, -, -, pos⟩ | ⟨-, c, more, -, e⟩⟩
  · rw [e] at h ⊢
    have := pos.resolve_left h
    simp only [leaf_totalSize]
    omega
  · rw [e] at h ⊢
    have := pos.resolve_left h
    simp only [leaf_totalSize]
    omega
  · rw [e, leaf_totalSize]
    have := c.utf8Size_pos
    omega

/-- A slot never reads skipped input. -/
theorem lookahead_ne_error (text : Text) (position : Nat) {state : StateId} (slot : Slot)
    (mode : language.lexMode state = language.lexMode slot.state) :
    (language.lookahead text position state).token.symbol ≠ errorSymbol := by
  have key (rest : Text) : (language.lookahead rest 0 slot.state).token.symbol ≠ errorSymbol := by
    rw [← bare_symbol]
    by_cases fit : ∃ padding size more, slot.Takes rest padding size more
    · obtain ⟨padding, size, more, fit⟩ := fit
      rw [lookahead_low_of_found? (Slot.found?_of_takes fit), leaf_symbol]
      cases slot <;> decide
    · rcases Slot.found?_of_misfit fit with ⟨-, padding, size, found⟩ |
        ⟨-, more, padding, size, -, found⟩ | ⟨-, none, padding, ⟨found, -⟩ | found⟩
      · rw [lookahead_low_of_found? found, leaf_symbol]
        cases slot <;> decide
      · rw [lookahead_low_of_found? found, leaf_symbol]
        decide
      · rw [lookahead_low_of_fallback none found, leaf_symbol]
        decide
      · rw [lookahead_low_of_fallback none found, leaf_symbol]
        decide
  have same := congrArg (fun la => la.token.symbol)
    (Language.lookahead_congr mode text position)
  simp only [Lookahead.bare_token, bare_symbol] at same
  rw [same, Language.lookahead_ahead]
  exact key _

/-- A token lies in the text ahead. -/
theorem lookahead_le_ahead (text : Text) (position : Nat) (state : StateId) :
    (language.lookahead text position state).token.totalSize ≤ Text.size (text.ahead position) := by
  rw [Language.lookahead_ahead]
  generalize text.ahead position = rest
  have read := language.tokenAt_lookahead rest 0 state
  generalize (language.lookahead rest 0 state).token = token at read ⊢
  cases read with
  | lexeme _ found =>
    have within := Language.lexeme?_within (Nat.zero_le _) found
    rw [totalSize_token]
    omega
  | character here =>
    obtain rfl := Option.some.inj ((Text.drop?_zero rest).symm.trans here)
    rw [totalSize_token, Text.size_cons]
    omega
  | stop => exact Nat.zero_le _

/-- A token lies inside of the text. -/
theorem lookahead_le {text : Text} {position : Nat} (state : StateId)
    (h : position ≤ text.size) :
    position + (language.lookahead text position state).token.totalSize ≤ text.size := by
  have le := lookahead_le_ahead text position state
  by_cases more : text.ahead position = []
  · rw [more, Text.size_nil] at le
    omega
  · have := Text.size_ahead more
    omega

/-- Only in front of the end of the text there is a token other than the end. -/
theorem lookahead_inside {text : Text} (small : text.size < UInt32.size) {position : Nat}
    {state : StateId} (more : (language.lookahead text position state).token.symbol ≠ endSymbol) :
    position < text.size := by
  have pos := lookahead_pos small more
  have le := lookahead_le_ahead text position state
  have := @Text.size_ahead text position fun none => by
    rw [none, Text.size_nil] at le
    omega
  omega

end Header

end Reparse
