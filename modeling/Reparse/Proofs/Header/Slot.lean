/-
Reparse/Proofs/Header/Slot.lean

The five places of a header.

A header is a bracket, a word, a bracket and two newlines.  Each place is a
`Slot` with the parse state before it and the one behind, the token that fits,
and what stands in for it if the text does not fit.  `Takes` says what text a
slot takes; `found?_of_takes` shows that the lexer takes just that, and
`found?_of_misfit` what it finds instead.
-/
import Reparse.Proofs.Header.Lexing

namespace Reparse.Header

open Scan (found? settle noted)

inductive Slot where
  | opening
  | word
  | closing
  | newline
  | lastNewline
deriving DecidableEq

namespace Slot

/-- The state before a slot. -/
def state : Slot → StateId
  | opening => 1
  | word => 2
  | closing => 3
  | newline => 4
  | lastNewline => 5

/-- The state behind a slot. -/
def target : Slot → StateId
  | opening => 2
  | word => 3
  | closing => 4
  | newline => 5
  | lastNewline => 9

/-- The slot behind a slot. -/
def next? : Slot → Option Slot
  | opening => some word
  | word => some closing
  | closing => some newline
  | newline => some lastNewline
  | lastNewline => none

/-- The token of a slot. -/
def symbol : Slot → Symbol
  | opening => leftBracket
  | word => documentLiteral
  | closing => rightBracket
  | newline | lastNewline => newlineCharacter

/-- The token that a slot has for text that does not fit. -/
def wrong : Slot → Symbol
  | word | closing => documentLiteralErrorToken
  | opening | newline | lastNewline => documentErrorToken

/-- The state behind the wrong token. -/
def pending : Slot → StateId
  | opening => 11
  | word => 6
  | closing => 7
  | newline => 8
  | lastNewline => 10

/-- The error production of a slot. -/
def repair : Slot → Symbol
  | opening => documentError
  | word => documentLiteralError
  | closing => rightBracketError
  | newline | lastNewline => newlineCharacterError

/-- What a slot takes of a text: padding, size, and the text left. -/
inductive Takes : Slot → Text → Nat → Nat → Text → Prop
  | opening {rest : Text} : Takes opening ('[' :: rest) 0 1 rest
  | word {breaks blanks rest : Text} (hb : ∀ c ∈ breaks, c = '\n')
      (hs : ∀ c ∈ blanks, isBlank c = true) :
      Takes word (breaks ++ blanks ++ literal ++ rest) (Text.size breaks) (Text.size blanks + 8) rest
  | closing {rest : Text} : Takes closing (']' :: rest) 0 1 rest
  | newline {rest : Text} : Takes newline ('\n' :: rest) 0 1 rest
  | lastNewline {rest : Text} : Takes lastNewline ('\n' :: rest) 0 1 rest

/-- A slot takes the front of a text. -/
theorem Takes.split {slot : Slot} {text rest : Text} {padding size : Nat}
    (h : slot.Takes text padding size rest) :
    ∃ taken, text = taken ++ rest ∧ Text.size taken = padding + size ∧ 0 < size ∧
      '\x00' ∉ taken := by
  cases h with
  | @word breaks blanks _ hb hs =>
    refine ⟨breaks ++ blanks ++ literal, by simp, ?_, by omega, ?_⟩
    · simp only [Text.size_append, show Text.size literal = 8 from rfl]
      omega
    · simp only [List.mem_append, not_or]
      exact ⟨⟨fun m => absurd (hb _ m) (by decide), fun m => absurd (hs _ m) (by decide)⟩,
        by decide⟩
  | opening => exact ⟨['['], rfl, rfl, by omega, by decide⟩
  | closing => exact ⟨[']'], rfl, rfl, by omega, by decide⟩
  | newline => exact ⟨['\n'], rfl, rfl, by omega, by decide⟩
  | lastNewline => exact ⟨['\n'], rfl, rfl, by omega, by decide⟩

/-! ### The word -/

/-- Behind its padding the lexer reads blanks and the word, or a wrong token. -/
theorem found?_blanks {blanks word : Text} (hs : ∀ c ∈ blanks, isBlank c = true)
    (hw : word = [] ∨ ∃ c more, word = c :: more ∧ isBlank c = false)
    (cursor tokenStart examined : Nat) (accepted : Option (Symbol × Nat)) :
    (∃ rest, word = literal ++ rest ∧
      found? language ⟨21, cursor, tokenStart, examined, accepted⟩ (blanks ++ word) =
        some (documentLiteral, tokenStart, cursor + Text.size blanks + 8 - tokenStart)) ∨
      ((¬ ∃ rest, word = literal ++ rest) ∧ ∃ size,
        found? language ⟨21, cursor, tokenStart, examined, accepted⟩ (blanks ++ word) =
          some (documentLiteralErrorToken, tokenStart, size)) := by
  -- blanks in front of the word are part of the token: state 21 takes them in and stays
  induction blanks generalizing cursor examined accepted with
  | nil =>
    rcases hw with rfl | ⟨c, more, rfl, hc⟩
    · exact .inr ⟨by simp [literal], _, Scan.found?_end rfl⟩
    · have step := step?_21 c
      rw [hc] at step
      rw [List.nil_append]
      by_cases d : c = 'D'
      · subst d
        rw [Scan.found?_advance step]
        rcases found?_literal (.inr rfl) (cursor + 1) tokenStart 0
          (noted language 21 cursor accepted) more with
          ⟨rest, e, found⟩ | ⟨other, found⟩
        · refine .inl ⟨rest, e, found.trans ?_⟩
          simp only [Text.size_nil, Nat.add_zero]
        · exact .inr ⟨other, _, found⟩
      · have other : ¬ ∃ rest, c :: more = literal ++ rest :=
          fun ⟨rest, h⟩ => d (List.cons.inj h).1
        refine .inr ⟨other, ?_⟩
        by_cases stops : c = '\x00' ∨ c = '\n'
        · exact ⟨_, Scan.found?_stop (by simpa [d, stops] using step) more⟩
        · rw [if_neg d, if_neg (by simp), if_neg stops] at step
          rw [Scan.found?_advance step]
          exact ⟨_, Scan.found?_final rfl more⟩
  | cons c blanks ih =>
    have hc := hs c (by simp)
    have step : (language.lexState 21).step? c = some (.advance 21) := by
      have : c ≠ 'D' := by
        rintro rfl
        exact absurd hc (by decide)
      rw [step?_21, if_neg this, if_pos hc]
    rw [List.cons_append, Scan.found?_advance step]
    rcases ih (fun d hd => hs d (by simp [hd])) (cursor + c.utf8Size) 0
      (noted language 21 cursor accepted) with ⟨rest, e, found⟩ | other
    · refine .inl ⟨rest, e, found.trans ?_⟩
      simp only [Text.size_cons, Nat.add_assoc]
    · exact .inr other

/-- The word is looked for behind all blanks. -/
theorem exists_literal_iff {blanks word : Text} (hs : ∀ c ∈ blanks, isBlank c = true)
    (hw : word = [] ∨ ∃ c more, word = c :: more ∧ isBlank c = false) :
    (∃ others rest, blanks ++ word = others ++ literal ++ rest ∧ ∀ c ∈ others, isBlank c = true) ↔
      ∃ rest, word = literal ++ rest := by
  constructor
  · rintro ⟨others, rest, e, ho⟩
    have left := dropWhile_run hs word hw
    have right := dropWhile_run ho (literal ++ rest) (.inr ⟨'D', _, rfl, by decide⟩)
    rw [← List.append_assoc, ← e] at right
    exact ⟨rest, left.1.symm.trans right.1⟩
  · rintro ⟨rest, rfl⟩
    exact ⟨blanks, rest, (List.append_assoc ..).symm, hs⟩

/-- What the mode of the word finds. -/
theorem found?_word {breaks line : Text} (hb : ∀ c ∈ breaks, c = '\n')
    (hl : line = [] ∨ ∃ c more, line = c :: more ∧ c ≠ '\n') :
    ((line = [] ∨ ∃ more, line = '\x00' :: more) ∧
        found? language { state := 3 } (breaks ++ line) = none) ∨
      (∃ blanks rest, line = blanks ++ literal ++ rest ∧ (∀ c ∈ blanks, isBlank c = true) ∧
        found? language { state := 3 } (breaks ++ line) =
          some (documentLiteral, Text.size breaks, Text.size blanks + 8)) ∨
      ((¬ ∃ blanks rest, line = blanks ++ literal ++ rest ∧ ∀ c ∈ blanks, isBlank c = true) ∧
        ∃ size, found? language { state := 3 } (breaks ++ line) =
          some (documentLiteralErrorToken, Text.size breaks, size)) := by
  rw [Scan.found?_skips (p := fun c => c = '\n') breaks
    (fun c h => by subst h; exact step?_3 _) hb]
  simp only [Nat.zero_add]
  rcases hl with rfl | ⟨c, more, rfl, hc⟩
  · exact .inl ⟨.inl rfl, Scan.found?_end rfl⟩
  have step := step?_3 c
  rw [if_neg hc] at step
  by_cases blank : isBlank c = true
  · have d : c ≠ 'D' := by
      rintro rfl
      exact absurd blank (by decide)
    rw [if_neg d, if_pos blank] at step
    rw [Scan.found?_advance step]
    obtain ⟨blanks, word, rfl, hs, hw⟩ := exists_run isBlank more
    have hs' : ∀ b ∈ c :: blanks, isBlank b = true := by simpa [blank] using hs
    rcases found?_blanks hs hw (Text.size breaks + c.utf8Size) (Text.size breaks) 0
      (noted language 3 (Text.size breaks) none) with ⟨rest, rfl, found⟩ | ⟨other, size, found⟩
    · refine .inr (.inl ⟨c :: blanks, rest, by simp, hs', found.trans ?_⟩)
      rw [show Text.size breaks + c.utf8Size + Text.size blanks + 8 - Text.size breaks =
        Text.size (c :: blanks) + 8 by simp only [Text.size_cons]; omega]
    · exact .inr (.inr ⟨fun word => other ((exists_literal_iff hs' hw).mp word), size, found⟩)
  -- without a blank in front the word is at the start or nowhere
  have front := @exists_literal_iff [] (c :: more) (by simp)
    (.inr ⟨c, more, rfl, Bool.eq_false_iff.mpr blank⟩)
  rw [List.nil_append] at front
  by_cases d : c = 'D'
  · subst d
    rw [if_pos rfl] at step
    rw [Scan.found?_advance step]
    rcases found?_literal (.inr rfl) (Text.size breaks + 1) (Text.size breaks) 0
      (noted language 3 (Text.size breaks) none) more with ⟨rest, e, found⟩ | ⟨other, found⟩
    · refine .inr (.inl ⟨[], rest, e, by simp, found.trans ?_⟩)
      rw [show Text.size breaks + 1 + 7 - Text.size breaks = 8 by omega]
      rfl
    · exact .inr (.inr ⟨fun word => other (front.mp word), _, found⟩)
  rw [if_neg d, if_neg blank] at step
  by_cases nul : c = '\x00'
  · subst nul
    exact .inl ⟨.inr ⟨more, rfl⟩, Scan.found?_stop step more⟩
  · rw [if_neg nul] at step
    rw [Scan.found?_advance step]
    refine .inr (.inr ⟨fun word => ?_, _, Scan.found?_final rfl more⟩)
    obtain ⟨rest, e⟩ := front.mp word
    exact d (List.cons.inj e).1

/-- **A slot reads what it takes.** -/
theorem found?_of_takes {slot : Slot} {text rest : Text} {padding size : Nat}
    (h : slot.Takes text padding size rest) :
    found? language { state := language.lexMode slot.state } text =
      some (slot.symbol, padding, size) := by
  -- a bracket or a newline is one step, and its state has no other
  have single {mode target : LexStateId} {c : Char} {symbol : Symbol}
      (step : (language.lexState mode).step? c = some (.advance target))
      (last : language.lexState target = { accept := some symbol }) (rest : Text) :
      found? language { state := mode } (c :: rest) = some (symbol, 0, 0 + c.utf8Size - 0) :=
    (Scan.found?_advance step rest).trans (Scan.found?_final last rest)
  cases h with
  | opening => exact single (step?_2 '[') rfl rest
  | closing => exact single (step?_4 ']') rfl rest
  | newline => exact single (step?_6 '\n') rfl rest
  | lastNewline => exact single (step?_6 '\n') rfl rest
  | @word breaks blanks rest hb hs =>
    have hl : ∃ c more, blanks ++ literal ++ rest = c :: more ∧ c ≠ '\n' := by
      cases blanks with
      | nil => exact ⟨'D', _, rfl, by decide⟩
      | cons c blanks =>
        refine ⟨c, _, rfl, ?_⟩
        rintro rfl
        exact absurd (hs '\n' (by simp)) (by decide)
    rcases found?_word hb (.inr hl) with
      ⟨ends, -⟩ | ⟨others, more, e, ho, found⟩ | ⟨other, -⟩
    · cases blanks with
      | nil => rcases ends with ends | ⟨more, ends⟩ <;> simp [literal] at ends
      | cons c blanks =>
        rcases ends with ends | ⟨more, ends⟩
        · simp at ends
        · have := hs c (by simp)
          rw [(List.cons.inj ends).1] at this
          exact absurd this (by decide)
    · have left := dropWhile_run hs (literal ++ rest) (.inr ⟨'D', _, rfl, by decide⟩)
      have right := dropWhile_run ho (literal ++ more) (.inr ⟨'D', _, rfl, by decide⟩)
      rw [← List.append_assoc, ← e, List.append_assoc] at right
      obtain rfl : blanks = others := left.2.symm.trans right.2
      rw [List.append_assoc breaks, List.append_assoc breaks]
      exact found
    · exact absurd ⟨blanks, rest, rfl, hs⟩ other

/-! ### Text that does not fit -/

/-- At the end of the text or a NUL character the fallback mode finds just that. -/
theorem found?_ends (breaks : Text) {rest : Text} (hb : ∀ c ∈ breaks, c = '\n')
    (hr : rest = [] ∨ ∃ more, rest = '\x00' :: more) :
    ∃ padding, found? language { state := 0 } (breaks ++ rest) = some (endSymbol, padding, 0) ∧
        '\x00' ∉ breaks ++ rest ∨
      found? language { state := 0 } (breaks ++ rest) = some (eof, padding, 1) := by
  have spaces : ∀ c ∈ breaks, isSpace c = true := fun c hc => by rw [hb c hc]; rfl
  have none : '\x00' ∉ breaks := fun m => absurd (hb _ m) (by decide)
  rcases hr with rfl | ⟨more, rfl⟩
  · rcases found?_fallback spaces (.inl rfl) with ⟨-, found⟩ | ⟨_, e, -⟩ | ⟨_, e, -⟩ |
      ⟨-, _, _, _, e, -⟩ | ⟨_, _, e, -⟩
    · exact ⟨_, .inl ⟨found, by simpa using none⟩⟩
    all_goals cases e
  · rcases found?_fallback spaces (.inr ⟨'\x00', more, rfl, by decide⟩) with ⟨e, -⟩ | ⟨_, -, found⟩ |
      ⟨_, e, -⟩ | ⟨-, _, _, _, e, h, -⟩ | ⟨_, _, e, h, -⟩
    · cases e
    · exact ⟨_, .inr found⟩
    · exact absurd (List.cons.inj e).1 (by decide)
    · rcases h with ⟨rfl, -⟩ | ⟨rfl, -⟩ <;> exact absurd (List.cons.inj e).1 (by decide)
    · exact absurd (List.cons.inj e).1.symm h

/-- A scan in a state that can only become another wrong token has one. -/
theorem found?_wrong {states : List LexStateId} {symbol : Symbol}
    (closed : ∀ state ∈ states, (language.lexState state).accept = some symbol ∧
      (language.lexState state).atEnd = none ∧
      ∀ step ∈ (language.lexState state).transitions.map (·.step),
        step = .advance step.target ∧ step.target ∈ states)
    {state : LexStateId} (hs : state ∈ states) (cursor tokenStart examined : Nat)
    (accepted : Option (Symbol × Nat)) (text : Text) :
    ∃ size, found? language ⟨state, cursor, tokenStart, examined, accepted⟩ text =
      some (symbol, tokenStart, size) := by
  have accept {state : LexStateId} {other : Symbol} (h : state ∈ states)
      (e : (language.lexState state).accept = some other) : other = symbol :=
    Option.some.inj (e.symm.trans (closed state h).1)
  obtain ⟨_, size, rfl, found⟩ := Scan.found?_isSome
    (I := (· ∈ states)) (G := (· = symbol))
    (fun h e => ⟨_, (closed _ h).2.2 _ (LexState.mem_of_step? e)⟩)
    (fun h => (closed _ h).2.1) accept cursor tokenStart examined accepted hs
    ⟨symbol, cursor, by rw [noted, (closed _ hs).1], rfl⟩ text
  exact ⟨size, found⟩

theorem wrong_literal : ∀ state ∈ ([20, 23] : List LexStateId),
    (language.lexState state).accept = some documentLiteralErrorToken ∧
      (language.lexState state).atEnd = none ∧
      ∀ step ∈ (language.lexState state).transitions.map (·.step),
        step = .advance step.target ∧ step.target ∈ ([20, 23] : List LexStateId) := by
  decide

theorem wrong_bracket : ∀ state ∈ ([25, 26] : List LexStateId),
    (language.lexState state).accept = some leftBracketError ∧
      (language.lexState state).atEnd = none ∧
      ∀ step ∈ (language.lexState state).transitions.map (·.step),
        step = .advance step.target ∧ step.target ∈ ([25, 26] : List LexStateId) := by
  decide

/-- In front of anything but a closing bracket or a newline the lexer finds a wrong token,
or stops at a NUL character. -/
theorem found?_unclosed {state : LexStateId} {c : Char}
    (step : (language.lexState state).step? c =
      if isBlank c then some (.advance 23) else if c = '\x00' then none else some (.advance 20))
    (plain : (language.lexState state).accept = none) (cursor : Nat) (more : Text) :
    (∃ size, found? language ⟨state, cursor, cursor, 0, none⟩ (c :: more) =
        some (documentLiteralErrorToken, cursor, size)) ∨
      (c = '\x00' ∧ found? language ⟨state, cursor, cursor, 0, none⟩ (c :: more) = none) := by
  by_cases blank : isBlank c = true
  · rw [if_pos blank] at step
    rw [Scan.found?_advance step]
    exact .inl (found?_wrong wrong_literal (by simp) _ _ _ _ more)
  rw [if_neg blank] at step
  by_cases nul : c = '\x00'
  · rw [if_pos nul] at step
    rw [Scan.found?_stop step, noted, plain]
    exact .inr ⟨nul, rfl⟩
  · rw [if_neg nul] at step
    rw [Scan.found?_advance step]
    exact .inl (found?_wrong wrong_literal (by simp) _ _ _ _ more)

/-- What the mode of the closing bracket finds without one. -/
theorem found?_closing (text : Text) (h : ∀ more, text ≠ ']' :: more) :
    (∃ padding size, found? language { state := 4 } text =
        some (documentLiteralErrorToken, padding, size)) ∨
      (found? language { state := 4 } text = none ∧
        ∃ breaks rest, text = breaks ++ rest ∧ (∀ c ∈ breaks, c = '\n') ∧
          (rest = [] ∨ ∃ more, rest = '\x00' :: more)) := by
  obtain ⟨breaks, rest, rfl, hb, hr⟩ := exists_run (fun c => decide (c = '\n')) text
  replace hb : ∀ c ∈ breaks, c = '\n' := by simpa using hb
  cases breaks with
  | nil =>
    rcases hr with rfl | ⟨c, more, rfl, hc⟩
    · exact .inr ⟨Scan.found?_end rfl, [], [], rfl, by simp, .inl rfl⟩
    · have bracket : c ≠ ']' := fun e => h more (by rw [e]; rfl)
      have step := step?_4 c
      rw [if_neg (by simpa using hc), if_neg bracket] at step
      rcases found?_unclosed step rfl 0 more with found | ⟨rfl, found⟩
      · exact .inl ⟨_, found⟩
      · exact .inr ⟨found, [], _, rfl, by simp, .inr ⟨more, rfl⟩⟩
  | cons b breaks =>
    obtain rfl := hb b (by simp)
    have skips : found? language { state := 4 } ('\n' :: breaks ++ rest) =
        found? language ⟨5, Text.size ('\n' :: breaks), Text.size ('\n' :: breaks), 0, none⟩ rest := by
      rw [List.cons_append, Scan.found?_skip (step?_4 _), Scan.found?_skips (p := fun c => c = '\n')
        breaks (fun c h => by subst h; exact step?_5 _) fun c hc => hb c (by simp [hc])]
      simp
    rw [skips]
    rcases hr with rfl | ⟨c, more, rfl, hc⟩
    · exact .inr ⟨Scan.found?_end rfl, _, [], rfl, hb, .inl rfl⟩
    · have step := step?_5 c
      rw [if_neg (by simpa using hc)] at step
      rcases found?_unclosed step rfl (Text.size ('\n' :: breaks)) more with found | ⟨rfl, found⟩
      · exact .inl ⟨_, found⟩
      · exact .inr ⟨found, _, _, rfl, hb, .inr ⟨more, rfl⟩⟩

/-- What the mode of a newline finds without one. -/
theorem found?_newline (text : Text) (h : ∀ more, text ≠ '\n' :: more) :
    (∃ padding size, found? language { state := 6 } text =
        some (documentErrorToken, padding, size)) ∨
      (found? language { state := 6 } text = none ∧
        (text = [] ∨ ∃ more, text = '\x00' :: more)) := by
  cases text with
  | nil => exact .inr ⟨Scan.found?_end rfl, .inl rfl⟩
  | cons c more =>
    have step := step?_6 c
    rw [if_neg fun e => h more (by rw [e])] at step
    by_cases nul : c = '\x00'
    · subst nul
      exact .inr ⟨Scan.found?_stop step more, .inr ⟨more, rfl⟩⟩
    · rw [if_neg nul] at step
      rw [Scan.found?_advance step]
      exact .inl ⟨_, _, Scan.found?_final rfl more⟩

/-- What is read in place of an opening bracket: a newline gives an error production of its own,
and anything else but the end the wrong token. -/
theorem found?_opening (text : Text) (h : ∀ more, text ≠ '[' :: more) :
    ((∀ more, text ≠ '\n' :: more) ∧
      ∃ padding size, found? language { state := 2 } text = some (Slot.opening.wrong, padding, size)) ∨
    (∃ more padding size, text = '\n' :: more ∧
      found? language { state := 2 } text = some (leftBracketError, padding, size)) ∨
    ((∀ more, text ≠ '\n' :: more) ∧ found? language { state := 2 } text = none ∧
      (text = [] ∨ ∃ more, text = '\x00' :: more)) := by
  cases text with
  | nil => exact .inr (.inr ⟨by simp, Scan.found?_end rfl, .inl rfl⟩)
  | cons c more =>
    have step := step?_2 c
    by_cases line : c = '\n'
    · subst line
      rw [if_pos rfl] at step
      have bracket : (26 : LexStateId) ∈ ([25, 26] : List LexStateId) := by simp
      obtain ⟨size, found⟩ := found?_wrong wrong_bracket bracket (0 + '\n'.utf8Size) 0 0
        (noted language 2 0 none) more
      exact .inr (.inl ⟨more, 0, size, rfl, (Scan.found?_advance step more).trans found⟩)
    · rw [if_neg line, if_neg fun e => h more (by rw [e])] at step
      have other : ∀ rest, c :: more ≠ '\n' :: rest := fun _ e => line (List.cons.inj e).1
      by_cases nul : c = '\x00'
      · subst nul
        exact .inr (.inr ⟨other, Scan.found?_stop step more, .inr ⟨more, rfl⟩⟩)
      · rw [if_neg nul] at step
        exact .inl ⟨other, 0, _,
          (Scan.found?_advance step more).trans (Scan.found?_final rfl more)⟩

/-- **What a slot reads where the text does not fit**: the wrong token, for the
first slot also an error production of its own, or nothing, and then the
fallback mode finds the end of the text. -/
theorem found?_of_misfit {slot : Slot} {text : Text}
    (h : ¬ ∃ padding size rest, slot.Takes text padding size rest) :
    ((slot = opening → ∀ more, text ≠ '\n' :: more) ∧
      ∃ padding size, found? language { state := language.lexMode slot.state } text =
        some (slot.wrong, padding, size)) ∨
      (slot = opening ∧ ∃ more padding size, text = '\n' :: more ∧
        found? language { state := language.lexMode slot.state } text =
          some (leftBracketError, padding, size)) ∨
      ((slot = opening → ∀ more, text ≠ '\n' :: more) ∧
        found? language { state := language.lexMode slot.state } text = none ∧
        ∃ padding, found? language { state := 0 } text = some (endSymbol, padding, 0) ∧
            '\x00' ∉ text ∨
          found? language { state := 0 } text = some (eof, padding, 1)) := by
  cases slot with
  | opening =>
    rcases found?_opening text (fun more e => h ⟨0, 1, more, by rw [e]; exact .opening⟩)
      with ⟨other, found⟩ | found | ⟨other, found, ends⟩
    · exact .inl ⟨fun _ => other, found⟩
    · exact .inr (.inl ⟨rfl, found⟩)
    · exact .inr (.inr ⟨fun _ => other, found, found?_ends [] (by simp) ends⟩)
  | word =>
    obtain ⟨breaks, line, rfl, hb, hl⟩ := exists_run (fun c => decide (c = '\n')) text
    replace hb : ∀ c ∈ breaks, c = '\n' := by simpa using hb
    replace hl : line = [] ∨ ∃ c more, line = c :: more ∧ c ≠ '\n' :=
      hl.imp id fun ⟨c, more, e, hc⟩ => ⟨c, more, e, of_decide_eq_false hc⟩
    rcases found?_word hb hl with ⟨ends, found⟩ | ⟨blanks, rest, rfl, hs, -⟩ | ⟨-, size, found⟩
    · exact .inr (.inr ⟨by simp, found, found?_ends _ hb ends⟩)
    · rw [← List.append_assoc, ← List.append_assoc] at h
      exact absurd ⟨_, _, rest, .word hb hs⟩ h
    · exact .inl ⟨by simp, _, size, found⟩
  | closing =>
    rcases found?_closing text (fun more e => h ⟨0, 1, more, by rw [e]; exact .closing⟩)
      with ⟨padding, size, found⟩ | ⟨found, breaks, rest, rfl, hb, ends⟩
    · exact .inl ⟨by simp, padding, size, found⟩
    · exact .inr (.inr ⟨by simp, found, found?_ends _ hb ends⟩)
  | newline =>
    rcases found?_newline text (fun more e => h ⟨0, 1, more, by rw [e]; exact .newline⟩)
      with ⟨padding, size, found⟩ | ⟨found, ends⟩
    · exact .inl ⟨by simp, padding, size, found⟩
    · exact .inr (.inr ⟨by simp, found, found?_ends [] (by simp) ends⟩)
  | lastNewline =>
    rcases found?_newline text
      (fun more e => h ⟨0, 1, more, by rw [e]; exact .lastNewline⟩)
      with ⟨padding, size, found⟩ | ⟨found, ends⟩
    · exact .inl ⟨by simp, padding, size, found⟩
    · exact .inr (.inr ⟨by simp, found, found?_ends [] (by simp) ends⟩)

end Slot

end Reparse.Header
