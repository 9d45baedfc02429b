/-
Reparse/Proofs/Header/Lexing.lean

What the lexer finds in a header and behind it.

A well formed header is read in five `Slot`s, one token each.  Here are the
words it spells, and what the lexer finds behind the header.  There it works in
two modes, which agree up to the first newline or blank: `found?_tail` and
`found?_fallback`.
-/
import Reparse.Proofs.Header.Automaton

namespace Reparse.Header

open Scan (found? settle noted)

/-! ### Runs of characters -/

/-- A text splits where the characters of a kind end. -/
theorem exists_run (p : Char → Bool) (text : Text) :
    ∃ run rest, text = run ++ rest ∧ (∀ c ∈ run, p c = true) ∧
      (rest = [] ∨ ∃ c more, rest = c :: more ∧ p c = false) := by
  induction text with
  | nil => exact ⟨[], [], rfl, by simp, .inl rfl⟩
  | cons c text ih =>
    rcases e : p c with - | -
    · exact ⟨[], c :: text, rfl, by simp, .inr ⟨c, text, rfl, e⟩⟩
    · obtain ⟨run, rest, rfl, hr, hs⟩ := ih
      exact ⟨c :: run, rest, rfl, by simpa [e] using hr, hs⟩

theorem dropWhile_run {p : Char → Bool} {run : Text} (hr : ∀ c ∈ run, p c = true) (rest : Text)
    (hs : rest = [] ∨ ∃ c more, rest = c :: more ∧ p c = false) :
    (run ++ rest).dropWhile p = rest ∧ (run ++ rest).takeWhile p = run := by
  induction run with
  | nil =>
    rcases hs with rfl | ⟨c, more, rfl, hc⟩
    · simp
    · simp [hc]
  | cons c run ih =>
    have := ih fun d hd => hr d (by simp [hd])
    simp [hr c (by simp), this]

/-! ### Words -/

/-- A chain of lex states that each go on with one character only. -/
def Spells : LexStateId → List (Char × LexStateId) → Prop
  | _, [] => True
  | state, (c, target) :: more =>
    language.lexState state = letter c target ∧ Spells target more

/-- The end of a chain. -/
def spelled (state : LexStateId) (word : List (Char × LexStateId)) : LexStateId :=
  (word.getLast?.map (·.2)).getD state

/-- A chain is followed to its end by its own word and by no other. -/
theorem found?_spells {word : List (Char × LexStateId)} {state : LexStateId}
    (h : Spells state word) (cursor tokenStart examined : Nat)
    (accepted : Option (Symbol × Nat)) (text : Text) :
    (∃ rest, text = word.map (·.1) ++ rest ∧
      found? language ⟨state, cursor, tokenStart, examined, accepted⟩ text =
        found? language ⟨spelled state word, cursor + Text.size (word.map (·.1)), tokenStart, 0,
          accepted⟩ rest) ∨
      ((¬ ∃ rest, text = word.map (·.1) ++ rest) ∧
        found? language ⟨state, cursor, tokenStart, examined, accepted⟩ text =
          settle tokenStart accepted) := by
  induction word generalizing state cursor examined text with
  | nil => exact .inl ⟨text, rfl, by apply Scan.found?_congr <;> rfl⟩
  | cons link word ih =>
    obtain ⟨d, target⟩ := link
    obtain ⟨here, more⟩ := h
    have quiet : noted language state cursor accepted = accepted := by
      rw [noted, here]
      rfl
    have step (c : Char) : (language.lexState state).step? c =
        if c = d then some (.advance target) else none :=
      step?_letter c (by rw [here]; rfl)
    cases text with
    | nil =>
      refine .inr ⟨by simp, ?_⟩
      rw [Scan.found?_end (by rw [here]; rfl), quiet]
    | cons c text =>
      by_cases e : c = d
      · subst e
        rw [Scan.found?_advance (by rw [step, if_pos rfl]), quiet]
        have ends : spelled state ((c, target) :: word) = spelled target word := by
          cases word <;> simp [spelled, List.getLast?_cons]
        rcases ih more (cursor + c.utf8Size) 0 text with
          ⟨rest, rfl, found⟩ | ⟨other, found⟩
        · refine .inl ⟨rest, rfl, ?_⟩
          rw [found, ends]
          simp [Nat.add_assoc]
        · exact .inr ⟨by simpa using other, found⟩
      · refine .inr ⟨by simp [e], ?_⟩
        rw [Scan.found?_stop (by rw [step, if_neg e]), quiet]

/-- The literal of a header. -/
def literal : Text := ['D', 'O', 'C', 'U', 'M', 'E', 'N', 'T']

/-- The lex states of the literal behind its second letter. -/
def literalChain : List (Char × LexStateId) :=
  [('C', 13), ('U', 9), ('M', 8), ('E', 10), ('N', 12), ('T', 19)]

theorem spells_literal : Spells 7 literalChain :=
  ⟨rfl, rfl, rfl, rfl, rfl, rfl, trivial⟩

theorem spells_literal' : Spells 11 (('O', 7) :: literalChain) :=
  ⟨rfl, spells_literal⟩

/-- A scan behind the first letter of the literal. -/
theorem found?_literal {state : LexStateId} (hs : state = 11 ∨ state = 22)
    (cursor tokenStart examined : Nat) (accepted : Option (Symbol × Nat)) (text : Text) :
    (∃ rest, 'D' :: text = literal ++ rest ∧
      found? language ⟨state, cursor, tokenStart, examined, accepted⟩ text =
        some (documentLiteral, tokenStart, cursor + 7 - tokenStart)) ∨
      ((¬ ∃ rest, 'D' :: text = literal ++ rest) ∧
        found? language ⟨state, cursor, tokenStart, examined, accepted⟩ text =
          settle tokenStart (noted language state cursor accepted)) := by
  have word : ∀ rest : Text, literal ++ rest =
      'D' :: 'O' :: (literalChain.map (·.1) ++ rest) := fun _ => rfl
  have last (k : Nat) (a : Option (Symbol × Nat)) (rest : Text) :
      found? language ⟨spelled 7 literalChain, k, tokenStart, 0, a⟩ rest =
        some (documentLiteral, tokenStart, k - tokenStart) :=
    Scan.found?_final rfl rest
  rcases hs with rfl | rfl
  · rcases found?_spells spells_literal' cursor tokenStart examined accepted text with
      ⟨rest, rfl, found⟩ | ⟨other, found⟩
    · exact .inl ⟨rest, rfl, found.trans (last _ _ rest)⟩
    · exact .inr ⟨fun ⟨rest, h⟩ => other ⟨rest, (List.cons.inj h).2⟩, found⟩
  · have step (c : Char) : (language.lexState 22).step? c =
        if c = 'O' then some (.advance 7) else none := step?_letter c rfl
    cases text with
    | nil => exact .inr ⟨by simp [word], Scan.found?_end rfl⟩
    | cons c text =>
      by_cases e : c = 'O'
      · subst e
        rw [Scan.found?_advance (by rw [step, if_pos rfl])]
        rcases found?_spells spells_literal (cursor + 1) tokenStart 0
          (noted language 22 cursor accepted) text with
          ⟨rest, rfl, found⟩ | ⟨other, found⟩
        · exact .inl ⟨rest, rfl, found.trans (last _ _ rest)⟩
        · exact .inr ⟨fun ⟨rest, h⟩ => other ⟨rest, (List.cons.inj (List.cons.inj h).2).2⟩, found⟩
      · exact .inr ⟨by simp [word, e], Scan.found?_stop (by rw [step, if_neg e]) text⟩

/-! ### Behind the header -/

/-- In the middle of a token that it has accepted nothing of, the fallback mode
reads the literal or fails. -/
theorem found?_literal_or_none (more : Text) (start : Nat) (accepted : Option (Symbol × Nat))
    (quiet : noted language 11 (start + 1) accepted = none) :
    (∃ text, 'D' :: more = literal ++ text ∧
      found? language ⟨11, start + 1, start, 0, accepted⟩ more =
        some (documentLiteral, start, 8)) ∨
      found? language ⟨11, start + 1, start, 0, accepted⟩ more = none := by
  rcases found?_literal (.inl rfl) (start + 1) start 0 accepted more with
    ⟨text, e, found⟩ | ⟨-, found⟩
  · exact .inl ⟨text, e, by rw [found, show start + 1 + 7 - start = 8 by omega]⟩
  · exact .inr (by rw [found, quiet]; rfl)

/-- The first token of the fallback mode, without white space in front. -/
theorem found?_fallback_solid {c : Char} (more : Text) (hc : isSpace c = false) :
    (c = '\x00' ∧ found? language { state := 0 } (c :: more) = some (eof, 0, 1)) ∨
      (∃ text, c :: more = literal ++ text ∧
        found? language { state := 0 } (c :: more) = some (documentLiteral, 0, 8)) ∨
      (∃ symbol, (c = '[' ∧ symbol = leftBracket ∨ c = ']' ∧ symbol = rightBracket) ∧
        found? language { state := 0 } (c :: more) = some (symbol, 0, 1)) ∨
      (c ≠ '\x00' ∧ found? language { state := 0 } (c :: more) = none) := by
  have step := step?_0 c
  rw [hc] at step
  by_cases nul : c = '\x00'
  · subst nul
    refine .inl ⟨rfl, ?_⟩
    rw [Scan.found?_advance step, Scan.found?_final rfl]
    rfl
  by_cases d : c = 'D'
  · subst d
    rw [Scan.found?_advance step]
    rcases found?_literal_or_none more 0 (noted language 0 0 none) rfl with ⟨text, e, found⟩ | found
    · exact .inr (.inl ⟨text, e, found⟩)
    · exact .inr (.inr (.inr ⟨by decide, found⟩))
  by_cases opening : c = '['
  · subst opening
    refine .inr (.inr (.inl ⟨_, .inl ⟨rfl, rfl⟩, ?_⟩))
    rw [Scan.found?_advance step, Scan.found?_final rfl]
    rfl
  by_cases closing : c = ']'
  · subst closing
    refine .inr (.inr (.inl ⟨_, .inr ⟨rfl, rfl⟩, ?_⟩))
    rw [Scan.found?_advance step, Scan.found?_final rfl]
    rfl
  refine .inr (.inr (.inr ⟨nul, ?_⟩))
  rw [Scan.found?_stop (by simpa [nul, d, opening, closing] using step)]
  rfl

/-- White space in front of a token of the fallback mode. -/
theorem found?_fallback_spaces {s : Char} {spaces : Text}
    (hs : ∀ c ∈ s :: spaces, isSpace c = true) (rest : Text) :
    found? language { state := 0 } (s :: spaces ++ rest) =
      found? language ⟨14, Text.size (s :: spaces), Text.size (s :: spaces), 0, none⟩ rest := by
  have first : (language.lexState 0).step? s = some (.skip 14) := by
    have h := hs s (by simp)
    rw [step?_0, h]
    have : s ≠ '\x00' ∧ s ≠ 'D' ∧ s ≠ '[' ∧ s ≠ ']' := by
      refine ⟨?_, ?_, ?_, ?_⟩ <;> rintro rfl <;> exact absurd h (by decide)
    simp [this]
  rw [List.cons_append, Scan.found?_skip first, Scan.found?_skips (p := fun c => isSpace c = true)
    spaces (fun c h => ?_) fun c hc => hs c (by simp [hc])]
  · simp
  · rw [step?_14, h]
    have : c ≠ '\x00' ∧ c ≠ 'D' := by
      refine ⟨?_, ?_⟩ <;> rintro rfl <;> exact absurd h (by decide)
    simp [this]

/-- The token of the fallback mode behind white space. -/
theorem found?_fallback_behind {c : Char} (more : Text) (hc : isSpace c = false) (start : Nat) :
    (c = '\x00' ∧ found? language ⟨14, start, start, 0, none⟩ (c :: more) =
        some (eof, start, 1)) ∨
      (∃ text, c :: more = literal ++ text ∧
        found? language ⟨14, start, start, 0, none⟩ (c :: more) =
          some (documentLiteral, start, 8)) ∨
      (c ≠ '\x00' ∧ found? language ⟨14, start, start, 0, none⟩ (c :: more) = none) := by
  have step := step?_14 c
  rw [hc] at step
  by_cases nul : c = '\x00'
  · subst nul
    refine .inl ⟨rfl, ?_⟩
    rw [Scan.found?_advance step, Scan.found?_final rfl, Nat.add_sub_cancel_left]
    rfl
  by_cases d : c = 'D'
  · subst d
    rw [Scan.found?_advance step]
    rcases found?_literal_or_none more start (noted language 14 start none) rfl with
      ⟨text, e, found⟩ | found
    · exact .inr (.inl ⟨text, e, found⟩)
    · exact .inr (.inr ⟨by decide, found⟩)
  refine .inr (.inr ⟨nul, ?_⟩)
  rw [Scan.found?_stop (by simpa [nul, d] using step)]
  rfl

/-- The fallback mode looks for a token behind white space; brackets count only
without any. -/
theorem found?_fallback {spaces rest : Text} (hs : ∀ c ∈ spaces, isSpace c = true)
    (hr : rest = [] ∨ ∃ c more, rest = c :: more ∧ isSpace c = false) :
    (rest = [] ∧ found? language { state := 0 } (spaces ++ rest) =
        some (endSymbol, Text.size spaces, 0)) ∨
      (∃ more, rest = '\x00' :: more ∧ found? language { state := 0 } (spaces ++ rest) =
        some (eof, Text.size spaces, 1)) ∨
      (∃ more, rest = literal ++ more ∧ found? language { state := 0 } (spaces ++ rest) =
        some (documentLiteral, Text.size spaces, 8)) ∨
      (spaces = [] ∧ ∃ c more symbol, rest = c :: more ∧
        (c = '[' ∧ symbol = leftBracket ∨ c = ']' ∧ symbol = rightBracket) ∧
        found? language { state := 0 } (spaces ++ rest) = some (symbol, 0, 1)) ∨
      (∃ c more, rest = c :: more ∧ c ≠ '\x00' ∧
        found? language { state := 0 } (spaces ++ rest) = none) := by
  cases spaces with
  | nil =>
    rw [List.nil_append]
    rcases hr with rfl | ⟨c, more, rfl, hc⟩
    · exact .inl ⟨rfl, rfl⟩
    rcases found?_fallback_solid more hc with ⟨rfl, found⟩ | ⟨text, e, found⟩ |
      ⟨symbol, bracket, found⟩ | ⟨nul, found⟩
    · exact .inr (.inl ⟨more, rfl, found⟩)
    · exact .inr (.inr (.inl ⟨text, e, found⟩))
    · exact .inr (.inr (.inr (.inl ⟨rfl, c, more, symbol, rfl, bracket, found⟩)))
    · exact .inr (.inr (.inr (.inr ⟨c, more, rfl, nul, found⟩)))
  | cons s spaces =>
    rw [found?_fallback_spaces hs]
    rcases hr with rfl | ⟨c, more, rfl, hc⟩
    · refine .inl ⟨rfl, ?_⟩
      have step : (language.lexState 14).atEnd = some (.advance 15) := rfl
      rw [Scan.found?_atEnd step, noted,
        show (language.lexState 15).accept = some endSymbol from rfl]
      simp [settle]
    rcases found?_fallback_behind more hc (Text.size (s :: spaces)) with ⟨rfl, found⟩ |
      ⟨text, e, found⟩ | ⟨nul, found⟩
    · exact .inr (.inl ⟨more, rfl, found⟩)
    · exact .inr (.inr (.inl ⟨text, e, found⟩))
    · exact .inr (.inr (.inr (.inr ⟨c, more, rfl, nul, found⟩)))

theorem step_17 {c : Char} {step : LexStep}
    (h : (language.lexState 17).step? c = some step) : step = .advance 17 := by
  have mem := LexState.mem_of_step? h
  rw [show (language.lexState 17).transitions.map (·.step) = [.advance 17] from rfl] at mem
  exact List.mem_singleton.mp mem

/-- Behind the second newline only newlines and blanks are a token of their own. -/
theorem found?_tail {tabs rest : Text} (ht : ∀ c ∈ tabs, isTab c = true)
    (hr : rest = [] ∨ ∃ c more, rest = c :: more ∧ isTab c = false) :
    (∃ more, rest = '\x00' :: more ∧ found? language { state := 1 } (tabs ++ rest) =
        some (eof, Text.size tabs, 1)) ∨
      (∃ c more size, rest = c :: more ∧ (c = '\n' ∨ c = ' ') ∧
        found? language { state := 1 } (tabs ++ rest) =
          some (trailingEndError, Text.size tabs, size)) ∨
      ((rest = [] ∨ ∃ c more, rest = c :: more ∧ c ≠ '\x00' ∧ isSpace c = false) ∧
        found? language { state := 1 } (tabs ++ rest) = none) := by
  rw [Scan.found?_skips (p := fun c => isTab c = true) tabs (fun c h => ?_) ht]
  · rcases hr with rfl | ⟨c, more, rfl, hc⟩
    · exact .inr (.inr ⟨.inl rfl, Scan.found?_end rfl⟩)
    · have step := step?_1 c
      rw [hc] at step
      by_cases nul : c = '\x00'
      · subst nul
        -- the NUL character is the token
        refine .inl ⟨more, rfl, ?_⟩
        have last : language.lexState 18 = { accept := some eof } := rfl
        rw [Scan.found?_advance step, Scan.found?_final last, Nat.zero_add,
          Nat.add_sub_cancel_left]
        rfl
      · by_cases space : c = '\n' ∨ c = ' '
        · refine .inr (.inl ?_)
          rw [if_neg nul, if_pos space] at step
          rw [Scan.found?_advance step]
          obtain ⟨symbol, size, rfl, found⟩ := Scan.found?_isSome
            (I := fun state => state = 17) (G := fun symbol => symbol = trailingEndError)
            (fun hs e => ⟨17, by subst hs; exact step_17 e, rfl⟩)
            (fun hs => by subst hs; rfl)
            (fun hs e => by subst hs; exact (Option.some.inj e).symm)
            (0 + Text.size tabs + c.utf8Size) (0 + Text.size tabs) 0
            (noted language 1 (0 + Text.size tabs) none) rfl ⟨_, _, rfl, rfl⟩ more
          exact ⟨c, more, size, rfl, space, by rw [found, Nat.zero_add]⟩
        · refine .inr (.inr ⟨.inr ⟨c, more, rfl, nul, ?_⟩, ?_⟩)
          · simp only [not_or] at space
            simp [isSpace, isBlank, hc, space]
          · rw [Scan.found?_stop (by simpa [nul, space] using step)]
            rfl
  · rw [step?_1, h]
    have : c ≠ '\x00' ∧ ¬ (c = '\n' ∨ c = ' ') := by
      refine ⟨?_, ?_⟩
      · rintro rfl
        exact absurd h (by decide)
      · rintro (rfl | rfl) <;> exact absurd h (by decide)
    simp [this]

end Reparse.Header
