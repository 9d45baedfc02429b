/-
Reparse/Proofs/Lexeme/Found.lean

The token that a scan finds, step by step.

`found?` leaves out how far the scan has looked, which no step asks for, and
keeps the lengths as they are measured.  Its rules take one step of the
automaton each: a character advances, is skipped, or ends the scan.  The token
has the low bits of these lengths (`lexeme?_of_found?`), which below four
gigabytes are all there is (`lowBits_of_found?`).
-/
import Reparse.Proofs.Lexeme.Scan

namespace Reparse

/-- The symbol of a token, its padding and its size, as they are measured. -/
abbrev Extent := Symbol × Nat × Nat

namespace Scan

variable (language : Language)

/-- The token that was accepted last. -/
def settle (tokenStart : Nat) (accepted : Option (Symbol × Nat)) : Option Extent :=
  accepted.map fun (symbol, stop) => (symbol, tokenStart, stop - tokenStart)

/-- The token that a scan finds in the text ahead, as far as it is measured. -/
def found? (scan : Scan) (text : Text) : Option Extent :=
  settle (scan.follow language text).tokenStart (scan.follow language text).accepted

/-- What is accepted when a scan has come to a state. -/
def noted (state : LexStateId) (cursor : Nat) (accepted : Option (Symbol × Nat)) :
    Option (Symbol × Nat) :=
  match (language.lexState state).accept with
  | some symbol => some (symbol, cursor)
  | none => accepted

variable {language} {state target : LexStateId} {cursor tokenStart examined : Nat}
  {accepted : Option (Symbol × Nat)} {c : Char}

theorem accepted_visit (scan : Scan) :
    (scan.visit language).accepted = noted language scan.state scan.cursor scan.accepted :=
  visit_accepted scan

/-- How far a scan has looked does not matter for its token. -/
theorem found?_congr {a b : Scan} (state : a.state = b.state) (cursor : a.cursor = b.cursor)
    (tokenStart : a.tokenStart = b.tokenStart) (accepted : a.accepted = b.accepted)
    (text : Text) : found? language a text = found? language b text := by
  have alike : (a.visit language).accepted = (b.visit language).accepted := by
    rw [accepted_visit, accepted_visit, state, cursor, accepted]
  induction text generalizing a b with
  | nil =>
    rcases e : (language.lexState a.state).atEnd with - | step
    · rw [found?, found?, follow_end e, follow_end (state ▸ e),
        visit_tokenStart, visit_tokenStart, tokenStart, alike]
    · rw [found?, found?, follow_atEnd e, follow_atEnd (state ▸ e),
        accepted_visit, accepted_visit]
      cases step <;> simp [Scan.take, cursor, tokenStart, alike]
  | cons c rest ih =>
    rcases e : (language.lexState a.state).step? c with - | step
    · rw [found?, found?, follow_stop e, follow_stop (state ▸ e),
        peek_tokenStart, peek_tokenStart, peek_accepted, peek_accepted, tokenStart, alike]
    · rw [found?, found?, follow_step e, follow_step (state ▸ e)]
      have ht : ((a.peek language c).take c.utf8Size step).tokenStart =
          ((b.peek language c).take c.utf8Size step).tokenStart := by
        cases step <;> simp [Scan.take, cursor, tokenStart]
      have ha : ((a.peek language c).take c.utf8Size step).accepted =
          ((b.peek language c).take c.utf8Size step).accepted := by
        cases step <;> simp [Scan.take, alike]
      exact ih (by simp) (by simp [cursor]) ht ha
        (by rw [accepted_visit, accepted_visit, take_state, take_state, take_cursor, take_cursor,
          peek_cursor, peek_cursor, cursor, ha])

theorem found?_step {scan : Scan} {step : LexStep}
    (h : (language.lexState scan.state).step? c = some step) (rest : Text) :
    found? language scan (c :: rest) =
      found? language ((scan.peek language c).take c.utf8Size step) rest := by
  rw [found?, follow_step h]
  rfl

theorem found?_advance (h : (language.lexState state).step? c = some (.advance target))
    (rest : Text) :
    found? language ⟨state, cursor, tokenStart, examined, accepted⟩ (c :: rest) =
      found? language ⟨target, cursor + c.utf8Size, tokenStart, 0,
        noted language state cursor accepted⟩ rest := by
  rw [found?_step (by exact h)]
  apply found?_congr <;> simp [Scan.take, accepted_visit]

theorem found?_skip (h : (language.lexState state).step? c = some (.skip target)) (rest : Text) :
    found? language ⟨state, cursor, tokenStart, examined, accepted⟩ (c :: rest) =
      found? language ⟨target, cursor + c.utf8Size, cursor + c.utf8Size, 0, none⟩ rest := by
  rw [found?_step (by exact h)]
  apply found?_congr <;> simp [Scan.take]

theorem found?_stop (h : (language.lexState state).step? c = none) (rest : Text) :
    found? language ⟨state, cursor, tokenStart, examined, accepted⟩ (c :: rest) =
      settle tokenStart (noted language state cursor accepted) := by
  rw [found?, follow_stop (by exact h), peek_tokenStart, peek_accepted, accepted_visit]

theorem found?_end (h : (language.lexState state).atEnd = none) :
    found? language ⟨state, cursor, tokenStart, examined, accepted⟩ [] =
      settle tokenStart (noted language state cursor accepted) := by
  rw [found?, follow_end (by exact h), visit_tokenStart, accepted_visit]

theorem found?_atEnd (h : (language.lexState state).atEnd = some (.advance target)) :
    found? language ⟨state, cursor, tokenStart, examined, accepted⟩ [] =
      settle tokenStart (noted language target cursor (noted language state cursor accepted)) := by
  rw [found?, follow_atEnd (by exact h), visit_tokenStart, accepted_visit]
  simp [Scan.take, accepted_visit]

/-! ### Its lengths -/

/-- The token has 32 bits of each length. -/
theorem lexeme?_of_found? {mode : LexStateId} {text : Text} {symbol : Symbol} {padding size : Nat}
    (h : found? language { state := mode } text = some (symbol, padding, size)) :
    ∃ lookahead, (follow language { state := mode } text).lexeme? =
      some ⟨symbol, Span.lowBits padding, Span.lowBits size, lookahead⟩ := by
  obtain ⟨⟨symbol, stop⟩, accepted, same⟩ := Option.map_eq_some_iff.mp h
  obtain ⟨rfl, rfl, rfl⟩ := same
  exact ⟨_, by rw [lexeme?, accepted]; rfl⟩

theorem found?_eq_none_iff {mode : LexStateId} {text : Text} :
    found? language { state := mode } text = none ↔
      (follow language { state := mode } text).lexeme? = none := by
  rw [found?, settle, lexeme?, Option.map_eq_none_iff, Option.map_eq_none_iff]

/-- In a text below four gigabytes no length loses a bit. -/
theorem lowBits_of_found? {mode : LexStateId} {text : Text} (small : Text.size text < UInt32.size)
    {symbol : Symbol} {padding size : Nat}
    (h : found? language { state := mode } text = some (symbol, padding, size)) :
    Span.lowBits padding = padding ∧ Span.lowBits size = size := by
  obtain ⟨⟨symbol, stop⟩, accepted, same⟩ := Option.map_eq_some_iff.mp h
  obtain ⟨rfl, rfl, rfl⟩ := same
  have bounded := bounded_follow language mode text
  have := bounded.accepted accepted
  have := bounded.cursor
  have := examined_le language mode text
  exact ⟨Span.lowBits_of_lt (by omega), Span.lowBits_of_lt (by omega)⟩

/-! ### Several steps -/

/-- A state that skips some characters skips a run of them. -/
theorem found?_skips {p : Char → Prop} (spaces : Text)
    (h : ∀ c, p c → (language.lexState state).step? c = some (.skip state))
    (hp : ∀ c ∈ spaces, p c) (rest : Text) :
    found? language ⟨state, cursor, cursor, examined, none⟩ (spaces ++ rest) =
      found? language ⟨state, cursor + Text.size spaces, cursor + Text.size spaces, 0, none⟩
        rest := by
  induction spaces generalizing cursor examined with
  | nil => apply found?_congr <;> simp
  | cons c spaces ih =>
    rw [List.cons_append, found?_skip (h c (hp c (by simp))),
      ih fun d hd => hp d (by simp [hd])]
    simp [Nat.add_assoc]

/-- A state without steps has found its token. -/
theorem found?_final {symbol : Symbol}
    (h : language.lexState state = { accept := some symbol }) (rest : Text) :
    found? language ⟨state, cursor, tokenStart, examined, accepted⟩ rest =
      some (symbol, tokenStart, cursor - tokenStart) := by
  cases rest with
  | nil =>
    rw [found?_end (by rw [h])]
    simp [settle, noted, h]
  | cons c rest =>
    rw [found?_stop (by rw [h]; rfl)]
    simp [settle, noted, h]

/-- A scan that only advances keeps having a token, the last one accepted. -/
theorem found?_isSome {language : Language} {I : LexStateId → Prop} {G : Symbol → Prop}
    (step : ∀ {state c step}, I state → (language.lexState state).step? c = some step →
      ∃ target, step = .advance target ∧ I target)
    (atEnd : ∀ {state}, I state → (language.lexState state).atEnd = none)
    (accept : ∀ {state symbol}, I state → (language.lexState state).accept = some symbol →
      G symbol)
    (cursor tokenStart examined : Nat) (accepted : Option (Symbol × Nat)) (start : I state)
    (before : ∃ symbol stop, noted language state cursor accepted = some (symbol, stop) ∧
      G symbol) (text : Text) :
    ∃ symbol size, G symbol ∧
      found? language ⟨state, cursor, tokenStart, examined, accepted⟩ text =
        some (symbol, tokenStart, size) := by
  have settled : ∀ {accepted : Option (Symbol × Nat)},
      (∃ symbol stop, accepted = some (symbol, stop) ∧ G symbol) →
      ∃ symbol size, G symbol ∧ settle tokenStart accepted = some (symbol, tokenStart, size) := by
    rintro accepted ⟨symbol, stop, rfl, h⟩
    exact ⟨symbol, stop - tokenStart, h, rfl⟩
  induction text generalizing state cursor examined accepted with
  | nil =>
    rw [found?_end (atEnd start)]
    exact settled before
  | cons c rest ih =>
    rcases e : (language.lexState state).step? c with - | next
    · rw [found?_stop e]
      exact settled before
    · obtain ⟨target, rfl, inner⟩ := step start e
      rw [found?_advance e]
      refine ih _ _ _ inner ?_
      rw [noted]
      split
      · rename_i symbol e
        exact ⟨symbol, _, rfl, accept inner e⟩
      · exact before

/-- A property of the token found that holds whenever one is accepted. -/
theorem found?_good {language : Language} {I : Scan → Prop} {G : Extent → Prop}
    (step : ∀ scan c step, I scan →
      (language.lexState scan.state).step? c = some step →
      I ((scan.peek language c).take c.utf8Size step))
    (stop : ∀ scan c extent, I scan → (language.lexState scan.state).step? c = none →
      settle scan.tokenStart (noted language scan.state scan.cursor scan.accepted) = some extent →
      G extent)
    (atEnd : ∀ scan extent, I scan → found? language scan [] = some extent → G extent)
    {scan : Scan} (start : I scan) {text : Text} {extent : Extent}
    (h : found? language scan text = some extent) : G extent := by
  refine follow_invariant (I := I)
    (F := fun scan => ∀ extent, settle scan.tokenStart scan.accepted = some extent → G extent) step
    (fun scan c hs e extent he => stop scan c extent hs e ?_)
    (fun scan hs extent he => atEnd scan extent hs he) start text extent h
  rwa [peek_tokenStart, peek_accepted, accepted_visit] at he

end Scan

end Reparse
