/-
Reparse/Proofs/Lexeme/Cut.lean

Where tokens are cut.

A scan takes whole characters, so a token that has what the scan measured begins
and ends where the text can be cut: `Language.cut_lexeme?`.  If no step on a
character leads to a state that accepts the end, then the end token ends at the
end of the text: `Language.endsText_of_tables`.
-/
import Reparse.Proofs.Lexeme.Scan

namespace Reparse

/-! ### Places to cut -/

namespace Text

variable {text rest : Text} {position offset : Nat}

/-- A position between two characters, or at an end of the text. -/
def Cut (text : Text) (position : Nat) : Prop :=
  (text.drop? position).isSome

theorem cut_iff :
    text.Cut position ↔ ∃ before after, text = before ++ after ∧ size before = position := by
  rw [Cut, Option.isSome_iff_exists]
  constructor
  · rintro ⟨after, h⟩
    obtain ⟨before, e, hb⟩ := drop?_eq_some_iff.mp h
    exact ⟨before, after, e, hb⟩
  · rintro ⟨before, after, e, hb⟩
    exact ⟨after, drop?_eq_some_iff.mpr ⟨before, e, hb⟩⟩

theorem cut_zero (text : Text) : text.Cut 0 :=
  cut_iff.mpr ⟨[], text, rfl, rfl⟩

theorem cut_size (text : Text) : text.Cut text.size :=
  cut_iff.mpr ⟨text, [], (List.append_nil text).symm, rfl⟩

theorem Cut.le (h : text.Cut position) : position ≤ text.size := by
  obtain ⟨before, after, rfl, rfl⟩ := cut_iff.mp h
  rw [size_append]
  exact Nat.le_add_right ..

/-- A place to cut what is behind a place to cut. -/
theorem Cut.behind (here : text.drop? position = some rest) (h : Cut rest offset) :
    text.Cut (position + offset) := by
  obtain ⟨front, rfl, rfl⟩ := drop?_eq_some_iff.mp here
  obtain ⟨before, after, rfl, rfl⟩ := cut_iff.mp h
  exact cut_iff.mpr ⟨front ++ before, after, by simp, by simp⟩

theorem drop?_cons {c : Char} (h : text.drop? position = some (c :: rest)) :
    text.drop? (position + c.utf8Size) = some rest := by
  obtain ⟨before, rfl, rfl⟩ := drop?_eq_some_iff.mp h
  exact drop?_eq_some_iff.mpr ⟨before ++ [c], by simp, by simp⟩

end Text

namespace Scan

variable {language : Language} {text : Text} {scan : Scan}

/-! ### Tokens -/

/-- A scan whose token, as far as it goes, begins and ends at places to cut. -/
structure Cuts (text : Text) (scan : Scan) : Prop where
  start : text.Cut scan.tokenStart
  accepted : ∀ {symbol stop}, scan.accepted = some (symbol, stop) → text.Cut stop

theorem Cuts.visit (h : scan.Cuts text) (here : text.Cut scan.cursor) :
    (scan.visit language).Cuts text where
  start := by
    rw [visit_tokenStart]
    exact h.start
  accepted e := by
    rw [visit_accepted] at e
    split at e
    · cases e
      exact here
    · exact h.accepted e

theorem Cuts.take (h : scan.Cuts text) {width : Nat} (there : text.Cut (scan.cursor + width))
    (step : LexStep) : (scan.take width step).Cuts text := by
  cases step with
  | advance target => exact ⟨h.start, h.accepted⟩
  | skip target => exact ⟨there, fun e => by cases e⟩

/-- A scan goes on from one place to cut to the next. -/
theorem Cuts.follow {ahead : Text} (h : scan.Cuts text)
    (here : text.drop? scan.cursor = some ahead) : (scan.follow language ahead).Cuts text := by
  have cut : text.Cut scan.cursor := by rw [Text.Cut, here]; rfl
  have visited : (scan.visit language).Cuts text := h.visit cut
  induction ahead generalizing scan with
  | nil =>
    rcases e : (language.lexState scan.state).atEnd with - | step
    · rw [follow_end e]
      exact visited
    · rw [follow_atEnd e]
      have stays : text.Cut ((scan.visit language).cursor + 0) := by
        rw [visit_cursor]
        exact cut
      exact (visited.take stays step).visit (by rw [take_cursor]; exact stays)
  | cons c rest ih =>
    have peeked : (scan.peek language c).Cuts text := ⟨visited.start, visited.accepted⟩
    rcases e : (language.lexState scan.state).step? c with - | step
    · rw [follow_stop e]
      exact peeked
    · rw [follow_step e]
      have there : text.drop? (scan.cursor + c.utf8Size) = some rest := Text.drop?_cons here
      have next : text.Cut ((scan.peek language c).cursor + c.utf8Size) := by
        rw [peek_cursor, Text.Cut, there]
        rfl
      have taken := peeked.take next step
      have cut : text.Cut ((scan.peek language c).take c.utf8Size step).cursor := by
        rw [take_cursor]
        exact next
      exact ih taken (by rw [take_cursor, peek_cursor]; exact there) cut (taken.visit cut)

/-! ### The end -/

/-- A scan that has not come to the end token. -/
structure BeforeEnd (language : Language) (scan : Scan) : Prop where
  state : (language.lexState scan.state).accept ≠ some endSymbol
  accepted : ∀ {stop}, scan.accepted ≠ some (endSymbol, stop)

theorem BeforeEnd.visit (h : BeforeEnd language scan) {stop : Nat} :
    (scan.visit language).accepted ≠ some (endSymbol, stop) := by
  intro e
  rw [visit_accepted] at e
  split at e
  · rename_i accept
    cases e
    exact h.state accept
  · exact h.accepted e

/-- If no step on a character comes to the end token, it is found behind the
last character only. -/
theorem BeforeEnd.follow
    (steps : ∀ {state c step}, (language.lexState state).step? c = some step →
      (language.lexState step.target).accept ≠ some endSymbol)
    (h : BeforeEnd language scan) {text : Text} {stop : Nat}
    (found : (scan.follow language text).accepted = some (endSymbol, stop)) :
    stop = scan.cursor + Text.size text := by
  induction text generalizing scan with
  | nil =>
    rcases e : (language.lexState scan.state).atEnd with - | step
    · rw [follow_end e] at found
      exact absurd found h.visit
    · rw [follow_atEnd e, visit_accepted] at found
      split at found
      · cases found
        rw [take_cursor, visit_cursor]
        rfl
      · cases step with
        | advance target => exact absurd found h.visit
        | skip target => cases found
  | cons c rest ih =>
    rcases e : (language.lexState scan.state).step? c with - | step
    · rw [follow_stop e, peek_accepted] at found
      exact absurd found h.visit
    · rw [follow_step e] at found
      have next : BeforeEnd language ((scan.peek language c).take c.utf8Size step) := by
        refine ⟨by rw [take_state]; exact steps e, fun accepted => ?_⟩
        cases step with
        | advance target => exact h.visit accepted
        | skip target => cases accepted
      rw [ih next found, take_cursor, peek_cursor, Text.size_cons, Nat.add_assoc]

end Scan

namespace Language

variable {language : Language} {text : Text}

/-- Where less than four gigabytes are ahead, a token has what its scan measured. -/
theorem measures_of_lexeme? {rest : Text} {position : Nat} {mode : LexStateId} {lexeme : Lexeme}
    (here : text.drop? position = some rest) (small : text.size < position + UInt32.size)
    (h : language.lexeme? text position mode = some lexeme) :
    Scan.Measures (Scan.follow language { state := mode } rest) lexeme := by
  rw [Scan.lexeme?_of_drop? here] at h
  obtain ⟨before, rfl, rfl⟩ := Text.drop?_eq_some_iff.mp here
  rw [Text.size_append] at small
  exact Scan.measures_of_lexeme? (Nat.lt_of_add_lt_add_left small) h

/-- **A token begins and ends at places to cut.** -/
theorem cut_lexeme? {position : Nat} {mode : LexStateId} {lexeme : Lexeme}
    (cut : text.Cut position) (small : text.size < position + UInt32.size)
    (h : language.lexeme? text position mode = some lexeme) :
    text.Cut (position + lexeme.padding) ∧
      text.Cut (position + (lexeme.padding + lexeme.size)) := by
  obtain ⟨rest, here⟩ := Option.isSome_iff_exists.mp cut
  have measures := measures_of_lexeme? here small h
  have cuts : (Scan.follow language { state := mode } rest).Cuts rest :=
    Scan.Cuts.follow ⟨Text.cut_zero rest, fun e => by cases e⟩ (by cases rest <;> rfl)
  have start := cuts.start
  rw [measures.start] at start
  exact ⟨start.behind here, (cuts.accepted measures.accepted).behind here⟩

/-- What a token depends on is there, wherever it was looked for. -/
theorem lexeme?_within {position : Nat} {mode : LexStateId} {lexeme : Lexeme}
    (inside : position ≤ text.size) (h : language.lexeme? text position mode = some lexeme) :
    position + lexeme.padding + lexeme.size + lexeme.lookahead ≤ text.size := by
  have le := Scan.lexeme?_le h
  rcases here : text.drop? position with - | rest
  · -- inside of a character there is nothing to look at
    rw [here, Option.getD_none, Text.size_nil] at le
    omega
  · rw [here, Option.getD_some] at le
    obtain ⟨before, rfl, rfl⟩ := Text.drop?_eq_some_iff.mp here
    rw [Text.size_append]
    omega

/-- The lexer finds the end token at the end of the text only. -/
def EndsText (language : Language) (text : Text) : Prop :=
  ∀ position state lexeme, text.Cut position →
    language.lexeme? text position (language.lexMode state) = some lexeme →
    lexeme.symbol = endSymbol → position + lexeme.padding + lexeme.size = text.size

/-- If no lex mode accepts the end token, nor a state behind a character, it is
found at the end of a text below four gigabytes only. -/
theorem endsText_of_tables
    (modes : ∀ mode ∈ 0 :: language.lexModes.toList,
      (language.lexState mode).accept ≠ some endSymbol)
    (transitions : ∀ state ∈ language.lexStates.toList, ∀ transition ∈ state.transitions,
      (language.lexState transition.step.target).accept ≠ some endSymbol)
    (small : text.size < UInt32.size) : language.EndsText text := by
  have begins (state : StateId) :
      (language.lexState (language.lexMode state)).accept ≠ some endSymbol := by
    refine modes _ ?_
    rw [lexMode]
    rcases e : language.lexModes[state.toNat]? with - | mode
    · exact List.mem_cons_self
    · exact List.mem_cons_of_mem _ (Array.mem_toList_iff.mpr (Array.mem_of_getElem? e))
  have steps {state : LexStateId} {c : Char} {step : LexStep}
      (h : (language.lexState state).step? c = some step) :
      (language.lexState step.target).accept ≠ some endSymbol := by
    rw [lexState] at h
    rcases e : language.lexStates[state.toNat]? with - | found
    · rw [e] at h
      cases h
    · rw [e] at h
      obtain ⟨transition, taken, rfl⟩ := Option.map_eq_some_iff.mp h
      exact transitions found (Array.mem_toList_iff.mpr (Array.mem_of_getElem? e)) _
        (List.mem_of_find?_eq_some taken)
  -- only the step at the end of the text can lead to a state that accepts the end token
  intro position state lexeme cut h last
  obtain ⟨rest, here⟩ := Option.isSome_iff_exists.mp cut
  have accepted := (measures_of_lexeme? here (Nat.lt_add_left position small) h).accepted
  rw [last] at accepted
  have whole := Scan.BeforeEnd.follow steps ⟨begins state, fun e => by cases e⟩ accepted
  obtain ⟨before, rfl, rfl⟩ := Text.drop?_eq_some_iff.mp here
  rw [Nat.zero_add] at whole
  rw [Text.size_append, Nat.add_assoc, whole]

end Language

end Reparse
