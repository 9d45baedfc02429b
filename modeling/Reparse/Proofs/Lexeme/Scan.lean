/-
Reparse/Proofs/Lexeme/Scan.lean

What a scan depends on, and how far it goes.

A scan that did not run out of text depends on nothing behind what it has
examined: `follow_local`.  Its token lies inside of that: `Bounded.follow`.
Below four gigabytes the token has all that the scan measured:
`measures_of_lexeme?`.
-/
import Reparse.Lexeme

namespace Reparse.Scan

variable {language : Language}

/-- The token at a place to cut is that of the text behind it. -/
theorem lexeme?_of_drop? {text rest : Text} {position : Nat}
    (here : text.drop? position = some rest) (mode : LexStateId) :
    language.lexeme? text position mode = (follow language { state := mode } rest).lexeme? := by
  rw [Language.lexeme?, here, Option.getD_some]

/-! ### Parts of a step -/

@[simp] theorem visit_state (scan : Scan) : (scan.visit language).state = scan.state := by
  simp only [visit]
  split <;> rfl

@[simp] theorem visit_cursor (scan : Scan) : (scan.visit language).cursor = scan.cursor := by
  simp only [visit]
  split <;> rfl

@[simp] theorem visit_tokenStart (scan : Scan) :
    (scan.visit language).tokenStart = scan.tokenStart := by
  simp only [visit]
  split <;> rfl

@[simp] theorem visit_examined (scan : Scan) :
    (scan.visit language).examined = scan.examined := by
  simp only [visit]
  split <;> rfl

theorem visit_accepted (scan : Scan) : (scan.visit language).accepted =
    match (language.lexState scan.state).accept with
    | some symbol => some (symbol, scan.cursor)
    | none => scan.accepted := by
  simp only [visit]
  split <;> simp_all

@[simp] theorem take_state (scan : Scan) (width : Nat) (step : LexStep) :
    (scan.take width step).state = step.target := by
  cases step <;> rfl

@[simp] theorem take_cursor (scan : Scan) (width : Nat) (step : LexStep) :
    (scan.take width step).cursor = scan.cursor + width := by
  cases step <;> rfl

@[simp] theorem take_examined (scan : Scan) (width : Nat) (step : LexStep) :
    (scan.take width step).examined = scan.examined := by
  cases step <;> rfl

/-- The scan when it sees the next character. -/
def peek (language : Language) (scan : Scan) (c : Char) : Scan :=
  (scan.visit language).look c.utf8Size

@[simp] theorem peek_state (scan : Scan) (c : Char) :
    (scan.peek language c).state = scan.state := visit_state scan

@[simp] theorem peek_cursor (scan : Scan) (c : Char) :
    (scan.peek language c).cursor = scan.cursor := visit_cursor scan

@[simp] theorem peek_tokenStart (scan : Scan) (c : Char) :
    (scan.peek language c).tokenStart = scan.tokenStart := visit_tokenStart scan

@[simp] theorem peek_examined (scan : Scan) (c : Char) :
    (scan.peek language c).examined = max scan.examined (scan.cursor + c.utf8Size) := by
  simp [peek, look]

@[simp] theorem peek_accepted (scan : Scan) (c : Char) :
    (scan.peek language c).accepted = (scan.visit language).accepted := rfl

theorem follow_stop {scan : Scan} {c : Char}
    (h : (language.lexState scan.state).step? c = none) (rest : Text) :
    scan.follow language (c :: rest) = scan.peek language c := by
  rw [show scan.state = (scan.visit language).state from (visit_state scan).symm] at h
  simp only [follow]
  rw [show (((scan.visit language).look c.utf8Size).state) = (scan.visit language).state from rfl, h]
  rfl

theorem follow_step {scan : Scan} {c : Char} {step : LexStep}
    (h : (language.lexState scan.state).step? c = some step) (rest : Text) :
    scan.follow language (c :: rest) =
      follow language ((scan.peek language c).take c.utf8Size step) rest := by
  rw [show scan.state = (scan.visit language).state from (visit_state scan).symm] at h
  simp only [follow]
  rw [show (((scan.visit language).look c.utf8Size).state) = (scan.visit language).state from rfl, h]
  rfl

theorem follow_end {scan : Scan} (h : (language.lexState scan.state).atEnd = none) :
    scan.follow language [] = scan.visit language := by
  simp [follow, h]

theorem follow_atEnd {scan : Scan} {step : LexStep}
    (h : (language.lexState scan.state).atEnd = some step) :
    scan.follow language [] = ((scan.visit language).take 0 step).visit language := by
  simp [follow, h]

/-- What is kept along the steps of a scan holds at its end. -/
theorem follow_invariant {I F : Scan → Prop}
    (step : ∀ scan c step, I scan → (language.lexState scan.state).step? c = some step →
      I ((scan.peek language c).take c.utf8Size step))
    (stop : ∀ scan c, I scan → (language.lexState scan.state).step? c = none →
      F (scan.peek language c))
    (atEnd : ∀ scan, I scan → F (scan.follow language []))
    {scan : Scan} (start : I scan) (text : Text) : F (scan.follow language text) := by
  induction text generalizing scan with
  | nil => exact atEnd scan start
  | cons c rest ih =>
    rcases e : (language.lexState scan.state).step? c with - | next
    · rw [follow_stop e]
      exact stop scan c start e
    · rw [follow_step e]
      exact ih (step scan c next start e)

/-! ### What a scan depends on -/

/-- A scan stops somewhere.  Unless it runs out of text, it is the same in
front of any text that goes on behind what was examined. -/
theorem follow_local (language : Language) (text : Text) (scan : Scan)
    (h : scan.examined = scan.cursor) :
    ∃ examined rest, text = examined ++ rest ∧
      (scan.follow language text).examined = scan.cursor + Text.size examined ∧
      (rest = [] ∨ ∀ other, scan.follow language (examined ++ other) = scan.follow language text) := by
  induction text generalizing scan with
  | nil =>
    refine ⟨[], [], rfl, ?_, .inl rfl⟩
    simp only [follow]
    split <;> simp [h]
  | cons c rest ih =>
    rcases e : (language.lexState scan.state).step? c with - | step
    · refine ⟨[c], rest, rfl, ?_, .inr fun other => ?_⟩
      · simp [follow_stop e, h]
      · rw [List.singleton_append, follow_stop e, follow_stop e]
    · obtain ⟨examined, more, rfl, he, hl⟩ :=
        ih ((scan.peek language c).take c.utf8Size step) (by simp [h])
      refine ⟨c :: examined, more, rfl, ?_, hl.imp id fun hl other => ?_⟩
      · rw [follow_step e, he]
        simp [Nat.add_assoc]
      · rw [List.cons_append, follow_step e, follow_step e, hl other]

/-- A token starts and ends in front of the cursor, and the cursor is within what was examined. -/
structure Bounded (scan : Scan) : Prop where
  start : scan.tokenStart ≤ scan.cursor
  cursor : scan.cursor ≤ scan.examined
  accepted : ∀ {symbol stop}, scan.accepted = some (symbol, stop) →
    scan.tokenStart ≤ stop ∧ stop ≤ scan.cursor

theorem Bounded.visit {scan : Scan} (h : Bounded scan) : Bounded (scan.visit language) where
  start := by simpa using h.start
  cursor := by simpa using h.cursor
  accepted {symbol stop} e := by
    rw [visit_accepted] at e
    rw [visit_tokenStart, visit_cursor]
    split at e
    · simp only [Option.some.injEq, Prod.mk.injEq] at e
      have := h.start
      omega
    · exact h.accepted e

theorem Bounded.take {scan : Scan} (h : Bounded scan) {width : Nat}
    (hw : scan.cursor + width ≤ scan.examined) (step : LexStep) :
    Bounded (scan.take width step) := by
  cases step with
  | advance target =>
    refine ⟨Nat.le_trans h.start (Nat.le_add_right ..), hw, fun e => ?_⟩
    have := h.accepted e
    simp only [Scan.take]
    omega
  | skip target => exact ⟨Nat.le_refl _, hw, fun e => by simp [Scan.take] at e⟩

theorem Bounded.peek {scan : Scan} (h : Bounded scan) (c : Char) :
    Bounded (scan.peek language c) where
  start := h.visit.start
  cursor := Nat.le_trans h.visit.cursor (Nat.le_max_left ..)
  accepted := h.visit.accepted

theorem Bounded.follow {scan : Scan} (h : Bounded scan) (text : Text) :
    Bounded (scan.follow language text) := by
  refine follow_invariant (I := Bounded) (fun scan c step h _ => ?_) (fun scan c h _ => h.peek c)
    (fun scan h => ?_) h text
  · exact (h.peek c).take (by rw [peek_cursor, peek_examined]; exact Nat.le_max_right ..) step
  · rcases e : (language.lexState scan.state).atEnd with - | step
    · rw [follow_end e]
      exact h.visit
    · rw [follow_atEnd e]
      have visited : Bounded (scan.visit language) := h.visit
      exact (visited.take (by simpa using h.cursor) step).visit

theorem bounded_follow (language : Language) (mode : LexStateId) (text : Text) :
    Bounded (Scan.follow language { state := mode } text) :=
  Bounded.follow ⟨Nat.le_refl _, Nat.le_refl _, fun none => by cases none⟩ text

/-- A scan from the start of a text examines no more than there is. -/
theorem examined_le (language : Language) (mode : LexStateId) (text : Text) :
    (Scan.follow language { state := mode } text).examined ≤ Text.size text := by
  obtain ⟨examined, rest, rfl, he, -⟩ := follow_local language text { state := mode } rfl
  rw [he, Text.size_append, Nat.zero_add]
  exact Nat.le_add_right ..

/-! ### What a token tells of its scan -/

/-- A token that has the lengths that a scan measured, none of them cut. -/
structure Measures (scan : Scan) (lexeme : Lexeme) : Prop where
  start : scan.tokenStart = lexeme.padding
  accepted : scan.accepted = some (lexeme.symbol, lexeme.padding + lexeme.size)
  examined : scan.examined = lexeme.padding + lexeme.size + lexeme.lookahead

/-- A token with what it depends on takes up no more than was examined. -/
theorem Bounded.lexeme?_le {scan : Scan} (h : Bounded scan) {lexeme : Lexeme}
    (found : scan.lexeme? = some lexeme) :
    lexeme.padding + lexeme.size + lexeme.lookahead ≤ scan.examined := by
  obtain ⟨⟨symbol, stop⟩, accepted, rfl⟩ := Option.map_eq_some_iff.mp found
  have := h.accepted accepted
  have := h.cursor
  have := Span.lowBits_le scan.tokenStart
  have := Span.lowBits_le (stop - scan.tokenStart)
  have := Span.lowBits_le (scan.examined - stop)
  dsimp only
  omega

/-- Below four gigabytes the token has what the scan measured. -/
theorem Bounded.measures {scan : Scan} (h : Bounded scan) (small : scan.examined < UInt32.size)
    {lexeme : Lexeme} (found : scan.lexeme? = some lexeme) : Measures scan lexeme := by
  obtain ⟨⟨symbol, stop⟩, accepted, rfl⟩ := Option.map_eq_some_iff.mp found
  have := h.accepted accepted
  have := h.cursor
  have start : Span.lowBits scan.tokenStart = scan.tokenStart := Span.lowBits_of_lt (by omega)
  have size : Span.lowBits (stop - scan.tokenStart) = stop - scan.tokenStart :=
    Span.lowBits_of_lt (by omega)
  have lookahead : Span.lowBits (scan.examined - stop) = scan.examined - stop :=
    Span.lowBits_of_lt (by omega)
  refine ⟨start.symm, ?_, ?_⟩
  · dsimp only
    rw [start, size, accepted, Nat.add_sub_of_le (by omega)]
  · dsimp only
    omega

/-- A token of a text with what it depends on takes up no more than there is. -/
theorem lexeme?_le {text : Text} {mode : LexStateId} {lexeme : Lexeme}
    (h : (Scan.follow language { state := mode } text).lexeme? = some lexeme) :
    lexeme.padding + lexeme.size + lexeme.lookahead ≤ Text.size text :=
  Nat.le_trans ((bounded_follow language mode text).lexeme?_le h) (examined_le language mode text)

/-- The token of a text below four gigabytes has what the scan measured. -/
theorem measures_of_lexeme? {text : Text} (small : Text.size text < UInt32.size)
    {mode : LexStateId} {lexeme : Lexeme}
    (h : (Scan.follow language { state := mode } text).lexeme? = some lexeme) :
    Measures (Scan.follow language { state := mode } text) lexeme :=
  (bounded_follow language mode text).measures
    (Nat.lt_of_le_of_lt (examined_le language mode text) small) h

/-- A token with text behind all that it depends on is found again where the text differs only
behind that, even if nothing is left there. -/
theorem lexeme?_local {front more : Text} (small : Text.size (front ++ more) < UInt32.size)
    {mode : LexStateId} {lexeme : Lexeme}
    (h : (Scan.follow language { state := mode } (front ++ more)).lexeme? = some lexeme)
    (inside : lexeme.padding + lexeme.size + lexeme.lookahead < Text.size (front ++ more))
    (short : lexeme.padding + lexeme.size + lexeme.lookahead ≤ Text.size front) (other : Text) :
    (Scan.follow language { state := mode } (front ++ other)).lexeme? = some lexeme := by
  have extent := (measures_of_lexeme? small h).examined
  obtain ⟨examined, rest, split, size, same⟩ :=
    follow_local language (front ++ more) { state := mode } rfl
  rw [Nat.zero_add] at size
  have goesOn : rest ≠ [] := by
    rintro rfl
    rw [split, List.append_nil] at inside
    omega
  -- what was examined ends within the text that stays
  have within : ∃ behind, front = examined ++ behind := by
    rcases List.append_eq_append_iff.mp split with ⟨behind, rfl, -⟩ | ⟨behind, rfl, -⟩
    · rw [Text.size_append] at size
      have none : Text.size behind = 0 := by omega
      obtain rfl := Text.size_eq_zero_iff.mp none
      exact ⟨[], by simp⟩
    · exact ⟨behind, rfl⟩
  obtain ⟨behind, rfl⟩ := within
  have found := same.resolve_left goesOn (behind ++ other)
  rw [← List.append_assoc] at found
  rw [found, h]

end Reparse.Scan
