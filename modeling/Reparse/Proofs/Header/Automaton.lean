/-
Reparse/Proofs/Header/Automaton.lean

The lexer automaton of the header grammar, state by state.

Each lex state is read off the table once, as the step it takes on a
character; `scope` and `finds` say where a scan from a lex mode can go and what
it can find there.
-/
import Reparse.Document
import Reparse.Proofs.Lexeme.Found

namespace Reparse

/-! ### Characters -/

theorem char_eq_iff {c d : Char} : c = d ↔ c.toNat = d.toNat := by
  rw [Char.ext_iff, ← UInt32.toNat_inj]
  rfl

theorem char_le_iff {c d : Char} : c ≤ d ↔ c.toNat ≤ d.toNat := by
  rw [Char.le_def, UInt32.le_iff_toNat_le]
  rfl

theorem CharSet.contains_one (c d : Char) : (one d).contains c = decide (c = d) := by
  rw [Bool.eq_iff_iff]
  simp [contains, one, range, char_eq_iff, char_le_iff]
  omega

theorem CharSet.contains_complement (set : CharSet) (c : Char) :
    set.complement.contains c = !set.contains c := by
  simp only [contains, complement]
  cases set.negated <;> simp

/-! ### Steps of a lex state -/

theorem LexState.step?_nil (accept : Option Symbol) (atEnd : Option LexStep) (c : Char) :
    step? ⟨accept, atEnd, []⟩ c = none := rfl

theorem LexState.step?_cons (accept : Option Symbol) (atEnd : Option LexStep)
    (transition : Transition) (transitions : List Transition) (c : Char) :
    step? ⟨accept, atEnd, transition :: transitions⟩ c =
      if transition.chars.contains c then some transition.step
      else step? ⟨accept, atEnd, transitions⟩ c := by
  simp only [step?, List.find?_cons]
  split <;> simp_all

theorem LexState.mem_of_step? {state : LexState} {c : Char} {step : LexStep}
    (h : state.step? c = some step) : step ∈ state.transitions.map (·.step) := by
  obtain ⟨transition, found, rfl⟩ := Option.map_eq_some_iff.mp h
  exact List.mem_map_of_mem (List.mem_of_find?_eq_some found)

namespace Header

/-- What holds of all entries of a table is decided along the list of them,
not by going through all values of their type. -/
instance (priority := 1100) decidableForallMem {α : Type} (p : α → Prop) [DecidablePred p]
    (entries : List α) : Decidable (∀ entry, entry ∈ entries → p entry) :=
  List.decidableBAll p entries

instance (priority := 1100) decidableExistsMem {α : Type} (p : α → Prop) [DecidablePred p]
    (entries : List α) : Decidable (∃ entry, entry ∈ entries ∧ p entry) :=
  List.decidableBEx p entries

/-- The control characters among the blanks. -/
def isTab (c : Char) : Bool :=
  c = '\t' || c = '\x0b' || c = '\x0c' || c = '\r'

/-- White space other than the newline. -/
def isBlank (c : Char) : Bool :=
  isTab c || c = ' '

def isSpace (c : Char) : Bool :=
  isBlank c || c = '\n'

theorem contains_whitespace (c : Char) : whitespace.contains c = isSpace c := by
  rw [Bool.eq_iff_iff]
  simp [CharSet.contains, whitespace, CharSet.range, CharSet.withChar, CharSet.withRange, isSpace,
    isBlank, isTab, char_eq_iff, char_le_iff]
  omega

theorem contains_blank (c : Char) : blank.contains c = isBlank c := by
  rw [Bool.eq_iff_iff]
  simp [CharSet.contains, blank, CharSet.one, CharSet.range, CharSet.withChar, CharSet.withRange,
    isBlank, isTab, char_eq_iff, char_le_iff]
  omega

theorem contains_controls (c : Char) :
    (CharSet.range '\t' '\r').contains c = (isTab c || decide (c = '\n')) := by
  rw [Bool.eq_iff_iff]
  simp [CharSet.contains, CharSet.range, isTab, char_eq_iff, char_le_iff]
  omega

theorem contains_notNul (c : Char) : notNul.contains c = !decide (c = '\x00') := by
  rw [notNul, CharSet.contains_complement, CharSet.contains_one]

theorem contains_plain (c : Char) :
    plain.contains c = !(decide (c = '\x00') || isTab c || decide (c = '\n')) := by
  rw [plain, CharSet.contains_complement, Bool.eq_iff_iff]
  simp [CharSet.contains, CharSet.one, CharSet.range, CharSet.withRange, isTab, char_eq_iff,
    char_le_iff]
  omega

theorem contains_pair (c d e : Char) :
    (CharSet.of [d, e]).contains c = (decide (c = d) || decide (c = e)) := by
  rw [Bool.eq_iff_iff]
  simp [CharSet.contains, CharSet.of, char_eq_iff, char_le_iff]
  omega

/-! ### The states -/

section States

variable (c : Char)

theorem step?_0 : (language.lexState 0).step? c =
    if c = '\x00' then some (.advance 18) else if c = 'D' then some (.advance 11)
    else if c = '[' then some (.advance 24) else if c = ']' then some (.advance 27)
    else if isSpace c then some (.skip 14) else none := by
  rw [show language.lexState 0 =
    { atEnd := some (.advance 15)
      transitions := [⟨.one '\x00', .advance 18⟩, ⟨.one 'D', .advance 11⟩,
        ⟨.one '[', .advance 24⟩, ⟨.one ']', .advance 27⟩, ⟨whitespace, .skip 14⟩] } from rfl]
  simp only [LexState.step?_cons, LexState.step?_nil, CharSet.contains_one, contains_whitespace,
    decide_eq_true_eq]

theorem step?_1 : (language.lexState 1).step? c =
    if c = '\x00' then some (.advance 18) else if c = '\n' ∨ c = ' ' then some (.advance 17)
    else if isTab c then some (.skip 1) else none := by
  rw [show language.lexState 1 =
    { transitions := [⟨.one '\x00', .advance 18⟩, ⟨.of ['\n', ' '], .advance 17⟩,
        ⟨.range '\t' '\r', .skip 1⟩] } from rfl]
  simp only [LexState.step?_cons, LexState.step?_nil, CharSet.contains_one, contains_pair,
    contains_controls, Bool.or_eq_true, decide_eq_true_eq]
  split
  · rfl
  · split
    · rfl
    · simp_all

theorem step?_2 : (language.lexState 2).step? c =
    if c = '\n' then some (.advance 26) else if c = '[' then some (.advance 24)
    else if c = '\x00' then none else some (.advance 16) := by
  rw [show language.lexState 2 = { transitions := [⟨.one '\n', .advance 26⟩, ⟨.one '[', .advance 24⟩,
    ⟨whitespace, .advance 16⟩, ⟨notNul, .advance 16⟩] } from rfl]
  simp only [LexState.step?_cons, LexState.step?_nil, CharSet.contains_one, contains_whitespace,
    contains_notNul, decide_eq_true_eq]
  by_cases e : c = '\x00'
  · subst e
    rfl
  · simp [e]

theorem step?_3 : (language.lexState 3).step? c =
    if c = '\n' then some (.skip 3) else if c = 'D' then some (.advance 22)
    else if isBlank c then some (.advance 21) else if c = '\x00' then none
    else some (.advance 20) := by
  rw [show language.lexState 3 = { transitions := [⟨.one '\n', .skip 3⟩, ⟨.one 'D', .advance 22⟩,
    ⟨whitespace, .advance 21⟩, ⟨notNul, .advance 20⟩] } from rfl]
  simp only [LexState.step?_cons, LexState.step?_nil, CharSet.contains_one, contains_whitespace,
    contains_notNul, decide_eq_true_eq]
  by_cases e : c = '\x00'
  · subst e
    rfl
  · by_cases e' : c = '\n'
    · simp [e']
    · simp [e, e', isSpace]

theorem step?_4 : (language.lexState 4).step? c =
    if c = '\n' then some (.skip 5) else if c = ']' then some (.advance 27)
    else if isBlank c then some (.advance 23) else if c = '\x00' then none
    else some (.advance 20) := by
  rw [show language.lexState 4 = { transitions := [⟨.one '\n', .skip 5⟩, ⟨.one ']', .advance 27⟩,
    ⟨whitespace, .advance 23⟩, ⟨notNul, .advance 20⟩] } from rfl]
  simp only [LexState.step?_cons, LexState.step?_nil, CharSet.contains_one, contains_whitespace,
    contains_notNul, decide_eq_true_eq]
  by_cases e : c = '\x00'
  · subst e
    rfl
  · by_cases e' : c = '\n'
    · simp [e']
    · simp [e, e', isSpace]

theorem step?_5 : (language.lexState 5).step? c =
    if c = '\n' then some (.skip 5) else if isBlank c then some (.advance 23)
    else if c = '\x00' then none else some (.advance 20) := by
  rw [show language.lexState 5 = { transitions := [⟨.one '\n', .skip 5⟩, ⟨whitespace, .advance 23⟩,
    ⟨notNul, .advance 20⟩] } from rfl]
  simp only [LexState.step?_cons, LexState.step?_nil, CharSet.contains_one, contains_whitespace,
    contains_notNul, decide_eq_true_eq]
  by_cases e : c = '\x00'
  · subst e
    rfl
  · by_cases e' : c = '\n'
    · simp [e']
    · simp [e, e', isSpace]

theorem step?_6 : (language.lexState 6).step? c =
    if c = '\n' then some (.advance 28) else if c = '\x00' then none
    else some (.advance 16) := by
  rw [show language.lexState 6 = { transitions := [⟨.one '\n', .advance 28⟩,
    ⟨notNul, .advance 16⟩] } from rfl]
  simp only [LexState.step?_cons, LexState.step?_nil, CharSet.contains_one, contains_notNul,
    decide_eq_true_eq]
  by_cases e : c = '\x00'
  · subst e
    rfl
  · simp [e]

theorem step?_14 : (language.lexState 14).step? c =
    if c = '\x00' then some (.advance 18) else if c = 'D' then some (.advance 11)
    else if isSpace c then some (.skip 14) else none := by
  rw [show language.lexState 14 =
    { atEnd := some (.advance 15)
      transitions := [⟨.one '\x00', .advance 18⟩, ⟨.one 'D', .advance 11⟩,
        ⟨whitespace, .skip 14⟩] } from rfl]
  simp only [LexState.step?_cons, LexState.step?_nil, CharSet.contains_one, contains_whitespace,
    decide_eq_true_eq]

theorem step?_21 : (language.lexState 21).step? c =
    if c = 'D' then some (.advance 22) else if isBlank c then some (.advance 21)
    else if c = '\x00' ∨ c = '\n' then none else some (.advance 20) := by
  rw [show language.lexState 21 =
    { accept := some documentLiteralErrorToken
      transitions := [⟨.one 'D', .advance 22⟩, ⟨blank, .advance 21⟩,
        ⟨plain, .advance 20⟩] } from rfl]
  simp only [LexState.step?_cons, LexState.step?_nil, CharSet.contains_one, contains_blank,
    contains_plain, decide_eq_true_eq]
  split
  · rfl
  · split
    · rfl
    · simp_all [isBlank]
      by_cases e : c = '\x00' <;> simp [e]

/-- A state inside of a word. -/
theorem step?_letter {state : LexStateId} {d : Char} {target : LexStateId}
    (h : (language.lexState state).transitions = [⟨.one d, .advance target⟩]) :
    (language.lexState state).step? c = if c = d then some (.advance target) else none := by
  rw [LexState.step?, h, List.find?_singleton, CharSet.contains_one]
  by_cases e : c = d <;> simp [e]

end States

/-! ### Where a scan goes -/

/-- The lex states that a scan from a mode comes to. -/
def scope (mode : LexStateId) : List LexStateId :=
  match mode.toNat with
  | 0 => [0, 14, 15, 18, 24, 27, 11, 7, 13, 9, 8, 10, 12, 19]
  | 1 => [1, 17, 18]
  | 2 => [2, 16, 24, 25, 26]
  | 3 => [3, 20, 21, 22, 7, 13, 9, 8, 10, 12, 19]
  | 4 => [4, 5, 20, 23, 27]
  | 6 => [6, 16, 28]
  | _ => []

/-- The lex states that parse states read their lookahead in. -/
def modes : List LexStateId := [0, 1, 2, 3, 4, 6]

/-- The tokens of a mode. -/
def finds (mode : LexStateId) : List Symbol :=
  match mode.toNat with
  | 0 => [endSymbol, eof, documentLiteral, leftBracket, rightBracket]
  | 1 => [eof, trailingEndError]
  | 2 => [leftBracket, leftBracketError, documentErrorToken]
  | 3 => [documentLiteral, documentLiteralErrorToken]
  | 4 => [rightBracket, documentLiteralErrorToken]
  | 6 => [newlineCharacter, documentErrorToken]
  | _ => []

theorem mem_scope_step {mode state : LexStateId} (hm : mode ∈ modes) (h : state ∈ scope mode) :
    ∀ step ∈ (language.lexState state).transitions.map (·.step), step.target ∈ scope mode := by
  have all : ∀ mode ∈ modes, ∀ state ∈ scope mode,
      ∀ step ∈ (language.lexState state).transitions.map (·.step), step.target ∈ scope mode := by
    decide
  exact all mode hm state h

theorem mem_finds_of_accept {mode state : LexStateId} {symbol : Symbol} (hm : mode ∈ modes)
    (h : state ∈ scope mode) (accept : (language.lexState state).accept = some symbol) :
    symbol ∈ finds mode := by
  have all : ∀ mode ∈ modes, ∀ state ∈ scope mode,
      (language.lexState state).accept.all (· ∈ finds mode) = true := by
    decide
  simpa [accept] using all mode hm state h

theorem accept_of_skip {mode state target : LexStateId} (hm : mode ∈ modes)
    (h : state ∈ scope mode)
    (step : .skip target ∈ (language.lexState state).transitions.map (·.step)) :
    (language.lexState target).accept = none := by
  have all : ∀ mode ∈ modes, ∀ state ∈ scope mode,
      ∀ step ∈ (language.lexState state).transitions.map (·.step),
        step = .skip step.target → (language.lexState step.target).accept = none := by
    decide
  exact all mode hm state h _ step rfl

theorem accept_of_mode {mode : LexStateId} (hm : mode ∈ modes) :
    mode ∈ scope mode ∧ (language.lexState mode).accept = none := by
  have all : ∀ mode ∈ modes, mode ∈ scope mode ∧ (language.lexState mode).accept = none := by
    decide
  exact all mode hm

theorem atEnd_cases {mode state : LexStateId} (hm : mode ∈ modes) (h : state ∈ scope mode) :
    (language.lexState state).atEnd = none ∨
      ((language.lexState state).atEnd = some (.advance 15) ∧ endSymbol ∈ finds mode) := by
  have all : ∀ mode ∈ modes, ∀ state ∈ scope mode, (language.lexState state).atEnd = none ∨
      ((language.lexState state).atEnd = some (.advance 15) ∧ endSymbol ∈ finds mode) := by
    decide
  exact all mode hm state h

/-- A scan inside of the scope of its mode, with what it has accepted so far. -/
structure Within (mode : LexStateId) (scan : Scan) : Prop where
  state : scan.state ∈ scope mode
  start : scan.tokenStart ≤ scan.cursor
  /-- A state that accepts comes behind a character of the token. -/
  begun : (language.lexState scan.state).accept ≠ none → scan.tokenStart < scan.cursor
  accepted : ∀ {symbol stop}, scan.accepted = some (symbol, stop) →
    symbol ∈ finds mode ∧ scan.tokenStart < stop

theorem Within.noted {mode : LexStateId} (hm : mode ∈ modes) {scan : Scan} (h : Within mode scan)
    {symbol : Symbol} {stop : Nat}
    (e : Scan.noted language scan.state scan.cursor scan.accepted = some (symbol, stop)) :
    symbol ∈ finds mode ∧ scan.tokenStart < stop := by
  rw [Scan.noted] at e
  split at e
  · rename_i accept
    simp only [Option.some.injEq, Prod.mk.injEq] at e
    obtain ⟨rfl, rfl⟩ := e
    exact ⟨mem_finds_of_accept hm h.state accept, h.begun (by simp [accept])⟩
  · exact h.accepted e

theorem Within.step {mode : LexStateId} (hm : mode ∈ modes) {scan : Scan} (h : Within mode scan)
    {c : Char} {step : LexStep} (e : (language.lexState scan.state).step? c = some step) :
    Within mode ((scan.peek language c).take c.utf8Size step) := by
  have mem := LexState.mem_of_step? e
  have inner := mem_scope_step hm h.state step mem
  have width := c.utf8Size_pos
  have start := h.start
  cases step with
  | advance target =>
    refine ⟨by simpa using inner, ?_, fun _ => ?_, fun ha => ?_⟩
    · simp only [Scan.take, Scan.peek_tokenStart, Scan.peek_cursor]
      omega
    · simp only [Scan.take, Scan.peek_tokenStart, Scan.peek_cursor]
      omega
    · simp only [Scan.take, Scan.peek_tokenStart]
      exact h.noted hm ((Scan.accepted_visit scan).symm.trans ha)
  | skip target =>
    refine ⟨by simpa using inner, Nat.le_refl _, fun ha => ?_, fun ha => by simp [Scan.take] at ha⟩
    exact absurd (accept_of_skip hm h.state mem) ha

/-- **What a mode finds** is one of its tokens, and only the end is empty. -/
theorem found?_mem_finds {mode : LexStateId} (hm : mode ∈ modes) {text : Text} {symbol : Symbol}
    {padding size : Nat}
    (h : Scan.found? language { state := mode } text = some (symbol, padding, size)) :
    symbol ∈ finds mode ∧ (symbol = endSymbol ∨ 0 < size) := by
  have settled {scan : Scan} (hs : Within mode scan) {extent : Extent}
      (e : Scan.settle scan.tokenStart
        (Scan.noted language scan.state scan.cursor scan.accepted) = some extent) :
      extent.1 ∈ finds mode ∧ (extent.1 = endSymbol ∨ 0 < extent.2.2) := by
    obtain ⟨⟨symbol, stop⟩, found, rfl⟩ := Option.map_eq_some_iff.mp e
    have := hs.noted hm found
    refine ⟨this.1, .inr ?_⟩
    simp only
    omega
  have begin := accept_of_mode hm
  refine Scan.found?_good (I := Within mode)
    (G := fun extent => extent.1 ∈ finds mode ∧ (extent.1 = endSymbol ∨ 0 < extent.2.2))
    (fun scan c step hs e => hs.step hm e) (fun scan c extent hs _ e => settled hs e)
    (fun scan extent hs e => ?_)
    ⟨begin.1, Nat.le_refl _, fun ha => absurd begin.2 ha, fun ha => by simp at ha⟩ h
  rcases atEnd_cases hm hs.state with none | ⟨some, mem⟩
  · exact settled hs (by rwa [Scan.found?_end none] at e)
  · rw [Scan.found?_atEnd some] at e
    obtain ⟨⟨symbol, stop⟩, found, rfl⟩ := Option.map_eq_some_iff.mp e
    have : symbol = endSymbol := by
      rw [Scan.noted, show (language.lexState 15).accept = Option.some endSymbol from rfl] at found
      simp only [Option.some.injEq, Prod.mk.injEq] at found
      exact found.1.symm
    exact ⟨this ▸ mem, .inl this⟩

end Header

end Reparse
