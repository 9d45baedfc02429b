/-
Reparse/Proofs/Wire/Written.lean

What is written is read again.

A format is faithful to a value if what it writes for the value says the value
to its reader.  Numbers that fit into their groups are told faithfully, and so
are tags and characters; a text or a list is if its length can be written and
all that is in it is told faithfully.  So nothing but a list or a text that is
too long for its length stands in the way of a grammar: `faithful_grammar`.
-/
import Reparse.Proofs.Wire.Delimited

namespace Reparse

namespace Wire

variable {α β : Type}

/-- The first length of a list or a text that 64 bits cannot hold. -/
def lengthLimit : Nat := 0x10000000000000000

/-- A reader that takes nothing more. -/
theorem Says.bind_nil {first : Reader α} {next : α → Reader β} {used : Bytes} {a : α} {b : β}
    (h : Says first used a) (h' : Says (next a) [] b) : Says (first >>= next) used b := by
  rw [← List.append_nil used]
  exact h.bind h'

theorem Says.map {reader : Reader α} {used : Bytes} {a : α} (h : Says reader used a) (f : α → β) :
    Says (do return f (← reader) : Reader β) used (f a) :=
  h.bind_nil (says_pure (f a))

namespace Format

/-- What the format writes for a value is read as that value. -/
def Faithful (format : Format α) (a : α) : Prop :=
  Says format.read (format.write a) a

theorem faithful_imap {format : Format α} {make : α → β} {split : β → α} {b : β}
    (h : format.Faithful (split b)) (same : make (split b) = b) :
    (format.imap make split).Faithful b := by
  have made := h.map make
  rw [same, ← read_imap] at made
  exact made

/-! ### Numbers -/

theorem faithful_byte (b : UInt8) : byte.Faithful b := says_byte b

/-- The first number that takes more than `groups` groups and one more, of which
the last is at most `lastMax`. -/
def groupLimit (lastMax : Nat) : Nat → Nat
  | 0 => lastMax + 1
  | groups + 1 => 128 * groupLimit lastMax groups

theorem says_writeGroups {lastMax : Nat} (h : lastMax < 128) (groups n : Nat)
    (fits : n < groupLimit lastMax groups) :
    Says (readGroups lastMax (groups + 1)) (writeGroups (groups + 1) n) n := by
  rw [readGroups_succ, writeGroups]
  split
  · rename_i small
    have value : (UInt8.ofNat n).toNat = n := by
      rw [UInt8.toNat_ofNat']
      omega
    refine (says_byte (UInt8.ofNat n)).bind_nil ?_
    rw [value, if_pos small, if_neg]
    · exact says_pure n
    · rintro ⟨rfl, exceeds⟩
      rw [groupLimit] at fits
      omega
  · rename_i large
    cases groups with
    | zero =>
      rw [groupLimit] at fits
      omega
    | succ groups =>
      -- the high groups are read by what may still be read behind the low one
      rw [groupLimit] at fits
      have value : (UInt8.ofNat (n % 128 + 128)).toNat = n % 128 + 128 := by
        rw [UInt8.toNat_ofNat']
        omega
      have high := (says_writeGroups h groups (n / 128) (by omega)).map
        fun high => n % 128 + 128 - 128 + 128 * high
      have parts : n % 128 + 128 - 128 + 128 * (n / 128) = n := by omega
      rw [parts] at high
      refine (says_byte (UInt8.ofNat (n % 128 + 128))).bind ?_
      rw [value, if_neg (by omega)]
      exact high

theorem faithful_variant {n : Nat} (h : n < 0x100000000) : variant.Faithful n :=
  says_writeGroups (by decide) 4 n h

theorem faithful_length {n : Nat} (h : n < lengthLimit) : length.Faithful n :=
  says_writeGroups (by decide) 9 n h

theorem faithful_word (n : UInt16) : word.Faithful n :=
  faithful_imap (says_writeGroups (by decide) 2 n.toNat n.toNat_lt) UInt16.ofNat_toNat

/-! ### Tags -/

theorem faithful_bool (b : Bool) : bool.Faithful b := by
  rw [Faithful, read_bool]
  cases b with
  | false => exact (says_byte 0).bind_nil (says_pure false)
  | true => exact (says_byte 1).bind_nil (says_pure true)

theorem faithful_option {format : Format α} {value : Option α}
    (h : ∀ a ∈ value, format.Faithful a) : (option format).Faithful value := by
  rw [Faithful, read_option]
  cases value with
  | none => exact (says_byte 0).bind_nil (says_pure none)
  | some a => exact (says_byte 1).bind ((h a rfl).map some)

/-! ### Sequences -/

theorem faithful_pair {first : Format α} {second : Format β} {a : α} {b : β}
    (h : first.Faithful a) (h' : second.Faithful b) : (first.pair second).Faithful (a, b) := by
  rw [Faithful, read_pair]
  exact h.bind (h'.map (Prod.mk a))

/-- The values of a row, one after the other, say the row behind what was read before. -/
theorem says_flatMap {format : Format α} {values : List α} (h : ∀ a ∈ values, format.Faithful a)
    (done : List α) :
    Says (readMany format values.length done) (values.flatMap format.write)
      (done.reverse ++ values) := by
  induction values generalizing done with
  | nil =>
    rw [List.append_nil]
    exact says_pure done.reverse
  | cons a values ih =>
    have rest := ih (fun b within => h b (List.mem_cons_of_mem a within)) (a :: done)
    rw [List.reverse_cons, List.append_assoc, List.singleton_append] at rest
    rw [List.length_cons, readMany_succ, List.flatMap_cons]
    exact (h a List.mem_cons_self).bind rest

theorem faithful_list {format : Format α} {values : List α} (short : values.length < lengthLimit)
    (h : ∀ a ∈ values, format.Faithful a) : (list format).Faithful values := by
  rw [Faithful, read_list]
  exact (faithful_length short).bind (says_flatMap h [])

theorem says_takeBytes (bytes : Bytes) : Says (takeBytes bytes.length) bytes bytes := by
  induction bytes with
  | nil => exact says_pure []
  | cons b bytes ih =>
    rw [List.length_cons, takeBytes_succ]
    exact (says_byte b).bind (ih.map (b :: ·))

/-! ### Text -/

theorem ofUtf8?_utf8 (t : String) : ofUtf8? (utf8 t) = some t := by
  rw [ofUtf8?, utf8, Array.toArray_toList, String.fromUTF8?]
  exact dif_pos t.isValidUTF8

theorem length_utf8 (t : String) : (utf8 t).length = t.utf8ByteSize := rfl

theorem faithful_text {t : String} (short : t.utf8ByteSize < lengthLimit) : text.Faithful t := by
  rw [Faithful, read_text]
  refine (faithful_length short).bind ?_
  refine (says_takeBytes (utf8 t)).bind_nil ?_
  rw [ofUtf8?_utf8]
  exact says_pure t

theorem faithful_char (c : Char) : char.Faithful c := by
  have size : (utf8 (String.singleton c)).length ≤ 4 := by
    rw [length_utf8, String.utf8ByteSize_singleton]
    exact c.utf8Size_le_four
  have short : (utf8 (String.singleton c)).length < lengthLimit :=
    Nat.lt_of_le_of_lt size (by decide)
  rw [Faithful, read_char]
  refine (faithful_length short).bind ?_
  rw [if_neg (by omega)]
  refine (says_takeBytes (utf8 (String.singleton c))).bind_nil ?_
  rw [ofUtf8?_utf8, Option.bind_some, String.toList_singleton]
  exact says_pure c

/-! ### Variants -/

theorem faithful_lexStep (step : LexStep) : lexStep.Faithful step := by
  rw [Faithful, read_lexStep]
  cases step with
  | advance target =>
    exact (faithful_variant (n := 0) (by decide)).bind ((faithful_word target).map LexStep.advance)
  | skip target =>
    exact (faithful_variant (n := 1) (by decide)).bind ((faithful_word target).map LexStep.skip)

theorem faithful_parseAction (action : ParseAction) : parseAction.Faithful action := by
  rw [Faithful, read_parseAction]
  cases action with
  | shift target =>
    exact (faithful_variant (n := 0) (by decide)).bind ((faithful_word target).map ParseAction.shift)
  | reduce symbol count =>
    exact (faithful_variant (n := 1) (by decide)).bind
      ((faithful_word symbol).bind ((says_byte count).map (ParseAction.reduce symbol)))
  | accept =>
    exact (faithful_variant (n := 2) (by decide)).bind_nil (says_pure ParseAction.accept)
  | recover =>
    exact (faithful_variant (n := 3) (by decide)).bind_nil (says_pure ParseAction.recover)

end Format

end Wire

/-! ### Grammars -/

open Wire

/-- The name of a symbol is not too long for its length. -/
def SymbolInfo.Writable (info : SymbolInfo) : Prop :=
  info.name.utf8ByteSize < lengthLimit

/-- No list in a lex state is too long for its length. -/
structure LexState.Writable (state : LexState) : Prop where
  transitions : state.transitions.length < lengthLimit
  ranges : ∀ transition ∈ state.transitions, transition.chars.ranges.length < lengthLimit

/-- No list in a parse state is too long for its length. -/
structure ParseState.Writable (state : ParseState) : Prop where
  actions : state.actions.length < lengthLimit
  gotos : state.gotos.length < lengthLimit

/-- No text and no list in a grammar is too long for its length. -/
structure Grammar.Writable (grammar : Grammar) : Prop where
  name : grammar.name.utf8ByteSize < lengthLimit
  symbols : grammar.symbols.length < lengthLimit
  lexStates : grammar.lexStates.length < lengthLimit
  parseStates : grammar.parseStates.length < lengthLimit
  eachSymbol : ∀ info ∈ grammar.symbols, info.Writable
  eachLexState : ∀ state ∈ grammar.lexStates, state.Writable
  eachParseState : ∀ state ∈ grammar.parseStates, state.Writable

namespace Wire.Format

theorem faithful_symbolInfo {info : SymbolInfo} (h : info.Writable) : symbolInfo.Faithful info :=
  faithful_imap (faithful_pair (faithful_text h) (faithful_byte info.flags.bits)) rfl

theorem faithful_transition {transition : Transition}
    (short : transition.chars.ranges.length < lengthLimit) :
    Format.transition.Faithful transition := by
  have ranges : (list (char.pair char)).Faithful transition.chars.ranges :=
    faithful_list short fun range _ => faithful_pair (faithful_char range.1) (faithful_char range.2)
  have chars : charSet.Faithful transition.chars :=
    faithful_imap (faithful_pair ranges (faithful_bool transition.chars.negated)) rfl
  exact faithful_imap (faithful_pair chars (faithful_lexStep transition.step)) rfl

theorem faithful_lexState {state : LexState} (h : state.Writable) :
    lexState.Faithful state := by
  have accept : (option word).Faithful state.accept :=
    faithful_option fun symbol _ => faithful_word symbol
  have atEnd : (option lexStep).Faithful state.atEnd :=
    faithful_option fun step _ => faithful_lexStep step
  have transitions : (list transition).Faithful state.transitions :=
    faithful_list h.transitions fun transition within =>
      faithful_transition (h.ranges transition within)
  exact faithful_imap (faithful_pair accept (faithful_pair atEnd transitions)) rfl

theorem faithful_parseState {state : ParseState} (h : state.Writable) :
    parseState.Faithful state := by
  have actions : (list (word.pair parseAction)).Faithful state.actions :=
    faithful_list h.actions fun entry _ =>
      faithful_pair (faithful_word entry.1) (faithful_parseAction entry.2)
  have gotos : (list (word.pair word)).Faithful state.gotos :=
    faithful_list h.gotos fun entry _ => faithful_pair (faithful_word entry.1) (faithful_word entry.2)
  exact faithful_imap (faithful_pair (faithful_word state.lexState) (faithful_pair actions gotos)) rfl

/-- **What is written for a grammar is read as that grammar.** -/
theorem faithful_grammar {grammar : Grammar} (h : grammar.Writable) :
    Format.grammar.Faithful grammar := by
  have symbols : (list symbolInfo).Faithful grammar.symbols :=
    faithful_list h.symbols fun info within => faithful_symbolInfo (h.eachSymbol info within)
  have lexStates : (list lexState).Faithful grammar.lexStates :=
    faithful_list h.lexStates fun state within => faithful_lexState (h.eachLexState state within)
  have parseStates : (list parseState).Faithful grammar.parseStates :=
    faithful_list h.parseStates fun state within => faithful_parseState (h.eachParseState state within)
  exact faithful_imap
    (faithful_pair (faithful_text h.name)
      (faithful_pair (faithful_word grammar.tokenCount)
        (faithful_pair symbols (faithful_pair lexStates parseStates)))) rfl

end Wire.Format

end Reparse
