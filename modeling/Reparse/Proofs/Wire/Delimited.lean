/-
Reparse/Proofs/Wire/Delimited.lean

Readers that find the end of what they read by themselves.

A reader takes bytes from the front and never looks at those behind them.  So
what it has read once it reads again whatever follows, and where the bytes
are cut short it runs out of them, for it cannot have come to anything wrong
before the cut (`Says`).  A single byte has this property, and readers in a
row have it if each of them does; so the reader of a whole grammar has it:
`delimits_grammar`.
-/
import Reparse.Proofs.Wire.Reader

namespace Reparse.Wire

variable {α β : Type}

/-! ### Bytes that say a value -/

/-- A reader takes these bytes for a value whatever follows them, and of any
shorter beginning it wants more. -/
structure Says (reader : Reader α) (used : Bytes) (a : α) : Prop where
  reads : ∀ rest, reader (used ++ rest) = .ok (a, rest)
  runsOut : ∀ cut, cut <+: used → cut ≠ used → reader cut = .error .endOfInput

theorem says_pure (a : α) : Says (pure a : Reader α) [] a where
  reads _ := rfl
  runsOut _ beginning shorter := absurd (List.prefix_nil.mp beginning) shorter

theorem says_byte (b : UInt8) : Says Format.byte.read [b] b where
  reads _ := rfl
  runsOut cut beginning shorter := by
    cases cut with
    | nil => rfl
    | cons c cut =>
      obtain ⟨rfl, more⟩ := List.cons_prefix_cons.mp beginning
      exact absurd (by rw [List.prefix_nil.mp more]) shorter

/-- What two readers in a row are told, one after the other. -/
theorem Says.bind {first : Reader α} {next : α → Reader β} {used more : Bytes} {a : α} {b : β}
    (h : Says first used a) (h' : Says (next a) more b) :
    Says (first >>= next) (used ++ more) b where
  reads rest := by
    rw [List.append_assoc, Reader.bind_of_ok (h.reads (more ++ rest))]
    exact h'.reads rest
  runsOut cut beginning shorter := by
    by_cases inside : cut <+: used ∧ cut ≠ used
    · exact Reader.bind_of_error (h.runsOut cut inside.1 inside.2) next
    · -- the first reader gets all that it wants
      obtain ⟨left, rfl⟩ : used <+: cut := by
        rcases List.prefix_or_prefix_of_prefix beginning (List.prefix_append used more) with
          within | beyond
        · have same : cut = used := Decidable.byContradiction fun other => inside ⟨within, other⟩
          exact same ▸ List.prefix_rfl
        · exact beyond
      rw [Reader.bind_of_ok (h.reads left)]
      exact h'.runsOut left ((List.prefix_append_right_inj used).mp beginning)
        fun same => shorter (by rw [same])

/-! ### Readers that delimit -/

/-- All that a reader takes says what it gives. -/
def Delimits (reader : Reader α) : Prop :=
  ∀ bytes a rest, reader bytes = .ok (a, rest) →
    ∃ used, bytes = used ++ rest ∧ Says reader used a

theorem delimits_pure (a : α) : Delimits (pure a : Reader α) :=
  yields_pure (says_pure a)

theorem delimits_throw (e : ReadError) : Delimits (throw e : Reader α) :=
  yields_throw _ e

theorem delimits_byte : Delimits Format.byte.read :=
  yields_byte.mono fun b _ only => only ▸ says_byte b

theorem Delimits.bind {first : Reader α} {next : α → Reader β} (h : Delimits first)
    (h' : ∀ a, Delimits (next a)) : Delimits (first >>= next) :=
  Yields.bind h fun a _ told => Yields.mono (h' a) fun _ _ told' => told.bind told'

theorem Delimits.map {reader : Reader α} (h : Delimits reader) (f : α → β) :
    Delimits (do return f (← reader) : Reader β) :=
  h.bind fun a => delimits_pure (f a)

/-! ### Formats -/

namespace Format

theorem delimits_imap {format : Format α} (h : Delimits format.read) (make : α → β)
    (split : β → α) : Delimits (format.imap make split).read := by
  rw [read_imap]
  exact h.map make

theorem delimits_readGroups (lastMax groups : Nat) : Delimits (readGroups lastMax groups) := by
  induction groups with
  | zero => exact delimits_throw .badVarint
  | succ groups ih =>
    rw [readGroups_succ]
    refine delimits_byte.bind fun b => ?_
    split
    · split
      · exact delimits_throw .badVarint
      · exact delimits_pure b.toNat
    · exact ih.map _

theorem delimits_length : Delimits length.read := delimits_readGroups 1 10

theorem delimits_variant : Delimits variant.read := delimits_readGroups 15 5

theorem delimits_word : Delimits word.read := delimits_imap (delimits_readGroups 3 3) _ _

theorem delimits_bool : Delimits bool.read := by
  rw [read_bool]
  refine delimits_byte.bind fun b => ?_
  split
  · exact delimits_pure false
  · split
    · exact delimits_pure true
    · exact delimits_throw .badBool

theorem delimits_option {format : Format α} (h : Delimits format.read) :
    Delimits (option format).read := by
  rw [read_option]
  refine delimits_byte.bind fun b => ?_
  split
  · exact delimits_pure none
  · split
    · exact h.map some
    · exact delimits_throw .badOption

theorem delimits_pair {first : Format α} {second : Format β} (h : Delimits first.read)
    (h' : Delimits second.read) : Delimits (first.pair second).read := by
  rw [read_pair]
  exact h.bind fun a => h'.map (Prod.mk a)

theorem delimits_readMany {format : Format α} (h : Delimits format.read) (n : Nat)
    (done : List α) : Delimits (readMany format n done) := by
  induction n generalizing done with
  | zero => exact delimits_pure done.reverse
  | succ n ih =>
    rw [readMany_succ]
    exact h.bind fun a => ih (a :: done)

theorem delimits_list {format : Format α} (h : Delimits format.read) :
    Delimits (list format).read := by
  rw [read_list]
  exact delimits_length.bind fun n => delimits_readMany h n []

theorem delimits_takeBytes (n : Nat) : Delimits (takeBytes n) := by
  induction n with
  | zero => exact delimits_pure []
  | succ n ih =>
    rw [takeBytes_succ]
    exact delimits_byte.bind fun b => ih.map (b :: ·)

theorem delimits_text : Delimits text.read := by
  rw [read_text]
  refine delimits_length.bind fun n => (delimits_takeBytes n).bind fun taken => ?_
  rcases ofUtf8? taken with - | t
  · exact delimits_throw .badText
  · exact delimits_pure t

theorem delimits_char : Delimits char.read := by
  rw [read_char]
  refine delimits_length.bind fun n => ?_
  split
  · exact delimits_throw .badChar
  · refine (delimits_takeBytes n).bind fun taken => ?_
    rcases (ofUtf8? taken).bind (·.toList.head?) with - | c
    · exact delimits_throw .badChar
    · exact delimits_pure c

theorem delimits_lexStep : Delimits lexStep.read := by
  rw [read_lexStep]
  refine delimits_variant.bind fun n => ?_
  match n with
  | 0 => exact delimits_word.map LexStep.advance
  | 1 => exact delimits_word.map LexStep.skip
  | _ + 2 => exact delimits_throw .badVariant

theorem delimits_parseAction : Delimits parseAction.read := by
  rw [read_parseAction]
  refine delimits_variant.bind fun n => ?_
  match n with
  | 0 => exact delimits_word.map ParseAction.shift
  | 1 => exact delimits_word.bind fun symbol => delimits_byte.map (ParseAction.reduce symbol)
  | 2 => exact delimits_pure ParseAction.accept
  | 3 => exact delimits_pure ParseAction.recover
  | _ + 4 => exact delimits_throw .badVariant

/-! ### Grammars -/

theorem delimits_symbolInfo : Delimits symbolInfo.read :=
  delimits_imap (delimits_pair delimits_text delimits_byte) _ _

theorem delimits_charSet : Delimits charSet.read :=
  delimits_imap
    (delimits_pair (delimits_list (delimits_pair delimits_char delimits_char)) delimits_bool) _ _

theorem delimits_transition : Delimits transition.read :=
  delimits_imap (delimits_pair delimits_charSet delimits_lexStep) _ _

theorem delimits_lexState : Delimits lexState.read :=
  delimits_imap
    (delimits_pair (delimits_option delimits_word)
      (delimits_pair (delimits_option delimits_lexStep) (delimits_list delimits_transition))) _ _

theorem delimits_parseState : Delimits parseState.read :=
  delimits_imap
    (delimits_pair delimits_word
      (delimits_pair (delimits_list (delimits_pair delimits_word delimits_parseAction))
        (delimits_list (delimits_pair delimits_word delimits_word)))) _ _

/-- **The reader of a grammar finds the end of the grammar.** -/
theorem delimits_grammar : Delimits grammar.read :=
  delimits_imap
    (delimits_pair delimits_text
      (delimits_pair delimits_word
        (delimits_pair (delimits_list delimits_symbolInfo)
          (delimits_pair (delimits_list delimits_lexState)
            (delimits_list delimits_parseState))))) _ _

end Format

end Reparse.Wire
