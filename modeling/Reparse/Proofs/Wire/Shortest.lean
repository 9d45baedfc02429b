/-
Reparse/Proofs/Wire/Shortest.lean

What is written is the shortest that is read as the value.

A reader takes more forms of a value than the one that is written for it: the
high groups of a number may be zeros, and there may be characters behind the
one that is wanted.  Each of them adds bytes.  So whatever bytes a value was
read from, its written form is shorter or the very same (`NoLonger`), and as
that holds part by part it holds of a whole grammar: `frugal_grammar`.  What is
read also fits into its format, so it can be written and read again.
-/
import Reparse.Proofs.Wire.Written

namespace Reparse

namespace Wire

variable {α β : Type}

/-! ### Lengths -/

/-- Bytes that are fewer than others, or the same. -/
def NoLonger (short long : Bytes) : Prop :=
  short.length < long.length ∨ short = long

theorem NoLonger.length_le {short long : Bytes} (h : NoLonger short long) :
    short.length ≤ long.length := by
  rcases h with fewer | same
  · exact Nat.le_of_lt fewer
  · exact Nat.le_of_eq (congrArg List.length same)

theorem NoLonger.eq_of_length {short long : Bytes} (h : NoLonger short long)
    (same : short.length = long.length) : short = long :=
  h.resolve_left (Nat.not_lt_of_le (Nat.le_of_eq same.symm))

theorem NoLonger.append {short long short' long' : Bytes} (h : NoLonger short long)
    (h' : NoLonger short' long') : NoLonger (short ++ short') (long ++ long') := by
  have front := h.length_le
  have back := h'.length_le
  by_cases same : short.length = long.length ∧ short'.length = long'.length
  · exact .inr (by rw [h.eq_of_length same.1, h'.eq_of_length same.2])
  · refine .inl ?_
    rw [List.length_append, List.length_append]
    omega

theorem NoLonger.cons {short long : Bytes} (b : UInt8) (h : NoLonger short long) :
    NoLonger (b :: short) (b :: long) :=
  NoLonger.append (.inr (rfl : [b] = [b])) h

/-! ### Formats -/

namespace Format

/-- What the format reads fits, and what it writes for it is no longer than what
it was read from. -/
def Frugal (format : Format α) (fits : α → Prop) : Prop :=
  Yields format.read fun a used => NoLonger (format.write a) used ∧ fits a

theorem Frugal.mono {format : Format α} {fits fits' : α → Prop} (h : format.Frugal fits)
    (imp : ∀ a, fits a → fits' a) : format.Frugal fits' :=
  Yields.mono h fun a _ fact => ⟨fact.1, imp a fact.2⟩

theorem frugal_imap {format : Format α} {fits : α → Prop} {make : α → β} {split : β → α}
    (h : format.Frugal fits) (same : ∀ a, fits a → split (make a) = a) :
    (format.imap make split).Frugal fun b => fits (split b) := by
  rw [Frugal, read_imap]
  refine Yields.map h fun a used fact => ?_
  show NoLonger (format.write (split (make a))) used ∧ fits (split (make a))
  rw [same a fact.2]
  exact fact

theorem frugal_byte : byte.Frugal fun _ => True :=
  yields_byte.mono fun _ _ used => ⟨.inr used.symm, trivial⟩

/-! ### Numbers -/

/-- A group that is put in front of a number that was read from longer groups. -/
theorem noLonger_writeGroups_succ {groups high : Nat} {b : UInt8} {used : Bytes}
    (more : 128 ≤ b.toNat) (h : NoLonger (writeGroups (groups + 1) high) used) :
    NoLonger (writeGroups (groups + 2) (b.toNat - 128 + 128 * high)) (b :: used) := by
  have bound := b.toNat_lt
  rw [writeGroups]
  split
  · -- the groups behind say zero, so the number needs none of them
    rename_i small
    obtain rfl : high = 0 := by omega
    have some : 1 ≤ used.length := h.length_le
    exact .inl (Nat.succ_le_succ some)
  · have low : (b.toNat - 128 + 128 * high) % 128 + 128 = b.toNat := by omega
    have rest : (b.toNat - 128 + 128 * high) / 128 = high := by omega
    rw [low, rest, UInt8.ofNat_toNat]
    exact h.cons b

theorem groupLimit_pos (lastMax groups : Nat) : 0 < groupLimit lastMax groups := by
  induction groups with
  | zero => exact Nat.succ_pos lastMax
  | succ groups ih => exact Nat.mul_pos (by decide) ih

theorem writeGroups_of_lt (groups : Nat) {b : UInt8} (small : b.toNat < 128) :
    writeGroups (groups + 1) b.toNat = [b] := by
  rw [writeGroups, if_pos small, UInt8.ofNat_toNat]

theorem length_writeGroups_pos (groups n : Nat) : 1 ≤ (writeGroups (groups + 1) n).length := by
  rw [writeGroups]
  split
  · exact Nat.le_refl 1
  · exact Nat.le_add_left 1 _

theorem frugal_varint (lastMax groups : Nat) :
    (varint (groups + 1) lastMax).Frugal fun n => n < groupLimit lastMax groups := by
  induction groups with
  | zero =>
    rw [Frugal, varint, readGroups_succ]
    refine yields_byte.bind fun b used only => ?_
    subst only
    split
    · rename_i small
      split
      · exact yields_throw _ .badVarint
      · rename_i within
        exact yields_pure ⟨.inr (writeGroups_of_lt 0 small), by rw [groupLimit]; omega⟩
    · -- no group may follow
      exact Yields.map (yields_throw (fun _ _ => False) .badVarint) fun _ _ => False.elim
  | succ groups ih =>
    rw [Frugal, varint, readGroups_succ]
    refine yields_byte.bind fun b used only => ?_
    subst only
    have bound := b.toNat_lt
    have some := groupLimit_pos lastMax groups
    rw [groupLimit]
    split
    · rename_i small
      rw [if_neg (by omega)]
      exact yields_pure ⟨.inr (writeGroups_of_lt (groups + 1) small), by omega⟩
    · rename_i more
      refine Yields.map ih fun high used fact => ?_
      exact ⟨noLonger_writeGroups_succ (by omega) fact.1, by omega⟩

theorem frugal_variant : variant.Frugal fun n => n < 0x100000000 := frugal_varint _ 4

theorem frugal_length : length.Frugal fun n => n < lengthLimit := frugal_varint _ 9

theorem frugal_word : word.Frugal fun _ => True := by
  have small : (varint 3 3).Frugal fun n => n < 0x10000 := frugal_varint _ 2
  exact (frugal_imap small fun n fits => UInt16.toNat_ofNat_of_lt fits).mono fun _ _ => trivial

/-! ### Tags -/

theorem frugal_bool : bool.Frugal fun _ => True := by
  rw [Frugal, read_bool]
  refine yields_byte.bind fun b used only => ?_
  subst only
  split
  · rename_i zero
    exact yields_pure ⟨.inr (by rw [zero]; rfl), trivial⟩
  · split
    · rename_i one
      exact yields_pure ⟨.inr (by rw [one]; rfl), trivial⟩
    · exact yields_throw _ .badBool

theorem frugal_option {format : Format α} {fits : α → Prop} (h : format.Frugal fits) :
    (option format).Frugal fun value => ∀ a ∈ value, fits a := by
  rw [Frugal, read_option]
  refine yields_byte.bind fun b used only => ?_
  subst only
  split
  · rename_i zero
    exact yields_pure ⟨.inr (by rw [zero]; rfl), fun _ none => by cases none⟩
  · split
    · rename_i one
      refine Yields.map h fun a used fact => ⟨?_, fun _ same => ?_⟩
      · rw [one]
        exact fact.1.cons 1
      · cases same
        exact fact.2
    · exact yields_throw _ .badOption

/-! ### Sequences -/

theorem frugal_pair {first : Format α} {second : Format β} {fits : α → Prop} {fits' : β → Prop}
    (h : first.Frugal fits) (h' : second.Frugal fits') :
    (first.pair second).Frugal fun p => fits p.1 ∧ fits' p.2 := by
  rw [Frugal, read_pair]
  refine Yields.bind h fun a used fact => Yields.map h' fun b more fact' => ?_
  exact ⟨fact.1.append fact'.1, fact.2, fact'.2⟩

theorem yields_readMany {format : Format α} {fits : α → Prop} (h : format.Frugal fits) (n : Nat)
    (done : List α) : Yields (readMany format n done) fun values used =>
      ∃ more, values = done.reverse ++ more ∧ more.length = n ∧
        NoLonger (more.flatMap format.write) used ∧ ∀ a ∈ more, fits a := by
  induction n generalizing done with
  | zero => exact yields_pure ⟨[], (List.append_nil _).symm, rfl, .inr rfl, fun _ none => by cases none⟩
  | succ n ih =>
    rw [readMany_succ]
    refine Yields.bind h fun a used fact => (ih (a :: done)).mono ?_
    rintro values used' ⟨more, rfl, count, noLonger, fit⟩
    refine ⟨a :: more, ?_, congrArg (· + 1) count, fact.1.append noLonger, ?_⟩
    · rw [List.reverse_cons, List.append_assoc, List.singleton_append]
    · exact List.forall_mem_cons.mpr ⟨fact.2, fit⟩

theorem frugal_list {format : Format α} {fits : α → Prop} (h : format.Frugal fits) :
    (list format).Frugal fun values => values.length < lengthLimit ∧ ∀ a ∈ values, fits a := by
  rw [Frugal, read_list]
  refine Yields.bind frugal_length fun n used fact => (yields_readMany h n []).mono ?_
  rintro values used' ⟨more, rfl, rfl, noLonger, fit⟩
  exact ⟨fact.1.append noLonger, fact.2, fit⟩

theorem yields_takeBytes (n : Nat) :
    Yields (takeBytes n) fun taken used => taken = used ∧ used.length = n := by
  induction n with
  | zero => exact yields_pure ⟨rfl, rfl⟩
  | succ n ih =>
    rw [takeBytes_succ]
    refine yields_byte.bind fun b used only => ih.map ?_
    rintro _ taken ⟨rfl, count⟩
    subst only
    exact ⟨rfl, congrArg (· + 1) count⟩

/-! ### Text -/

theorem utf8_of_ofUtf8? {bytes : Bytes} {t : String} (h : ofUtf8? bytes = some t) :
    utf8 t = bytes := by
  rw [ofUtf8?, String.fromUTF8?] at h
  split at h
  · cases h
    rfl
  · cases h

theorem frugal_text : text.Frugal fun t => t.utf8ByteSize < lengthLimit := by
  rw [Frugal, read_text]
  refine Yields.bind frugal_length fun n used fact => (yields_takeBytes n).bind ?_
  rintro taken _ ⟨rfl, rfl⟩
  rcases e : ofUtf8? taken with - | t
  · exact yields_throw _ .badText
  · obtain rfl := utf8_of_ofUtf8? e
    refine yields_pure ⟨?_, fact.2⟩
    rw [List.append_nil]
    exact fact.1.append (.inr rfl)

/-- A character takes no more than a text that begins with it, whose length was
read in some form. -/
theorem noLonger_writeChar {t : String} {c : Char} {used : Bytes} (first : t.toList.head? = some c)
    (h : NoLonger (length.write (utf8 t).length) used) :
    NoLonger (char.write c) (used ++ utf8 t) := by
  obtain ⟨cs, all⟩ := List.head?_eq_some_iff.mp first
  have parts : t = String.singleton c ++ String.ofList cs := by
    rw [← String.ofList_cons, ← all, String.ofList_toList]
  cases cs with
  | nil =>
    obtain rfl : t = String.singleton c := by simpa using parts
    exact h.append (.inr rfl)
  | cons d cs =>
    -- a character more takes bytes, and the length of one takes no more than any other
    have size : t.utf8ByteSize = c.utf8Size + (d.utf8Size + (String.ofList cs).utf8ByteSize) := by
      rw [parts, String.ofList_cons, String.utf8ByteSize_append, String.utf8ByteSize_append,
        String.utf8ByteSize_singleton, String.utf8ByteSize_singleton]
    have alone : (utf8 (String.singleton c)).length = c.utf8Size := String.utf8ByteSize_singleton
    have whole : (utf8 t).length = t.utf8ByteSize := rfl
    have small := c.utf8Size_le_four
    have more := d.utf8Size_pos
    have counted : 1 ≤ used.length := Nat.le_trans (length_writeGroups_pos 9 _) h.length_le
    have form : char.write c = UInt8.ofNat c.utf8Size :: utf8 (String.singleton c) := by
      show writeGroups 10 (utf8 (String.singleton c)).length ++ _ = _
      rw [alone, writeGroups, if_pos (by omega)]
      rfl
    refine .inl ?_
    rw [form, List.length_cons, List.length_append]
    omega

theorem frugal_char : char.Frugal fun _ => True := by
  rw [Frugal, read_char]
  refine Yields.bind frugal_length fun n used fact => ?_
  split
  · exact yields_throw _ .badChar
  · refine (yields_takeBytes n).bind ?_
    rintro taken _ ⟨rfl, rfl⟩
    rcases e : (ofUtf8? taken).bind (·.toList.head?) with - | c
    · exact yields_throw _ .badChar
    · obtain ⟨t, e, first⟩ := Option.bind_eq_some_iff.mp e
      obtain rfl := utf8_of_ofUtf8? e
      refine yields_pure ⟨?_, trivial⟩
      rw [List.append_nil]
      exact noLonger_writeChar first fact.1

/-! ### Variants -/

theorem frugal_lexStep : lexStep.Frugal fun _ => True := by
  rw [Frugal, read_lexStep]
  refine Yields.bind frugal_variant fun n used fact => ?_
  match n with
  | 0 => exact Yields.map frugal_word fun _ _ fact' => ⟨fact.1.append fact'.1, trivial⟩
  | 1 => exact Yields.map frugal_word fun _ _ fact' => ⟨fact.1.append fact'.1, trivial⟩
  | _ + 2 => exact yields_throw _ .badVariant

theorem frugal_parseAction : parseAction.Frugal fun _ => True := by
  rw [Frugal, read_parseAction]
  refine Yields.bind frugal_variant fun n used fact => ?_
  match n with
  | 0 => exact Yields.map frugal_word fun _ _ fact' => ⟨fact.1.append fact'.1, trivial⟩
  | 1 =>
    refine Yields.bind frugal_word fun symbol used' fact' => Yields.map frugal_byte ?_
    exact fun count used'' fact'' => ⟨fact.1.append (fact'.1.append fact''.1), trivial⟩
  | 2 => exact yields_pure ⟨by rw [List.append_nil]; exact fact.1, trivial⟩
  | 3 => exact yields_pure ⟨by rw [List.append_nil]; exact fact.1, trivial⟩
  | _ + 4 => exact yields_throw _ .badVariant

/-! ### Grammars -/

theorem frugal_symbolInfo : symbolInfo.Frugal SymbolInfo.Writable :=
  (frugal_imap (frugal_pair frugal_text frugal_byte) fun _ _ => rfl).mono fun _ fits => fits.1

theorem frugal_transition :
    transition.Frugal fun transition => transition.chars.ranges.length < lengthLimit := by
  have ranges := frugal_list (frugal_pair frugal_char frugal_char)
  have chars : charSet.Frugal fun set => set.ranges.length < lengthLimit :=
    (frugal_imap (frugal_pair ranges frugal_bool) fun _ _ => rfl).mono fun _ fits => fits.1.1
  exact (frugal_imap (frugal_pair chars frugal_lexStep) fun _ _ => rfl).mono fun _ fits => fits.1

theorem frugal_lexState : lexState.Frugal LexState.Writable := by
  have parts := frugal_pair (frugal_option frugal_word)
    (frugal_pair (frugal_option frugal_lexStep) (frugal_list frugal_transition))
  exact (frugal_imap parts fun _ _ => rfl).mono fun _ fits => ⟨fits.2.2.1, fits.2.2.2⟩

theorem frugal_parseState : parseState.Frugal ParseState.Writable := by
  have actions := frugal_list (frugal_pair frugal_word frugal_parseAction)
  have gotos := frugal_list (frugal_pair frugal_word frugal_word)
  exact (frugal_imap (frugal_pair frugal_word (frugal_pair actions gotos)) fun _ _ => rfl).mono
    fun _ fits => ⟨fits.2.1.1, fits.2.2.1⟩

/-- **A grammar that was read is written no longer** than what it was read from,
and none of its parts is too long to be written. -/
theorem frugal_grammar : Format.grammar.Frugal Grammar.Writable := by
  have parts := frugal_pair frugal_text (frugal_pair frugal_word
    (frugal_pair (frugal_list frugal_symbolInfo)
      (frugal_pair (frugal_list frugal_lexState) (frugal_list frugal_parseState))))
  refine (frugal_imap parts fun _ _ => rfl).mono ?_
  rintro grammar ⟨name, -, symbols, lexStates, parseStates⟩
  exact
    { name, symbols := symbols.1, lexStates := lexStates.1, parseStates := parseStates.1
      eachSymbol := symbols.2, eachLexState := lexStates.2, eachParseState := parseStates.2 }

end Format

end Wire

end Reparse
