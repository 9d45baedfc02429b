/-
Reparse/Proofs/Bytes.lean

The bytes of a text.

A window shows some of the bytes of a text.  What it shows from a place to cut
on is what it shows of the text behind that place, so that two windows may show
the same at different places of different texts.  Bytes tell the characters:
a text that begins with the bytes of another one begins with that text, see
`eq_append_of_bytes`.
-/
import Reparse.Text
import Reparse.Wire

namespace Reparse.Text

variable {text front back rest : Text} {position start width : Nat}

/-- The bytes of a text in UTF-8. -/
def bytes (text : Text) : Wire.Bytes :=
  text.flatMap String.utf8EncodeChar

@[simp] theorem bytes_append (front back : Text) :
    (front ++ back).bytes = front.bytes ++ back.bytes :=
  List.flatMap_append

theorem bytes_cons (c : Char) (rest : Text) :
    bytes (c :: rest) = String.utf8EncodeChar c ++ rest.bytes :=
  List.flatMap_cons

@[simp] theorem length_bytes (text : Text) : text.bytes.length = text.size := by
  induction text with
  | nil => rfl
  | cons c cs ih => rw [size_cons, bytes_cons, List.length_append, String.length_utf8EncodeChar, ih]

/-! ### Windows -/

/-- The bytes from `start` on that a window shows, if there are so many. -/
def window? (text : Text) (start width : Nat) : Option Wire.Bytes :=
  if start + width ≤ text.size then some ((text.bytes.drop start).take width) else none

/-- A window on the front of a text does not show what is behind. -/
theorem window?_append_left (back : Text) (within : start + width ≤ front.size) :
    (front ++ back).window? start width = front.window? start width := by
  have whole : start + width ≤ (front ++ back).size := by
    rw [size_append]
    exact Nat.le_add_right_of_le within
  rw [window?, window?, if_pos whole, if_pos within, bytes_append,
    List.drop_append_of_le_length (by rw [length_bytes]; omega),
    List.take_append_of_le_length (by rw [List.length_drop, length_bytes]; omega)]

/-- A window on the back of a text does not show what is in front. -/
theorem window?_append_right (front back : Text) (start width : Nat) :
    (front ++ back).window? (front.size + start) width = back.window? start width := by
  have same : (front ++ back).bytes.drop (front.size + start) = back.bytes.drop start := by
    rw [bytes_append, ← length_bytes front, List.drop_length_add_append]
  rw [window?, window?, same, size_append, Nat.add_assoc]
  simp only [Nat.add_le_add_iff_left]

/-- A window from a place to cut on shows what is behind that place. -/
theorem window?_of_drop? (here : text.drop? position = some rest) (width : Nat) :
    text.window? position width = rest.window? 0 width := by
  obtain ⟨front, rfl, rfl⟩ := drop?_eq_some_iff.mp here
  exact window?_append_right front rest 0 width

/-! ### Characters -/

/-- No character begins with the bytes of another one. -/
theorem eq_of_utf8EncodeChar_append {c d : Char} {more others : Wire.Bytes}
    (same : String.utf8EncodeChar c ++ more = String.utf8EncodeChar d ++ others) : c = d := by
  have first {c : Char} {more : Wire.Bytes} :
      (String.utf8EncodeChar c ++ more).toByteArray.utf8DecodeChar? 0 = some c := by
    rw [List.toByteArray_append]
    exact ByteArray.utf8DecodeChar?_utf8EncodeChar_append
  have decoded := @first c more
  rw [same, first] at decoded
  exact (Option.some.inj decoded).symm

/-- **A text that begins with the bytes of another one** begins with that text. -/
theorem eq_append_of_bytes {more : Wire.Bytes} (same : text.bytes = front.bytes ++ more) :
    ∃ back, text = front ++ back := by
  induction front generalizing text with
  | nil => exact ⟨text, rfl⟩
  | cons c front ih =>
    rw [bytes_cons, List.append_assoc] at same
    cases text with
    | nil =>
      -- there is a byte in each character
      have none := congrArg List.length same
      rw [List.length_append, String.length_utf8EncodeChar] at none
      exact absurd none (Nat.ne_of_lt (Nat.add_pos_left c.utf8Size_pos _))
    | cons d text =>
      rw [bytes_cons] at same
      obtain rfl := eq_of_utf8EncodeChar_append same
      obtain ⟨back, rfl⟩ := ih (List.append_cancel_left same)
      exact ⟨back, rfl⟩

/-- A text in whose window another one is seen begins with that one. -/
theorem eq_append_of_window? (seen : text.window? 0 front.size = some front.bytes) :
    ∃ back, text = front ++ back := by
  rw [window?] at seen
  split at seen
  · have taken := List.take_append_drop front.size text.bytes
    rw [List.drop_zero] at seen
    rw [Option.some.inj seen] at taken
    exact eq_append_of_bytes taken.symm
  · cases seen

/-- A window on the whole front shows its bytes. -/
theorem window?_front (front back : Text) :
    (front ++ back).window? 0 front.size = some front.bytes := by
  have whole : 0 + front.size ≤ front.size := Nat.le_of_eq (Nat.zero_add _)
  rw [window?_append_left back whole, window?, if_pos whole, List.drop_zero, ← length_bytes front,
    List.take_length]

end Reparse.Text
