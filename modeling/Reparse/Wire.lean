/-
Reparse/Wire.lean

A compact binary format without field names or type tags.

A `Format` is a writer together with a reader.  A reader works from left to
right, takes what it needs and returns the rest; it fails at the first byte
that cannot be right.  Formats of structures are put together from those of
their fields.

Numbers are written in groups of seven bits, the low group first, with the
top bit set on all groups but the last.  A reader takes no more groups than
the width of the number needs, but it does take trailing groups of zeros, so
a number has several readable forms; the written one is the shortest.
-/
namespace Reparse.Wire

abbrev Bytes := List UInt8

/-- Why bytes cannot be read. -/
inductive ReadError where
  | endOfInput
  | badVarint
  | badBool
  | badOption
  | badChar
  | badText
  | badVariant
deriving DecidableEq, Inhabited

def ReadError.message : ReadError → String
  | .endOfInput => "Hit the end of buffer, expected more data"
  | .badVarint => "Found a varint that didn't terminate. Is the usize too big for this platform?"
  | .badBool => "Found a bool that wasn't 0 or 1"
  | .badOption => "Found an Option discriminant that wasn't 0 or 1"
  | .badChar => "Found an invalid unicode char"
  | .badText => "Tried to parse invalid utf-8"
  | .badVariant => "Serde Deserialization Error"

/-- What a reader gives: the value and the bytes behind it. -/
abbrev Reading (α : Type) := Except ReadError (α × Bytes)

/-- How values of a type are written and read. -/
structure Format (α : Type) where
  write : α → Bytes
  read : Bytes → Reading α

namespace Format

variable {α β : Type}

/-! ### Bytes and numbers -/

/-- A single byte. -/
def byte : Format UInt8 where
  write b := [b]
  read
    | [] => .error .endOfInput
    | b :: bytes => .ok (b, bytes)

/-- The groups of a number, at most `groups` of them. -/
def writeGroups : Nat → Nat → Bytes
  | 0, _ => []
  | groups + 1, n =>
    if n < 128 then [UInt8.ofNat n]
    else UInt8.ofNat (n % 128 + 128) :: writeGroups groups (n / 128)

/-- Reads at most `groups` groups, of which the last possible one is at most `lastMax`. -/
def readGroups (lastMax : Nat) : Nat → Bytes → Reading Nat
  | 0, _ => .error .badVarint
  | _ + 1, [] => .error .endOfInput
  | groups + 1, b :: bytes =>
    if b.toNat < 128 then
      if groups = 0 ∧ lastMax < b.toNat then .error .badVarint else .ok (b.toNat, bytes)
    else
      match readGroups lastMax groups bytes with
      | .error e => .error e
      | .ok (high, rest) => .ok (b.toNat - 128 + 128 * high, rest)

/-- Numbers of at most `groups` groups, the last one at most `lastMax`. -/
def varint (groups lastMax : Nat) : Format Nat where
  write := writeGroups groups
  read := readGroups lastMax groups

/-- The number of a variant: 32 bits. -/
def variant : Format Nat := varint 5 15

/-- The length of a list or a text: 64 bits. -/
def length : Format Nat := varint 10 1

/-- The format of values that are made from others and taken apart again. -/
def imap (format : Format α) (make : α → β) (split : β → α) : Format β where
  write b := format.write (split b)
  read bytes :=
    match format.read bytes with
    | .error e => .error e
    | .ok (a, rest) => .ok (make a, rest)

/-- A 16-bit number. -/
def word : Format UInt16 :=
  (varint 3 3).imap UInt16.ofNat UInt16.toNat

/-! ### Tags -/

/-- A truth value: one byte, 0 or 1. -/
def bool : Format Bool where
  write b := [if b then 1 else 0]
  read
    | [] => .error .endOfInput
    | b :: bytes =>
      if b = 0 then .ok (false, bytes)
      else if b = 1 then .ok (true, bytes)
      else .error .badBool

/-- A value that may be absent: the byte 0, or the byte 1 and the value. -/
def option (format : Format α) : Format (Option α) where
  write
    | none => [0]
    | some a => 1 :: format.write a
  read
    | [] => .error .endOfInput
    | b :: bytes =>
      if b = 0 then .ok (none, bytes)
      else if b = 1 then
        match format.read bytes with
        | .error e => .error e
        | .ok (a, rest) => .ok (some a, rest)
      else .error .badOption

/-! ### Sequences -/

/-- One value and then another. -/
def pair (first : Format α) (second : Format β) : Format (α × β) where
  write p := first.write p.1 ++ second.write p.2
  read bytes :=
    match first.read bytes with
    | .error e => .error e
    | .ok (a, rest) =>
      match second.read rest with
      | .error e => .error e
      | .ok (b, rest) => .ok ((a, b), rest)

/-- Reads that many values behind those in `done`, which is in reverse. -/
def readMany (format : Format α) : Nat → List α → Bytes → Reading (List α)
  | 0, done, bytes => .ok (done.reverse, bytes)
  | n + 1, done, bytes =>
    match format.read bytes with
    | .error e => .error e
    | .ok (a, rest) => readMany format n (a :: done) rest

/-- The length of a list and then its values. -/
def list (format : Format α) : Format (List α) where
  write values := length.write values.length ++ values.flatMap format.write
  read bytes :=
    match length.read bytes with
    | .error e => .error e
    | .ok (n, rest) => readMany format n [] rest

/-- The first `n` bytes and the rest. -/
def takeBytes : Nat → Bytes → Reading Bytes
  | 0, bytes => .ok ([], bytes)
  | _ + 1, [] => .error .endOfInput
  | n + 1, b :: bytes =>
    match takeBytes n bytes with
    | .error e => .error e
    | .ok (taken, rest) => .ok (b :: taken, rest)

/-! ### Text -/

/-- The UTF-8 form of a text. -/
def utf8 (text : String) : Bytes :=
  text.toUTF8.data.toList

/-- The text whose UTF-8 form this is. -/
def ofUtf8? (bytes : Bytes) : Option String :=
  String.fromUTF8? ⟨bytes.toArray⟩

/-- The number of bytes of a text and then its UTF-8 form. -/
def text : Format String where
  write t := length.write (utf8 t).length ++ utf8 t
  read bytes :=
    match length.read bytes with
    | .error e => .error e
    | .ok (n, rest) =>
      match takeBytes n rest with
      | .error e => .error e
      | .ok (taken, rest) =>
        match ofUtf8? taken with
        | none => .error .badText
        | some t => .ok (t, rest)

/-- A character is written like a text of that one character.  Four bytes are
the limit, and of several characters within it the first is read. -/
def char : Format Char where
  write c := text.write (String.singleton c)
  read bytes :=
    match length.read bytes with
    | .error e => .error e
    | .ok (n, rest) =>
      if 4 < n then .error .badChar
      else
        match takeBytes n rest with
        | .error e => .error e
        | .ok (taken, rest) =>
          match (ofUtf8? taken).bind (·.toList.head?) with
          | none => .error .badChar
          | some c => .ok (c, rest)

end Format

end Reparse.Wire
