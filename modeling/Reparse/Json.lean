/-
Reparse/Json.lean

Left-to-right reading of JSON text.

Every reader takes the text at its place and gives what is left behind what it
read, or `none` where the text is not well formed.  Values that nobody asks
for are skipped without being built.
-/
import Reparse.Text

namespace Reparse.Json

/-! ### Blanks and fixed words -/

def isBlank (c : Char) : Bool :=
  c = ' ' || c = '\n' || c = '\t' || c = '\r'

def skipBlanks (text : Text) : Text :=
  text.dropWhile isBlank

/-- What follows a word that has to stand here. -/
def expect? : Text → Text → Option Text
  | [], text => some text
  | _ :: _, [] => none
  | c :: word, d :: text => if c = d then expect? word text else none

/-! ### Strings -/

/-- A piece of a string: a character, or half of one given by a 16-bit unit. -/
inductive Piece where
  | char (c : Char)
  | unit (n : Nat)

def hexDigit? (c : Char) : Option Nat :=
  if c.isDigit then some (c.toNat - '0'.toNat)
  else if 'a' ≤ c && c ≤ 'f' then some (c.toNat - 'a'.toNat + 10)
  else if 'A' ≤ c && c ≤ 'F' then some (c.toNat - 'A'.toNat + 10)
  else none

/-- The number that four hexadecimal digits stand for. -/
def hex? (a b c d : Char) : Option Nat :=
  match hexDigit? a, hexDigit? b, hexDigit? c, hexDigit? d with
  | some a, some b, some c, some d => some (((a * 16 + b) * 16 + c) * 16 + d)
  | _, _, _, _ => none

/-- The character of a one-letter escape. -/
def escape? (c : Char) : Option Char :=
  match c with
  | '"' => some '"'
  | '\\' => some '\\'
  | '/' => some '/'
  | 'b' => some '\x08'
  | 'f' => some '\x0c'
  | 'n' => some '\n'
  | 'r' => some '\r'
  | 't' => some '\t'
  | _ => none

/-- The pieces of a string behind its opening quote, with those read before in
reverse. -/
def readPieces? (done : List Piece) : Text → Option (List Piece × Text)
  | [] => none
  | '"' :: rest => some (done.reverse, rest)
  | '\\' :: 'u' :: a :: b :: c :: d :: rest =>
    match hex? a b c d with
    | some n => readPieces? (.unit n :: done) rest
    | none => none
  | '\\' :: c :: rest =>
    match escape? c with
    | some c => readPieces? (.char c :: done) rest
    | none => none
  | c :: rest =>
    if c = '\\' || c.toNat < 0x20 then none else readPieces? (.char c :: done) rest

/-- The text of a string.  Units that are surrogates have to come in pairs. -/
def joinPieces? : List Piece → Option Text
  | [] => some []
  | .char c :: rest => (joinPieces? rest).map (c :: ·)
  | .unit high :: .unit low :: rest =>
    if 0xd800 ≤ high && high < 0xdc00 then
      if 0xdc00 ≤ low && low < 0xe000 then
        let c := Char.ofNat (0x10000 + (high - 0xd800) * 0x400 + (low - 0xdc00))
        (joinPieces? rest).map (c :: ·)
      else none
    else if 0xdc00 ≤ high && high < 0xe000 then none
    else (joinPieces? (.unit low :: rest)).map (Char.ofNat high :: ·)
  | .unit n :: rest =>
    if 0xd800 ≤ n && n < 0xe000 then none else (joinPieces? rest).map (Char.ofNat n :: ·)

/-! ### Numbers -/

/-- One or more digits. -/
def skipDigits? : Text → Option Text
  | [] => none
  | c :: rest => if c.isDigit then some (rest.dropWhile Char.isDigit) else none

/-- An integer without sign.  A zero in front is not followed by digits. -/
def skipInteger? : Text → Option Text
  | '0' :: c :: rest => if c.isDigit then none else some (c :: rest)
  | text => skipDigits? text

def skipFraction? : Text → Option Text
  | '.' :: rest => skipDigits? rest
  | text => some text

def skipExponent? : Text → Option Text
  | [] => some []
  | c :: rest =>
    if c = 'e' || c = 'E' then
      match rest with
      | '+' :: rest => skipDigits? rest
      | '-' :: rest => skipDigits? rest
      | _ => skipDigits? rest
    else some (c :: rest)

/-- A number without sign. -/
def skipNumber? (text : Text) : Option Text :=
  ((skipInteger? text).bind skipFraction?).bind skipExponent?

/-! ### Values -/

mutual

/-- A value of any kind, with at most `fuel` levels and items in it. -/
def skipValue? : Nat → Text → Option Text
  | 0, _ => none
  | fuel + 1, text =>
    match skipBlanks text with
    | 'n' :: rest => expect? ['u', 'l', 'l'] rest
    | 't' :: rest => expect? ['r', 'u', 'e'] rest
    | 'f' :: rest => expect? ['a', 'l', 's', 'e'] rest
    | '"' :: rest => (readPieces? [] rest).map (·.2)
    | '[' :: rest =>
      match skipBlanks rest with
      | ']' :: rest => some rest
      | rest => skipItems? fuel rest
    | '\x7b' :: rest =>
      match skipBlanks rest with
      | '\x7d' :: rest => some rest
      | rest => skipMembers? fuel rest
    | '-' :: rest => skipNumber? rest
    | rest => skipNumber? rest

/-- The items of an array and its end. -/
def skipItems? : Nat → Text → Option Text
  | 0, _ => none
  | fuel + 1, text =>
    match (skipValue? fuel text).map skipBlanks with
    | some (']' :: rest) => some rest
    | some (',' :: rest) => skipItems? fuel rest
    | _ => none

/-- The members of an object and its end. -/
def skipMembers? : Nat → Text → Option Text
  | 0, _ => none
  | fuel + 1, text =>
    match skipBlanks text with
    | '"' :: rest =>
      match (readPieces? [] rest).map fun (_, rest) => skipBlanks rest with
      | some (':' :: rest) =>
        match (skipValue? fuel rest).map skipBlanks with
        | some ('\x7d' :: rest) => some rest
        | some (',' :: rest) => skipMembers? fuel rest
        | _ => none
      | _ => none
    | _ => none

end

/-- A value of any kind. -/
def skip? (text : Text) : Option Text :=
  skipValue? (2 * text.length + 2) text

/-! ### Values of a wanted kind -/

def readBool? (text : Text) : Option (Bool × Text) :=
  match skipBlanks text with
  | 't' :: rest => (expect? ['r', 'u', 'e'] rest).map (true, ·)
  | 'f' :: rest => (expect? ['a', 'l', 's', 'e'] rest).map (false, ·)
  | _ => none

/-- A number without sign, fraction and exponent. -/
def readNat? (text : Text) : Option (Nat × Text) :=
  let text := skipBlanks text
  match skipInteger? text with
  | none => none
  | some rest =>
    if rest.head?.any fun c => c = '.' || c = 'e' || c = 'E' then none
    else
      let value := (text.takeWhile Char.isDigit).foldl
        (fun value c => value * 10 + (c.toNat - '0'.toNat)) 0
      some (value, rest)

/-- The name of a member and the colon behind it. -/
def readKey? (text : Text) : Option (Text × Text) :=
  match skipBlanks text with
  | '"' :: rest =>
    match readPieces? [] rest with
    | none => none
    | some (pieces, rest) =>
      match joinPieces? pieces, skipBlanks rest with
      | some key, ':' :: rest => some (key, rest)
      | _, _ => none
  | _ => none

end Reparse.Json
