/-
Reparse/Text/Quoted.lean

Text between double quotes, on one line and readable on any terminal.

A quote and a backslash get a backslash in front; NUL, tab, carriage return
and newline have their short escapes; every other unprintable character is
written by its code point in hexadecimal; all else stands for itself.
-/
import Reparse.Text
import Reparse.Text.Unprintable

namespace Reparse.Text

/-- Whether a character is shown as itself in quoted text, escapes apart. -/
def isPrintable (c : Char) : Bool :=
  if c.toNat < 0x7f then 0x20 ≤ c.toNat
  else !Unprintable.ranges.any fun (first, last) => first ≤ c.toNat && c.toNat ≤ last

/-- One character of quoted text. -/
def quoteChar (c : Char) : Text :=
  if c = '"' then ['\\', '"']
  else if c = '\\' then ['\\', '\\']
  else if c = '\x00' then ['\\', '0']
  else if c = '\t' then ['\\', 't']
  else if c = '\r' then ['\\', 'r']
  else if c = '\n' then ['\\', 'n']
  else if isPrintable c then [c]
  else ['\\', 'u', '\x7b'] ++ Nat.toDigits 16 c.toNat ++ ['\x7d']

/-- A text in double quotes. -/
def quote (text : Text) : Text :=
  '"' :: text.flatMap quoteChar ++ ['"']

end Reparse.Text
