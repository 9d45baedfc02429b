/-
Reparse/Span.lean

Byte ranges of a source text, and messages that point at one.

A span has 32-bit ends.  It is made from a byte range by keeping the low 32
bits of both ends, so that a range of a text below four gigabytes is kept.
-/
import Reparse.Text

namespace Reparse

/-- The bytes from `start` up to `stop`. -/
structure Span where
  start : Nat
  stop : Nat
deriving DecidableEq, Inhabited

namespace Span

/-- The low 32 bits of a position or of a length. -/
def lowBits (position : Nat) : Nat :=
  position % 0x100000000

theorem lowBits_le (position : Nat) : lowBits position ≤ position :=
  Nat.mod_le ..

theorem lowBits_of_lt {position : Nat} (small : position < UInt32.size) :
    lowBits position = position :=
  Nat.mod_eq_of_lt small

/-- The span of a byte range: the low 32 bits of both ends. -/
def ofRange (start stop : Nat) : Span :=
  ⟨lowBits start, lowBits stop⟩

/-- Whether `inner` lies completely inside `outer`. -/
def encloses (outer inner : Span) : Bool :=
  outer.start ≤ inner.start && inner.stop ≤ outer.stop

/-- A span is written as its ends with two dots between them. -/
def render (span : Span) : Text :=
  Text.ofNat span.start ++ '.' :: '.' :: Text.ofNat span.stop

instance : ToString Span where
  toString span := String.ofList span.render

end Span

/-- A message about a place of the source text. -/
structure Located where
  message : String
  span : Span
deriving DecidableEq

/-- The message with its place behind it. -/
def Located.render (located : Located) : String :=
  s!"{located.message} at {located.span}"

end Reparse
