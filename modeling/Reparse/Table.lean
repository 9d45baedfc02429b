/-
Reparse/Table.lean

Grammar tables: a grammar as an opaque run of bytes.

A table begins with four magic bytes and a version, a 32-bit number with its
low byte first.  The binary form of the grammar follows, and nothing else.
Any bytes make a `Table`; they are looked at when the table is read.
-/
import Reparse.Wire.Grammar

namespace Reparse

open Wire

/-- The version that tables are written with. -/
def currentVersion : UInt32 := 14

/-- The oldest version that can still be loaded. -/
def oldestVersion : UInt32 := 13

/-- A grammar table. -/
structure Table where
  bytes : Bytes
deriving DecidableEq, Inhabited

/-- Why a table cannot be read. -/
inductive TableError where
  | empty
  | badMagic
  | truncated
  | trailingBytes (count : Nat)
  | undecodable (cause : ReadError)
deriving DecidableEq, Inhabited

def TableError.message : TableError → String
  | .empty => "grammar table is empty"
  | .badMagic => "not a grammar table"
  | .truncated => "grammar table header is truncated"
  | .trailingBytes count => s!"grammar table has {count} trailing bytes"
  | .undecodable cause => "undecodable grammar payload: " ++ cause.message

namespace Table

/-- The bytes that every table begins with. -/
def magic : Bytes := [0x53, 0x44, 0x47, 0x54]

/-! ### Writing -/

/-- A 32-bit number, the low byte first. -/
def writeVersion (version : UInt32) : Bytes :=
  let n := version.toNat
  [UInt8.ofNat n, UInt8.ofNat (n / 0x100), UInt8.ofNat (n / 0x10000), UInt8.ofNat (n / 0x1000000)]

/-- The table of a grammar with some version in its header. -/
def encodeAt (grammar : Grammar) (version : UInt32) : Table :=
  ⟨magic ++ writeVersion version ++ Format.grammar.write grammar⟩

/-- The table of a grammar. -/
def encode (grammar : Grammar) : Table :=
  encodeAt grammar currentVersion

/-! ### Reading -/

def readVersion (b₀ b₁ b₂ b₃ : UInt8) : UInt32 :=
  UInt32.ofNat (b₀.toNat + 0x100 * b₁.toNat + 0x10000 * b₂.toNat + 0x1000000 * b₃.toNat)

/-- The version and the payload, if the header is in order. -/
def split (table : Table) : Except TableError (UInt32 × Bytes) :=
  match table.bytes with
  | [] => .error .empty
  | m₀ :: m₁ :: m₂ :: m₃ :: v₀ :: v₁ :: v₂ :: v₃ :: payload =>
    if [m₀, m₁, m₂, m₃] = magic then .ok (readVersion v₀ v₁ v₂ v₃, payload)
    else .error .badMagic
  | _ => .error .truncated

/-- The version in the header; the payload is not looked at. -/
def version (table : Table) : Except TableError UInt32 :=
  table.split.map (·.1)

/-- The grammar in the table. -/
def decode (table : Table) : Except TableError Grammar :=
  match table.split with
  | .error e => .error e
  | .ok (_, payload) =>
    match Format.grammar.read payload with
    | .error e => .error (.undecodable e)
    | .ok (grammar, rest) =>
      if rest.isEmpty then .ok grammar else .error (.trailingBytes rest.length)

/-! ### Description -/

/-- Length and version on one line. -/
def describe (table : Table) : String :=
  let version :=
    match table.version with
    | .ok version => s!"Some({version})"
    | .error _ => "None"
  "GrammarTable \x7b len: " ++ toString table.bytes.length ++ ", version: " ++ version ++ " \x7d"

end Table

end Reparse
