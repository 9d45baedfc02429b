/-
Reparse/Config.lean

The settings of a parser, and how they are read from and written as JSON.
-/
import Reparse.Json

namespace Reparse

/-- The settings of a parser. -/
structure Config where
  /-- Whether to take unchanged subtrees from an old tree. -/
  incremental : Bool := true
  /-- How many recoveries a parse may make before it gives up. -/
  maxRecoveries : UInt32 := 256
deriving DecidableEq, Inhabited

namespace Config

/-! ### Reading -/

/-- The settings read so far. -/
structure Fields where
  incremental : Option Bool := none
  maxRecoveries : Option UInt32 := none

namespace Fields

/-- Settings that were not given have their defaults. -/
def toConfig (fields : Fields) : Config where
  incremental := fields.incremental.getD true
  maxRecoveries := fields.maxRecoveries.getD 256

def readIncremental? (fields : Fields) (text : Text) : Option (Fields × Text) :=
  (Json.readBool? text).map fun (value, rest) => ({ fields with incremental := some value }, rest)

def readMaxRecoveries? (fields : Fields) (text : Text) : Option (Fields × Text) :=
  (Json.readNat? text).bind fun (value, rest) =>
    if value < 0x100000000 then
      some ({ fields with maxRecoveries := some (UInt32.ofNat value) }, rest)
    else none

/-- The value of a member.  A known one is given once at most; others are skipped. -/
def readMember? (fields : Fields) (key : String) (text : Text) : Option (Fields × Text) :=
  if key = "incremental" then
    if fields.incremental.isSome then none else fields.readIncremental? text
  else if key = "max_recoveries" then
    if fields.maxRecoveries.isSome then none else fields.readMaxRecoveries? text
  else (Json.skip? text).map (fields, ·)

/-- The members of an object up to its end; there are at most `count`. -/
def readMembers? (fields : Fields) : Nat → Text → Option (Fields × Text)
  | 0, _ => none
  | count + 1, text =>
    match Json.readKey? text with
    | none => none
    | some (key, rest) =>
      match fields.readMember? (String.ofList key) rest with
      | none => none
      | some (fields, rest) =>
        match Json.skipBlanks rest with
        | '\x7d' :: rest => some (fields, rest)
        | ',' :: rest => readMembers? fields count rest
        | _ => none

/-- The items of an array, in the order of the settings. -/
def readItems? (text : Text) : Option (Fields × Text) :=
  match Json.skipBlanks text with
  | ']' :: rest => some ({}, rest)
  | text =>
    match readIncremental? {} text with
    | none => none
    | some (fields, rest) =>
      match Json.skipBlanks rest with
      | ']' :: rest => some (fields, rest)
      | ',' :: rest =>
        match fields.readMaxRecoveries? rest with
        | none => none
        | some (fields, rest) =>
          match Json.skipBlanks rest with
          | ']' :: rest => some (fields, rest)
          | _ => none
      | _ => none

end Fields

/-- The settings in a JSON text: an object, or an array of the first settings. -/
def read? (text : Text) : Option Config :=
  let fields? :=
    match Json.skipBlanks text with
    | '[' :: rest => Fields.readItems? rest
    | '\x7b' :: rest =>
      match Json.skipBlanks rest with
      | '\x7d' :: rest => some ({}, rest)
      | rest => Fields.readMembers? {} text.length rest
    | _ => none
  match fields? with
  | some (fields, rest) => if (Json.skipBlanks rest).isEmpty then some fields.toConfig else none
  | none => none

/-! ### Writing -/

/-- The settings as a JSON object without blanks. -/
def write (config : Config) : String :=
  "\x7b\"incremental\":" ++ (if config.incremental then "true" else "false") ++
    ",\"max_recoveries\":" ++ toString config.maxRecoveries ++ "\x7d"

end Config

end Reparse
