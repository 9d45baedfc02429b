/-
Reparse/Language/Load.lean

Languages from grammar tables.  The header is looked at first, then the
version, then the payload, and at last whether the grammar is consistent.
-/
import Reparse.Language
import Reparse.Language.Consistency
import Reparse.Table

namespace Reparse

/-- Why a table gives no language. -/
inductive LanguageError where
  | table (cause : TableError)
  | incompatibleVersion (version : UInt32)
  | inconsistent (cause : Inconsistency)
deriving DecidableEq, Inhabited

def LanguageError.message : LanguageError → String
  | .table cause => cause.message
  | .incompatibleVersion version =>
    s!"grammar version {version} is not within {oldestVersion}..={currentVersion}"
  | .inconsistent cause => "inconsistent grammar: " ++ cause.message

/-- Whether tables of a version can be loaded. -/
def isCompatible (version : UInt32) : Bool :=
  oldestVersion ≤ version && version ≤ currentVersion

/-- The language of a table; `origin` marks this load. -/
def Table.load (table : Table) (origin : Nat) : Except LanguageError Language :=
  match table.version with
  | .error e => .error (.table e)
  | .ok version =>
    if !isCompatible version then .error (.incompatibleVersion version)
    else
      match table.decode with
      | .error e => .error (.table e)
      | .ok grammar =>
        match grammar.fault? with
        | some fault => .error (.inconsistent fault)
        | none => .ok (grammar.toLanguage version origin)

theorem Table.load_eq_ok_iff {table : Table} {origin : Nat} {language : Language} :
    table.load origin = .ok language ↔
      ∃ version grammar, table.version = .ok version ∧ isCompatible version = true ∧
        table.decode = .ok grammar ∧ grammar.fault? = none ∧
        grammar.toLanguage version origin = language := by
  rw [load]
  rcases table.version with e | version
  · simp
  · rcases compatible : isCompatible version with - | -
    · simp [compatible]
    · rcases table.decode with e | grammar
      · simp [compatible]
      · rcases faults : grammar.fault? with - | fault <;> simp [compatible, faults]

end Reparse
