/-
Reparse/Verdict.lean

Verdicts, and cases that come to one at most once.
-/
namespace Reparse

/-- How a verification went. -/
inductive Verdict where
  | notRun
  | passed
  | failed (message : String)
deriving DecidableEq, Inhabited

/-- Why a verification was no success. -/
inductive Failure where
  | grammarLoad
  | check (message : String)
  | notRun
deriving DecidableEq, Inhabited

/-- What is said of a table that does not load. -/
def loadFailure : String := "Error loading grammar"

/-- What is said of a source that does not parse. -/
def parseFailure : String := "Error parsing source"

/-- What is said of a reparse with another result than a fresh parse. -/
def reparseFailure : String := "Incremental reparse diverged"

def Failure.message : Failure → String
  | .grammarLoad => loadFailure
  | .check message => message
  | .notRun => "verification has not run"

namespace Verdict

def isPassed : Verdict → Bool
  | passed => true
  | _ => false

def isFinished : Verdict → Bool
  | notRun => false
  | _ => true

/-- What a failed verification says. -/
def message? : Verdict → Option String
  | failed message => some message
  | _ => none

/-- Success or the reason for the lack of it.  A table that does not load is
told apart from all other failed checks by what was said of it. -/
def toResult : Verdict → Except Failure Unit
  | passed => .ok ()
  | notRun => .error .notRun
  | failed message =>
    if message = loadFailure then .error .grammarLoad else .error (.check message)

/-- What to stop with if the verification has to have passed. -/
def complaint? : Verdict → Option String
  | passed => none
  | notRun => some Failure.notRun.message
  | failed message => some message

end Verdict

/-! ### Cases -/

/-- A verification that is run until it has a verdict.  Its check may keep a
state from one run to the next. -/
structure Case (State : Type) where
  check : State → Verdict × State
  state : State
  verdict : Verdict := .notRun

/-- Run a case that has no verdict yet. -/
def Case.run {State : Type} (case : Case State) : Case State :=
  if case.verdict.isFinished then case
  else
    let (verdict, state) := case.check case.state
    { case with verdict, state }

end Reparse
