/-
Reparse/Run/Move.lean

The choice of the next move of a parse.

Without a lookahead a subtree of the old tree is reused, if one fits.
Otherwise the table says what to do with the lookahead.  Where it says
nothing, the parse recovers: it reduces by default, puts in an error
production without width, wraps the lookahead into one, or skips the
lookahead.  After an error production that has consumed input there is no
further repair, and the parse gives up.
-/
import Reparse.Run
import Reparse.Subtree.Starting

namespace Reparse

/-- One move of a parse. -/
inductive Move where
  /-- Put a subtree of the old tree on the stack. -/
  | reuse (subtree : Subtree) (target : StateId)
  /-- Put the lookahead on the stack. -/
  | shift (token : Subtree) (target : StateId)
  /-- Reduce as the table says; this is the stack behind it. -/
  | reduce (lookahead : Lookahead) (stack : Stack)
  /-- The text is complete. -/
  | accept (token : Subtree)
  /-- Recover by the default reduction; this is the stack behind it. -/
  | reduceByDefault (lookahead : Lookahead) (stack : Stack)
  /-- Recover by an error production without width. -/
  | insert (lookahead : Lookahead) (symbol : Symbol) (target : StateId)
  /-- Recover by an error production around the lookahead. -/
  | wrap (token : Subtree) (symbol : Symbol) (target : StateId)
  /-- Recover by skipping the lookahead. -/
  | skip (token : Subtree)
  /-- Put the rest under an error root. -/
  | giveUp (token : Subtree)

namespace Run

variable (setting : Setting) (run : Run)

/-! ### Reuse -/

/-- Whether a subtree of an old tree may stand behind a state: it is intact
and was parsed like it would be now. -/
def fits (language : Language) (state : StateId) (candidate : Subtree) : Bool :=
  let marks := candidate.marks
  if marks.hasChanges || marks.hasError || marks.extra || marks.missing ||
      candidate.totalSize = 0 || candidate.symbol = errorSymbol then false
  else if language.isTerminal candidate.symbol then
    language.lexMode candidate.parseState = language.lexMode state
  else candidate.parseState = state

/-- The state behind a subtree that is put on as a whole. -/
def reuseTarget? (language : Language) (state : StateId) (symbol : Symbol) : Option StateId :=
  if language.isTerminal symbol then
    match language.action? state symbol with
    | some (.shift target) => some target
    | _ => none
  else language.goto? state symbol

/-- The outermost subtree of the old tree that can be put on now. -/
def reusable? : Option (Subtree × StateId) :=
  setting.old.bind fun root =>
    (root.startingAt run.position 0).findSome? fun candidate =>
      if fits setting.language run.state candidate then
        (reuseTarget? setting.language run.state candidate.symbol).map (candidate, ·)
      else none

/-! ### Recovery -/

/-- How many error productions in a row may be put in before the lookahead fits. -/
def insertionDepth : Nat := 8

/-- Whether a state can deal with a token, perhaps behind `depth` more error
productions. -/
def canHandle (language : Language) (symbol : Symbol) : Nat → StateId → Bool
  | 0, state =>
    (language.action? state symbol).isSome || (language.defaultReduction? state).isSome
  | depth + 1, state =>
    (language.action? state symbol).isSome || (language.defaultReduction? state).isSome ||
      (language.repairs state).any fun repair => canHandle language symbol depth repair.2

/-- The stack after the default reduction of the current state. -/
def defaultReduction? (lookahead : Lookahead) : Option Stack :=
  (setting.language.defaultReduction? run.state).bind fun (symbol, count) =>
    run.stack.reduce? setting.language symbol count lookahead.token

/-- The error production to put in here; there is at most one for each place. -/
def insertion? (symbol : Symbol) : Option (Symbol × StateId) :=
  if run.inserted.contains (run.state, run.position) then none
  else
    (setting.language.repairs run.state).find? fun repair =>
      canHandle setting.language symbol insertionDepth repair.2

/-- The error production to wrap a token into. -/
def wrapping? (symbol : Symbol) : Option (Symbol × StateId) :=
  if symbol = endSymbol || symbol = errorSymbol then none
  else (setting.language.repairs run.state).head?

/-- The move where the table has none. -/
def recovery (lookahead : Lookahead) : Move :=
  let token := lookahead.token
  if setting.maxRecoveries ≤ run.recoveries then .giveUp token
  else
    match run.defaultReduction? setting lookahead with
    | some stack => .reduceByDefault lookahead stack
    | none =>
      if run.stack.hasConsumedRecovery then .giveUp token
      else
        match run.insertion? setting token.symbol with
        | some (symbol, target) => .insert lookahead symbol target
        | none =>
          match run.wrapping? setting token.symbol with
          | some (symbol, target) => .wrap token symbol target
          | none => if token.symbol = endSymbol then .giveUp token else .skip token

/-! ### The choice -/

/-- The token in front, read again if it was read for another state and does
not fit here. -/
def current : Lookahead :=
  match run.lookahead with
  | none => setting.language.lookahead setting.text run.position run.state
  | some lookahead =>
    if (setting.language.action? run.state lookahead.token.symbol).isNone &&
        lookahead.mode != setting.language.lexMode run.state then
      setting.language.lookahead setting.text run.position run.state
    else lookahead

/-- The move on a token. -/
def moveOn (lookahead : Lookahead) : Move :=
  let token := lookahead.token
  match setting.language.action? run.state token.symbol with
  | some (.shift target) => .shift token target
  | some (.reduce symbol count) =>
    match run.stack.reduce? setting.language symbol count token with
    | some stack => .reduce lookahead stack
    | none => .giveUp token
  | some .accept => if token.symbol = endSymbol then .accept token else run.recovery setting lookahead
  | _ => run.recovery setting lookahead

/-- The next move. -/
def move : Move :=
  match run.lookahead with
  | some _ => run.moveOn setting (run.current setting)
  | none =>
    match run.reusable? setting with
    | some (subtree, target) => .reuse subtree target
    | none => run.moveOn setting (run.current setting)

end Run

end Reparse
