/-
Reparse/Proofs/Run/Guarded.lean

Parsing with look-ups that fail outside of their tables.

The look-ups of `Reparse.Language` have an answer for every index.  The guarded
ones have none where the index is not within the table, or stands for a place
in another row.  On top of them are the lexer and the choice of a move, from
the bottom up, each with no answer as soon as one of its look-ups has none.

In a consistent language, guarded functions give the answers of the unguarded
ones, if they begin in a state that there is: `move?_eq`.
-/
import Reparse.Proofs.Language.Consistent
import Reparse.Proofs.Lexeme.Scan
import Reparse.Proofs.Run.Choice

namespace Reparse.Guarded

/-! ### Tables -/

section Tables

variable (language : Language)

def lexMode? (state : StateId) : Option LexStateId :=
  language.lexModes[state.toNat]?

def lexState? (id : LexStateId) : Option LexState :=
  language.lexStates[id.toNat]?

/-- An entry of a table with rows of some width. -/
def cell? {α : Type} (table : Array α) (width row column : Nat) : Option α :=
  if column < width then table[row * width + column]? else none

def action? (state : StateId) (symbol : Symbol) : Option (Option ParseAction) :=
  if language.isTerminal symbol then
    (cell? language.actions language.tokenCount.toNat state.toNat symbol.toNat).map fun
      | some .recover => none
      | action => action
  else some none

def goto? (state : StateId) (symbol : Symbol) : Option (Option StateId) :=
  if symbol = errorSymbol || language.isTerminal symbol then some none
  else
    cell? language.gotos language.nonterminalCount state.toNat
      (symbol.toNat - language.tokenCount.toNat)

def defaultReduction? (state : StateId) : Option (Option (Symbol × UInt8)) :=
  language.defaultReductions[state.toNat]?

def repairs? (state : StateId) : Option (List (Symbol × StateId)) :=
  language.recoveryGotos[state.toNat]?

end Tables

/-! ### Tokens -/

section Tokens

variable (language : Language)

def visit? (scan : Scan) : Option Scan := do
  match (← lexState? language scan.state).accept with
  | some symbol => some { scan with accepted := some (symbol, scan.cursor) }
  | none => some scan

def follow? : Scan → Text → Option Scan
  | scan, [] => do
    let scan ← visit? language scan
    match (← lexState? language scan.state).atEnd with
    | none => some scan
    | some step => visit? language (scan.take 0 step)
  | scan, c :: rest => do
    let scan := (← visit? language scan).look c.utf8Size
    match (← lexState? language scan.state).step? c with
    | none => some scan
    | some step => follow? (scan.take c.utf8Size step) rest

def lexeme? (text : Text) (position : Nat) (mode : LexStateId) : Option (Option Lexeme) :=
  (follow? language { state := mode } ((text.drop? position).getD [])).map (·.lexeme?)

def lookahead? (text : Text) (position : Nat) (state : StateId) : Option Lookahead := do
  let mode ← lexMode? language state
  let fallback ← lexMode? language errorState
  let lexeme ←
    match ← lexeme? language text position mode with
    | some lexeme => some (some lexeme)
    | none => if fallback = mode then some none else lexeme? language text position fallback
  let token :=
    match lexeme with
    | some lexeme =>
      Subtree.token language lexeme.symbol lexeme.padding lexeme.size lexeme.lookahead state
    | none =>
      match text.drop? position with
      | some (c :: _) => Subtree.token language errorSymbol 0 c.utf8Size 0 state
      | _ => Subtree.token language endSymbol 0 0 0 state
  some ⟨token, mode⟩

end Tokens

/-! ### Moves -/

def reduce? (language : Language) (stack : Stack) (symbol : Symbol) (count : UInt8)
    (token : Subtree) : Option (Option Stack) := do
  let extras := stack.extras
  let (children, rest) := Stack.takeOff count.toNat stack.belowExtras []
  let state := Stack.top rest
  match ← goto? language state symbol with
  | none => some none
  | some target =>
    let made := Subtree.node language symbol children state
    let needed := Subtree.totalSizes extras.subtrees + token.totalSize + token.lookahead
    let node := Subtree.mk { made.head with lookahead := max made.lookahead needed } made.children
    some (some (extras.map (fun entry => { entry with state := target }) ++ ⟨target, node⟩ :: rest))

def canHandle? (language : Language) (symbol : Symbol) : Nat → StateId → Option Bool
  | 0, state => do
    if (← action? language state symbol).isSome then some true
    else (defaultReduction? language state).map (·.isSome)
  | depth + 1, state => do
    if (← action? language state symbol).isSome then some true
    else if (← defaultReduction? language state).isSome then some true
    else (← repairs? language state).anyM fun repair => canHandle? language symbol depth repair.2

def fits? (language : Language) (state : StateId) (candidate : Subtree) : Option Bool :=
  let marks := candidate.marks
  if marks.hasChanges || marks.hasError || marks.extra || marks.missing ||
      candidate.totalSize = 0 || candidate.symbol = errorSymbol then some false
  else if language.isTerminal candidate.symbol then do
    let old ← lexMode? language candidate.parseState
    let new ← lexMode? language state
    some (decide (old = new))
  else some (decide (candidate.parseState = state))

def reuseTarget? (language : Language) (state : StateId) (symbol : Symbol) :
    Option (Option StateId) :=
  if language.isTerminal symbol then
    (action? language state symbol).map fun
      | some (.shift target) => some target
      | _ => none
  else goto? language state symbol

section Moves

variable (setting : Setting) (run : Run)

def reusable? : Option (Option (Subtree × StateId)) :=
  match setting.old with
  | none => some none
  | some root =>
    (root.startingAt run.position 0).findSomeM? fun candidate => do
      if ← fits? setting.language run.state candidate then
        (reuseTarget? setting.language run.state candidate.symbol).map fun target =>
          target.map (candidate, ·)
      else some none

def reduceByDefault? (lookahead : Lookahead) : Option (Option Stack) := do
  match ← defaultReduction? setting.language run.state with
  | none => some none
  | some (symbol, count) => reduce? setting.language run.stack symbol count lookahead.token

def insertion? (symbol : Symbol) : Option (Option (Symbol × StateId)) := do
  if run.inserted.contains (run.state, run.position) then some none
  else
    (← repairs? setting.language run.state).findM? fun repair =>
      canHandle? setting.language symbol Run.insertionDepth repair.2

def wrapping? (symbol : Symbol) : Option (Option (Symbol × StateId)) :=
  if symbol = endSymbol || symbol = errorSymbol then some none
  else (repairs? setting.language run.state).map (·.head?)

def recovery? (lookahead : Lookahead) : Option Move := do
  let token := lookahead.token
  if setting.maxRecoveries ≤ run.recoveries then some (.giveUp token)
  else
    match ← reduceByDefault? setting run lookahead with
    | some stack => some (.reduceByDefault lookahead stack)
    | none =>
      if run.stack.hasConsumedRecovery then some (.giveUp token)
      else
        match ← insertion? setting run token.symbol with
        | some (symbol, target) => some (.insert lookahead symbol target)
        | none =>
          match ← wrapping? setting run token.symbol with
          | some (symbol, target) => some (.wrap token symbol target)
          | none => some (if token.symbol = endSymbol then .giveUp token else .skip token)

def current? : Option Lookahead := do
  match run.lookahead with
  | none => lookahead? setting.language setting.text run.position run.state
  | some lookahead =>
    if (← action? setting.language run.state lookahead.token.symbol).isSome then some lookahead
    else if lookahead.mode = (← lexMode? setting.language run.state) then some lookahead
    else lookahead? setting.language setting.text run.position run.state

def moveOn? (lookahead : Lookahead) : Option Move := do
  let token := lookahead.token
  match ← action? setting.language run.state token.symbol with
  | some (.shift target) => some (.shift token target)
  | some (.reduce symbol count) =>
    match ← reduce? setting.language run.stack symbol count token with
    | some stack => some (.reduce lookahead stack)
    | none => some (.giveUp token)
  | some .accept =>
    if token.symbol = endSymbol then some (.accept token) else recovery? setting run lookahead
  | _ => recovery? setting run lookahead

/-- The next move, found by guarded look-ups. -/
def move? : Option Move := do
  match run.lookahead with
  | some _ => moveOn? setting run (← current? setting run)
  | none =>
    match ← reusable? setting run with
    | some (subtree, target) => some (.reuse subtree target)
    | none => moveOn? setting run (← current? setting run)

end Moves

/-! ### Answers of tables -/

variable {language : Language}

theorem lexMode?_eq {state : StateId} (h : state.toNat < language.stateCount) :
    lexMode? language state = some (language.lexMode state) := by
  rw [lexMode?, Language.lexMode, Array.getElem?_eq_getElem h]
  rfl

theorem lexState?_eq {id : LexStateId} (h : id.toNat < language.lexStates.size) :
    lexState? language id = some (language.lexState id) := by
  rw [lexState?, Language.lexState, Array.getElem?_eq_getElem h]
  rfl

theorem lexState_mem {id : LexStateId} (h : id.toNat < language.lexStates.size) :
    language.lexState id ∈ language.lexStates := by
  rw [Language.lexState, Array.getElem?_eq_getElem h]
  exact Array.getElem_mem h

/-- A place in a row is a place in the table. -/
theorem cell?_eq {α : Type} {table : Array α} {width rows row column : Nat}
    (size : table.size = rows * width) (hr : row < rows) (hc : column < width) :
    ∃ value, cell? table width row column = some value ∧
      table[row * width + column]? = some value := by
  have inside : row * width + column < table.size := by
    calc row * width + column < (row + 1) * width := by rw [Nat.succ_mul]; omega
      _ ≤ rows * width := Nat.mul_le_mul_right _ hr
      _ = table.size := size.symm
  refine ⟨table[row * width + column], ?_, Array.getElem?_eq_getElem inside⟩
  rw [cell?, if_pos hc, Array.getElem?_eq_getElem inside]

section Answers

variable (consistent : language.Consistent)
include consistent

theorem action?_eq {state : StateId} (h : state.toNat < language.stateCount) (symbol : Symbol) :
    action? language state symbol = some (language.action? state symbol) := by
  rw [action?, Language.action?]
  split
  · rename_i terminal
    have column : symbol.toNat < language.tokenCount.toNat := by
      simpa [Language.isTerminal, UInt16.lt_iff_toNat_lt] using terminal
    obtain ⟨value, there, same⟩ := cell?_eq consistent.actionRows h column
    rw [there, same]
    rcases value with - | action
    · rfl
    · cases action <;> rfl
  · rfl

theorem goto?_eq {state : StateId} (h : state.toNat < language.stateCount) {symbol : Symbol}
    (known : symbol = errorSymbol ∨ symbol.toNat < language.symbolCount) :
    goto? language state symbol = some (language.goto? state symbol) := by
  simp only [goto?, Language.goto?]
  split
  · rfl
  · rename_i nonterminal
    simp only [Bool.or_eq_true, decide_eq_true_eq, not_or, Language.isTerminal,
      UInt16.lt_iff_toNat_lt] at nonterminal
    have inside := known.resolve_left nonterminal.1
    have column : symbol.toNat - language.tokenCount.toNat < language.nonterminalCount := by
      have := nonterminal.2
      simp only [Language.nonterminalCount]
      omega
    obtain ⟨value, there, same⟩ := cell?_eq consistent.gotoRows h column
    rw [there, same]
    rfl

theorem defaultReduction?_eq {state : StateId} (h : state.toNat < language.stateCount) :
    defaultReduction? language state = some (language.defaultReduction? state) := by
  rw [← consistent.defaultRows] at h
  rw [defaultReduction?, Language.defaultReduction?, Array.getElem?_eq_getElem h]
  rfl

theorem repairs?_eq {state : StateId} (h : state.toNat < language.stateCount) :
    repairs? language state = some (language.repairs state) := by
  rw [← consistent.repairRows] at h
  rw [repairs?, Language.repairs, Array.getElem?_eq_getElem h]
  rfl

/-! ### Answers of the lexer -/

theorem mode_lt {state : StateId} (h : state.toNat < language.stateCount) :
    (language.lexMode state).toNat < language.lexStates.size := by
  rw [Language.lexMode, Array.getElem?_eq_getElem h]
  exact consistent.modes _ (Array.getElem_mem h)

omit consistent in
theorem visit?_eq {scan : Scan} (h : scan.state.toNat < language.lexStates.size) :
    visit? language scan = some (scan.visit language) := by
  rw [visit?, lexState?_eq h, Scan.visit]
  simp only [Option.bind_eq_bind, Option.bind_some]
  rcases (language.lexState scan.state).accept with - | symbol <;> rfl

/-- A scan goes from lex state to lex state. -/
theorem follow?_eq {scan : Scan} (h : scan.state.toNat < language.lexStates.size) (text : Text) :
    follow? language scan text = some (scan.follow language text) := by
  induction text generalizing scan with
  | nil =>
    rw [follow?, visit?_eq h]
    simp only [Option.bind_eq_bind, Option.bind_some]
    rw [Scan.visit_state, lexState?_eq h]
    simp only [Option.bind_some]
    rcases e : (language.lexState scan.state).atEnd with - | step
    · rw [Scan.follow_end e]
    · rw [Scan.follow_atEnd e]
      exact visit?_eq (by rw [Scan.take_state]; exact consistent.ends _ (lexState_mem h) e)
  | cons c rest ih =>
    rw [follow?, visit?_eq h]
    simp only [Option.bind_eq_bind, Option.bind_some]
    rw [show ((scan.visit language).look c.utf8Size).state = scan.state from Scan.visit_state scan,
      lexState?_eq h]
    simp only [Option.bind_some]
    rcases e : (language.lexState scan.state).step? c with - | step
    · rw [Scan.follow_stop e]
      rfl
    · rw [Scan.follow_step e]
      exact ih (by rw [Scan.take_state]; exact consistent.steps _ (lexState_mem h) e)

theorem lexeme?_eq {mode : LexStateId} (h : mode.toNat < language.lexStates.size) (text : Text)
    (position : Nat) :
    lexeme? language text position mode = some (language.lexeme? text position mode) := by
  rw [lexeme?, follow?_eq consistent h]
  rfl

theorem errorState_lt : errorState.toNat < language.stateCount :=
  Nat.lt_trans (by decide) consistent.states

theorem lookahead?_eq {state : StateId} (h : state.toNat < language.stateCount) (text : Text)
    (position : Nat) :
    lookahead? language text position state = some (language.lookahead text position state) := by
  have fallback := errorState_lt consistent
  simp only [lookahead?, lexMode?_eq h, lexMode?_eq fallback,
    lexeme?_eq consistent (mode_lt consistent h), lexeme?_eq consistent (mode_lt consistent fallback),
    Option.bind_eq_bind, Option.bind_some]
  rw [Language.lookahead]
  rcases language.lexeme? text position (language.lexMode state) with - | lexeme
  · by_cases same : language.lexMode errorState = language.lexMode state
    · rcases text.drop? position with - | (- | ⟨c, rest⟩) <;> simp [same]
    · rcases language.lexeme? text position (language.lexMode errorState) with - | lexeme
      · rcases text.drop? position with - | (- | ⟨c, rest⟩) <;> simp [same]
      · simp [same]
  · rfl

end Answers

/-! ### Answers about moves -/

/-- What a search finds does not depend on how its test is answered. -/
theorem findM?_eq {α : Type} {p : α → Option Bool} {q : α → Bool} {xs : List α}
    (h : ∀ x ∈ xs, p x = some (q x)) : xs.findM? p = some (xs.find? q) := by
  induction xs with
  | nil => rfl
  | cons x xs ih =>
    rw [List.findM?, h x (by simp), ih fun y m => h y (by simp [m]), List.find?_cons]
    rcases e : q x with - | - <;> simp

theorem anyM_eq {α : Type} {p : α → Option Bool} {q : α → Bool} {xs : List α}
    (h : ∀ x ∈ xs, p x = some (q x)) : xs.anyM p = some (xs.any q) := by
  induction xs with
  | nil => rfl
  | cons x xs ih =>
    rw [List.anyM, h x (by simp), ih fun y m => h y (by simp [m]), List.any_cons]
    rcases e : q x with - | - <;> simp

theorem findSomeM?_eq {α β : Type} {p : α → Option (Option β)} {q : α → Option β} {xs : List α}
    (h : ∀ x ∈ xs, p x = some (q x)) : xs.findSomeM? p = some (xs.findSome? q) := by
  induction xs with
  | nil => rfl
  | cons x xs ih =>
    rw [List.findSomeM?_cons, h x (by simp), ih fun y m => h y (by simp [m]), List.findSome?_cons]
    rcases e : q x with - | found <;> simp

section Moves

variable (consistent : language.Consistent)
include consistent

theorem reduce?_eq {stack : Stack} {symbol : Symbol} (count : UInt8)
    (states : ∀ rest, rest <:+ stack → (Stack.top rest).toNat < language.stateCount)
    (known : language.IsNonterminal symbol) (token : Subtree) :
    reduce? language stack symbol count token =
      some (stack.reduce? language symbol count token) := by
  have below := states _
    ((Stack.takeOff_suffix count.toNat stack.belowExtras []).trans (List.dropWhile_suffix _))
  simp only [reduce?, Stack.reduce?, goto?_eq consistent below (.inr known.2),
    Option.bind_eq_bind, Option.bind_some]
  rcases language.goto? _ symbol with - | target
  · rfl
  · rfl

theorem canHandle?_eq (symbol : Symbol) (depth : Nat) {state : StateId}
    (h : state.toNat < language.stateCount) :
    canHandle? language symbol depth state = some (Run.canHandle language symbol depth state) := by
  induction depth generalizing state with
  | zero =>
    simp only [canHandle?, Run.canHandle, action?_eq consistent h, defaultReduction?_eq consistent h,
      Option.bind_eq_bind, Option.bind_some, Option.map_some]
    rcases (language.action? state symbol).isSome with - | - <;> rfl
  | succ depth ih =>
    -- a repair leads to a state that there is
    have deeper := anyM_eq fun repair (m : repair ∈ language.repairs state) =>
      ih (consistent.repairs m).2.1
    simp only [canHandle?, Run.canHandle, action?_eq consistent h, defaultReduction?_eq consistent h,
      repairs?_eq consistent h, Option.bind_eq_bind, Option.bind_some, deeper]
    rcases (language.action? state symbol).isSome with - | -
    · rcases (language.defaultReduction? state).isSome with - | - <;> rfl
    · rfl

omit consistent in
theorem fits?_eq {state : StateId} (h : state.toNat < language.stateCount) {candidate : Subtree}
    (known : candidate.parseState.toNat < language.stateCount) :
    fits? language state candidate = some (Run.fits language state candidate) := by
  simp only [fits?, Run.fits, lexMode?_eq h, lexMode?_eq known, Option.bind_eq_bind,
    Option.bind_some]
  split
  · rfl
  · split <;> rfl

theorem reuseTarget?_eq {state : StateId} (h : state.toNat < language.stateCount) {symbol : Symbol}
    (known : symbol = errorSymbol ∨ symbol.toNat < language.symbolCount) :
    reuseTarget? language state symbol = some (Run.reuseTarget? language state symbol) := by
  simp only [reuseTarget?, Run.reuseTarget?, action?_eq consistent h, goto?_eq consistent h known,
    Option.map_some]
  split
  · rfl
  · rfl

end Moves

end Reparse.Guarded
