/-
Reparse/Proofs/Run/Secure.lean

Parses that stay within the tables.

A run of a consistent language is `Secure` if its stack was put on along
shifts, gotos and error productions of the table, if all subtrees on it are
known, and if its lookahead was read in a state that there is.  Every step
keeps a run secure, also one that takes a subtree from an old tree of known
subtrees.  All look-ups of a secure run are within their tables: `move?_eq`.

What a secure run makes is known.  So it has all closed properties that the old
tree offers: `Setting.throughout_parse`.
-/
import Reparse.Proofs.Run.Closed
import Reparse.Proofs.Run.Ends

namespace Reparse

open Subtree

variable {language : Language}

/-! ### Known tokens -/

/-- Whether a scan has accepted terminals only. -/
def Scan.Proper (language : Language) (scan : Scan) : Prop :=
  ∀ symbol stop, scan.accepted = some (symbol, stop) → language.isTerminal symbol = true

theorem Scan.Proper.take {scan : Scan} (h : scan.Proper language) (width : Nat) (step : LexStep) :
    (scan.take width step).Proper language := by
  intro symbol stop e
  cases step with
  | advance target => exact h symbol stop e
  | skip target => cases e

namespace Language.Consistent

variable (consistent : language.Consistent)
include consistent

/-- A lex state accepts terminals only. -/
theorem isTerminal_of_accept {id : LexStateId} {symbol : Symbol}
    (accepts : (language.lexState id).accept = some symbol) :
    language.isTerminal symbol = true := by
  by_cases inside : id.toNat < language.lexStates.size
  · exact consistent.accepts _ (Guarded.lexState_mem inside) accepts
  · -- outside of the table there is a state that accepts nothing
    rw [Language.lexState, Array.getElem?_eq_none (Nat.le_of_not_lt inside)] at accepts
    cases accepts

theorem proper_visit {scan : Scan} (h : scan.Proper language) :
    (scan.visit language).Proper language := by
  intro symbol stop e
  rw [Scan.visit_accepted] at e
  split at e
  · rename_i accepts
    cases e
    exact consistent.isTerminal_of_accept accepts
  · exact h symbol stop e

/-- Only terminals are found in a text. -/
theorem isTerminal_of_lexeme? {text : Text} {position : Nat} {mode : LexStateId} {lexeme : Lexeme}
    (found : language.lexeme? text position mode = some lexeme) :
    language.isTerminal lexeme.symbol = true := by
  have proper : (Scan.follow language { state := mode }
      ((text.drop? position).getD [])).Proper language := by
    refine Scan.follow_invariant (I := fun scan => scan.Proper language) ?_ ?_ ?_ ?_ _
    · intro scan c step proper _
      have peeked : (scan.peek language c).Proper language := consistent.proper_visit proper
      exact peeked.take c.utf8Size step
    · intro scan c proper _
      exact consistent.proper_visit proper
    · intro scan proper
      rcases e : (language.lexState scan.state).atEnd with - | step
      · rw [Scan.follow_end e]
        exact consistent.proper_visit proper
      · rw [Scan.follow_atEnd e]
        exact consistent.proper_visit ((consistent.proper_visit proper).take 0 step)
    · intro symbol stop none
      cases none
  obtain ⟨⟨symbol, stop⟩, accepted, rfl⟩ := Option.map_eq_some_iff.mp found
  exact proper symbol stop accepted

theorem lt_of_isTerminal {symbol : Symbol} (h : language.isTerminal symbol = true) :
    symbol.toNat < language.symbolCount := by
  have := consistent.tokens
  simp only [isTerminal, decide_eq_true_eq, UInt16.lt_iff_toNat_lt] at h
  omega

theorem isTerminal_errorSymbol : language.isTerminal errorSymbol = false := by
  have := consistent.tokens
  have := consistent.symbols
  simp only [isTerminal, decide_eq_false_iff_not, UInt16.lt_iff_toNat_lt]
  omega

theorem ne_errorSymbol_of_action? {state : StateId} {symbol : Symbol} {action : ParseAction}
    (h : language.action? state symbol = some action) : symbol ≠ errorSymbol := by
  rintro rfl
  simp [action?, consistent.isTerminal_errorSymbol] at h

/-- A token is a terminal, or skipped input. -/
theorem symbol_lookahead (text : Text) (position : Nat) (state : StateId) :
    language.isTerminal (language.lookahead text position state).token.symbol = true ∨
      (language.lookahead text position state).token.symbol = errorSymbol := by
  have read := language.tokenAt_lookahead text position state
  generalize (language.lookahead text position state).token = token at read ⊢
  cases read with
  | lexeme _ found => exact .inl (consistent.isTerminal_of_lexeme? found)
  | character => exact .inr rfl
  | stop => exact .inl (decide_eq_true consistent.terminals)

theorem known_lookahead {state : StateId} (h : state.toNat < language.stateCount) (text : Text)
    (position : Nat) : Known language (language.lookahead text position state).token := by
  have terminal := consistent.symbol_lookahead text position state
  refine ⟨terminal.symm.imp id consistent.lt_of_isTerminal, ?_⟩
  obtain ⟨symbol, padding, size, lookahead, e⟩ := lookahead_token language text position state
  rw [e]
  exact h

end Language.Consistent

/-! ### Secure runs -/

/-- The ways from a state to the one behind a symbol. -/
def Language.Leads (language : Language) (state : StateId) (symbol : Symbol) (target : StateId) :
    Prop :=
  language.action? state symbol = some (.shift target) ∨
    language.goto? state symbol = some target ∨ (symbol, target) ∈ language.repairs state

theorem Language.Consistent.leads_lt (consistent : language.Consistent) {state target : StateId}
    {symbol : Symbol} (h : language.Leads state symbol target) :
    target.toNat < language.stateCount := by
  rcases h with shift | goto | repair
  · exact consistent.shifts shift
  · exact consistent.gotos goto
  · exact (consistent.repairs repair).2.1

/-- A stack along the ways of a table has states of the table only. -/
theorem Stack.Along.top_lt (consistent : language.Consistent) {rests : StateId → Prop}
    {stack : Stack} (h : stack.Along language.Leads rests) :
    stack.top.toNat < language.stateCount := by
  induction stack with
  | nil => exact consistent.states
  | cons entry below ih =>
    rcases e : entry.subtree.marks.extra with - | -
    · exact consistent.leads_lt ((along_cons e).mp h).1
    · obtain ⟨⟨same, -⟩, hb⟩ := (along_extra e).mp h
      rw [Stack.top, same]
      exact ih hb

/-- A property holds throughout all that a parse may take from its old tree. -/
def Setting.Offers (P : Subtree → Prop) (setting : Setting) : Prop :=
  ∀ root, setting.old = some root → ∀ position state,
    ∀ candidate ∈ root.startingAt position 0,
      Run.fits setting.language state candidate = true → Throughout P candidate

/-- It does so if it holds throughout the old tree. -/
theorem Setting.offers_of_throughout {P : Subtree → Prop} {setting : Setting}
    (old : ∀ root, setting.old = some root → Throughout P root) : setting.Offers P :=
  fun root here _ _ _ within _ => (old root here).startingAt within

namespace Run

/-- What makes all look-ups of a run safe. -/
structure Secure (setting : Setting) (run : Run) : Prop where
  founded : run.stack.Along setting.language.Leads fun _ => True
  known : ∀ tree ∈ run.stack.subtrees, Throughout (Known setting.language) tree
  reads : ∀ lookahead, run.lookahead = some lookahead →
    ∃ state : StateId, state.toNat < setting.language.stateCount ∧
      lookahead = setting.language.lookahead setting.text run.position state

variable {setting : Setting} {run : Run}

theorem secure_start : Secure setting {} where
  founded := trivial
  known tree m := by simp at m
  reads lookahead e := by cases e

theorem Secure.states (h : Secure setting run) (consistent : setting.language.Consistent) :
    ∀ rest, rest <:+ run.stack → (Stack.top rest).toNat < setting.language.stateCount :=
  fun _ below => (h.founded.suffix below).top_lt consistent

theorem Secure.state_lt (h : Secure setting run) (consistent : setting.language.Consistent) :
    run.state.toNat < setting.language.stateCount :=
  h.founded.top_lt consistent

/-- The current token was read in a state that there is. -/
theorem Secure.current (h : Secure setting run) (consistent : setting.language.Consistent) :
    ∃ state : StateId, state.toNat < setting.language.stateCount ∧
      run.current setting = setting.language.lookahead setting.text run.position state := by
  rcases e : run.lookahead with - | lookahead
  · exact ⟨run.state, h.state_lt consistent, by simp [Run.current, e]⟩
  · obtain ⟨state, inside, rfl⟩ := h.reads _ e
    simp only [Run.current, e]
    split
    · exact ⟨run.state, h.state_lt consistent, rfl⟩
    · exact ⟨state, inside, rfl⟩

theorem Secure.run_reads (h : Secure setting run) : run.Reads setting := fun lookahead e =>
  let ⟨state, _, read⟩ := h.reads lookahead e
  ⟨state, read⟩

/-- The current token has all closed properties. -/
theorem Secure.closed_current (h : Secure setting run)
    (consistent : setting.language.Consistent) {P : Subtree → Prop}
    (closed : Closed setting.language P) : Throughout P (run.current setting).token := by
  obtain ⟨state, inside, read⟩ := h.current consistent
  rw [read]
  exact closed.throughout_lookahead (consistent.known_lookahead inside ..)

theorem Secure.throughout_current (h : Secure setting run)
    (consistent : setting.language.Consistent) :
    Throughout (Known setting.language) (run.current setting).token :=
  h.closed_current consistent (closed_known setting.language)

/-- A step on the current token keeps it in front, or takes it. -/
theorem lookahead_of_turn {next : Run} (running : run.turn setting = .running next) :
    next.lookahead = none ∨
      next.lookahead = some (run.current setting) ∧ next.position = run.position := by
  obtain ⟨move, choice, running⟩ := exists_choice running
  cases choice with
  | shift | wrap | skip => cases running; exact .inl rfl
  | reduce | reduceByDefault | insert => cases running; exact .inr ⟨rfl, rfl⟩
  | accept | giveUp => cases running

/-- **A step on the current token** keeps a run secure. -/
theorem Secure.turn (h : Secure setting run) (consistent : setting.language.Consistent)
    {next : Run} (running : run.turn setting = .running next) : Secure setting next := by
  obtain ⟨founded, -⟩ := h.founded.turn h.run_reads
    (fun action => ⟨consistent.ne_errorSymbol_of_action? action, .inl action⟩)
    (fun repair => .inr (.inr repair))
    (fun reduces reduced => (h.founded.reduce? reduced fun _ _ _ _ goto =>
      ⟨.inr (.inl goto), fun _ => trivial⟩).1)
    (fun _ _ => trivial) running
  refine ⟨founded, (closed_known setting.language).throughout_turn consistent h.known
    (h.states consistent) (h.throughout_current consistent) running, fun lookahead e => ?_⟩
  obtain ⟨state, inside, read⟩ := h.current consistent
  rcases lookahead_of_turn running with none | ⟨kept, same⟩
  · rw [none] at e
    cases e
  · rw [kept] at e
    cases e
    exact ⟨state, inside, by rw [same]; exact read⟩

/-- **Every step** keeps a run secure, if all of the old tree is known. -/
theorem Secure.step (h : Secure setting run) (consistent : setting.language.Consistent)
    (old : ∀ root, setting.old = some root → Throughout (Known setting.language) root)
    {next : Run} (running : run.step setting = .running next) : Secure setting next := by
  rcases running_cases running with ⟨subtree, target, unread, found, rfl⟩ | turned
  · obtain ⟨root, here, there, -, -⟩ := reusable?_eq_some found
    refine ⟨h.founded.reuse found fun leads => leads.imp id .inl, ?_, ?_⟩
    · simp only [Run.push, Stack.subtrees_cons, List.forall_mem_append, List.forall_mem_singleton]
      exact ⟨h.known, (old root here).startingAt there⟩
    · intro lookahead e
      rw [Run.push, unread] at e
      cases e
  · exact h.turn consistent turned

/-! ### Guarded moves -/

section Guarded

open Reparse.Guarded

variable (h : Secure setting run) (consistent : setting.language.Consistent)
include h consistent

theorem Secure.reusable?_eq
    (old : ∀ root, setting.old = some root → Throughout (Known setting.language) root) :
    Guarded.reusable? setting run = some (run.reusable? setting) := by
  have top := h.state_lt consistent
  rw [Guarded.reusable?, Run.reusable?]
  rcases e : setting.old with - | root
  · rfl
  · refine findSomeM?_eq fun candidate m => ?_
    have known := ((old root e).startingAt m).self
    rw [fits?_eq top known.state]
    simp only [Option.bind_eq_bind, Option.bind_some]
    split
    · rw [reuseTarget?_eq consistent top known.symbol, Option.map_some]
    · rfl

theorem Secure.reduceByDefault?_eq (lookahead : Lookahead) :
    reduceByDefault? setting run lookahead = some (run.defaultReduction? setting lookahead) := by
  rw [reduceByDefault?, Run.defaultReduction?, defaultReduction?_eq consistent (h.state_lt consistent)]
  simp only [Option.bind_eq_bind, Option.bind_some]
  rcases e : setting.language.defaultReduction? run.state with - | ⟨made, count⟩
  · rfl
  · exact reduce?_eq consistent count (h.states consistent) (consistent.defaults e) _

theorem Secure.insertion?_eq (symbol : Symbol) :
    Guarded.insertion? setting run symbol = some (run.insertion? setting symbol) := by
  rw [Guarded.insertion?, Run.insertion?]
  split
  · rfl
  · rw [repairs?_eq consistent (h.state_lt consistent)]
    exact findM?_eq fun repair m => canHandle?_eq consistent symbol _ (consistent.repairs m).2.1

theorem Secure.wrapping?_eq (symbol : Symbol) :
    Guarded.wrapping? setting run symbol = some (run.wrapping? setting symbol) := by
  rw [Guarded.wrapping?, Run.wrapping?, repairs?_eq consistent (h.state_lt consistent)]
  split <;> rfl

theorem Secure.recovery?_eq (lookahead : Lookahead) :
    recovery? setting run lookahead = some (run.recovery setting lookahead) := by
  simp only [recovery?, Run.recovery, h.reduceByDefault?_eq consistent,
    h.insertion?_eq consistent, h.wrapping?_eq consistent, Option.bind_eq_bind, Option.bind_some]
  split
  · rfl
  · rcases run.defaultReduction? setting lookahead with - | stack
    · simp only
      split
      · rfl
      · rcases run.insertion? setting lookahead.token.symbol with - | repair
        · rcases run.wrapping? setting lookahead.token.symbol with - | repair <;> rfl
        · rfl
    · rfl

theorem Secure.current?_eq : current? setting run = some (run.current setting) := by
  have top := h.state_lt consistent
  rw [current?, Run.current]
  rcases run.lookahead with - | lookahead
  · exact lookahead?_eq consistent top ..
  · simp only [action?_eq consistent top, lexMode?_eq top, lookahead?_eq consistent top,
      Option.bind_eq_bind, Option.bind_some]
    rcases setting.language.action? run.state lookahead.token.symbol with - | action
    · by_cases same : lookahead.mode = setting.language.lexMode run.state
      · simp [same]
      · simp [same]
    · simp

theorem Secure.moveOn?_eq (lookahead : Lookahead) :
    moveOn? setting run lookahead = some (run.moveOn setting lookahead) := by
  rw [moveOn?, Run.moveOn, action?_eq consistent (h.state_lt consistent), Option.bind_eq_bind,
    Option.bind_some]
  rcases e : setting.language.action? run.state lookahead.token.symbol with - | action
  · exact h.recovery?_eq consistent lookahead
  · cases action with
    | shift target => rfl
    | reduce made count =>
      dsimp only
      rw [reduce?_eq consistent count (h.states consistent) (consistent.reduces e)]
      rcases run.stack.reduce? setting.language made count lookahead.token with - | stack <;> rfl
    | accept =>
      dsimp only
      split
      · rfl
      · exact h.recovery?_eq consistent lookahead
    | recover => exact h.recovery?_eq consistent lookahead

/-- **Guarded look-ups** lead a secure run to the same move. -/
theorem Secure.move?_eq
    (old : ∀ root, setting.old = some root → Throughout (Known setting.language) root) :
    move? setting run = some (run.move setting) := by
  rw [move?, Run.move, h.current?_eq consistent, h.reusable?_eq consistent old]
  simp only [Option.bind_eq_bind, Option.bind_some, h.moveOn?_eq consistent]
  rcases run.lookahead with - | lookahead
  · rcases run.reusable? setting with - | ⟨subtree, target⟩ <;> rfl
  · rfl

end Guarded

/-! ### Other closed properties -/

section Closed

variable {P : Subtree → Prop} (closed : Closed setting.language P)
  (consistent : setting.language.Consistent)
include closed consistent

/-- **Every step** of a secure run keeps a closed property that the old tree offers. -/
theorem Secure.throughout_step (h : Secure setting run) (offers : setting.Offers P)
    (row : ∀ tree ∈ run.stack.subtrees, Throughout P tree) {next : Run}
    (running : run.step setting = .running next) :
    ∀ tree ∈ next.stack.subtrees, Throughout P tree := by
  rcases running_cases running with ⟨subtree, target, -, found, rfl⟩ | turned
  · obtain ⟨root, here, within, fits, -⟩ := reusable?_eq_some found
    simp only [Run.push, Stack.subtrees_cons, List.forall_mem_append, List.forall_mem_singleton]
    exact ⟨row, offers root here _ _ subtree within fits⟩
  · exact closed.throughout_turn consistent row (h.states consistent)
      (h.closed_current consistent closed) turned

/-- **The root** of a secure run has the closed properties of what is on the stack. -/
theorem Secure.throughout_finished (h : Secure setting run)
    (row : ∀ tree ∈ run.stack.subtrees, Throughout P tree) {root : Subtree} {reused : Nat}
    (finished : run.step setting = .finished root reused) : Throughout P root := by
  have token := h.closed_current consistent closed
  rcases root_of_finished finished with rfl | rfl
  · exact closed.throughout_accept consistent row (fun tree m => (h.known tree m).self) token
  · exact closed.throughout_giveUp consistent row token

end Closed

/-! ### Whole parses -/

section Parse

variable (consistent : setting.language.Consistent)
  (known : ∀ root, setting.old = some root → Throughout (Known setting.language) root)
include consistent known

theorem Steps.secure (reached : Steps setting {} run) : run.Secure setting :=
  reached.of_invariant (fun _ _ h running => h.step consistent known running) secure_start

/-- Wherever a parse comes to, all that is on the stack has the closed properties that the
old tree offers. -/
theorem Steps.throughout {P : Subtree → Prop} (closed : Closed setting.language P)
    (offers : setting.Offers P) (reached : Steps setting {} run) :
    ∀ tree ∈ run.stack.subtrees, Throughout P tree := by
  have both := reached.of_invariant
    (I := fun run => run.Secure setting ∧ ∀ tree ∈ run.stack.subtrees, Throughout P tree)
    (fun _ _ h running => ⟨h.1.step consistent known running,
      h.1.throughout_step closed consistent offers h.2 running⟩)
    ⟨secure_start, fun tree none => by simp at none⟩
  exact both.2

end Parse

end Run

/-- **A closed property holds throughout the root of a parse**, if it does so of all that
the old tree offers; and throughout each root that any number of steps comes to. -/
theorem Setting.throughout_roots {setting : Setting} (consistent : setting.language.Consistent)
    (known : ∀ root, setting.old = some root → Throughout (Known setting.language) root)
    {P : Subtree → Prop} (closed : Closed setting.language P) (offers : setting.Offers P) :
    (∀ steps root reused, Progress.advance setting steps (.running {}) = .finished root reused →
      Throughout P root) ∧ Throughout P setting.parse.1 := by
  refine Run.every_parse
    (I := fun run => run.Secure setting ∧ ∀ tree ∈ run.stack.subtrees, Throughout P tree)
    ⟨Run.secure_start, fun _ none => by cases none⟩ ?_ ?_ ?_
  · rintro run next ⟨secure, row⟩ running
    exact ⟨secure.step consistent known running,
      secure.throughout_step closed consistent offers row running⟩
  · rintro run root reused ⟨secure, row⟩ finished
    exact secure.throughout_finished closed consistent row finished
  · rintro run ⟨secure, row⟩
    exact closed.throughout_giveUp consistent row (secure.closed_current consistent closed)

theorem Setting.throughout_parse {setting : Setting} (consistent : setting.language.Consistent)
    (known : ∀ root, setting.old = some root → Throughout (Known setting.language) root)
    {P : Subtree → Prop} (closed : Closed setting.language P) (offers : setting.Offers P) :
    Throughout P setting.parse.1 :=
  (throughout_roots consistent known closed offers).2

end Reparse
