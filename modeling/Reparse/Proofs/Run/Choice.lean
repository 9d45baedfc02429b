/-
Reparse/Proofs/Run/Choice.lean

What a step of a parse can be.

`Choice` lists the moves that a token can lead to, each with what has to hold
for it.  It is read off `moveOn` once, in `choice_moveOn`; what a parse keeps
from step to step is then shown for one kind of move after the other, without
a look at how the move was found.  `exists_choice` opens a step on the current
token, `root_of_turn` one that ends the parse.  The parts of a reduction are
named in `reduce?_eq_some_iff`.
-/
import Reparse.Proofs.Subtree.Intact
import Reparse.Run.Step

namespace Reparse

open Subtree

/-! ### Rows of the stack -/

namespace Stack

@[simp] theorem subtrees_nil : subtrees [] = [] := rfl

@[simp] theorem subtrees_cons (entry : Entry) (stack : Stack) :
    subtrees (entry :: stack) = subtrees stack ++ [entry.subtree] := by
  simp [subtrees]

@[simp] theorem subtrees_append (above below : Stack) :
    subtrees (above ++ below) = subtrees below ++ subtrees above := by
  simp [subtrees]

theorem extras_append_belowExtras (stack : Stack) :
    stack.extras ++ stack.belowExtras = stack :=
  List.takeWhile_append_dropWhile

theorem extra_of_mem_extras {stack : Stack} {entry : Entry} (h : entry ∈ stack.extras) :
    entry.subtree.marks.extra = true := by
  induction stack with
  | nil => simp [extras] at h
  | cons first rest ih =>
    rw [extras, List.takeWhile_cons] at h
    split at h
    · rename_i hx
      rcases List.mem_cons.mp h with rfl | h
      · exact hx
      · exact ih h
    · simp at h

theorem belowExtras_cons_not_extra {stack below : Stack} {entry : Entry}
    (h : stack.belowExtras = entry :: below) : entry.subtree.marks.extra = false := by
  have := List.head?_dropWhile_not (fun e : Entry => e.subtree.marks.extra) stack
  rw [belowExtras] at h
  simpa [h] using this

/-- The same subtrees in front of another state. -/
def moved (stack : Stack) (target : StateId) : Stack :=
  stack.map fun entry => { entry with state := target }

@[simp] theorem subtrees_moved (stack : Stack) (target : StateId) :
    (stack.moved target).subtrees = stack.subtrees := by
  simp [moved, subtrees, Function.comp_def]

/-! ### Reductions -/

theorem takeOff_subtrees (count : Nat) (stack : Stack) (taken : List Subtree) :
    Stack.subtrees (takeOff count stack taken).2 ++ (takeOff count stack taken).1 =
      stack.subtrees ++ taken := by
  fun_induction takeOff count stack taken with
  | case1 stack taken => rfl
  | case2 count taken => rfl
  | case3 count taken entry stack extra ih => simpa using ih
  | case4 count taken entry stack extra ih => simpa using ih

theorem takeOff_suffix (count : Nat) (stack : Stack) (taken : List Subtree) :
    (takeOff count stack taken).2 <:+ stack := by
  fun_induction takeOff count stack taken with
  | case1 stack taken => exact List.suffix_rfl
  | case2 count taken => exact List.suffix_rfl
  | case3 count taken entry stack extra ih => exact ih.trans (List.suffix_cons ..)
  | case4 count taken entry stack extra ih => exact ih.trans (List.suffix_cons ..)

/-- What a reduction depends on: the extras on top and the token behind them. -/
def needed (stack : Stack) (token : Subtree) : Nat :=
  totalSizes stack.extras.subtrees + token.totalSize + token.lookahead

/-- A reduction takes a row of subtrees off the stack below the extras on top
and puts a node of them in its place. -/
theorem reduce?_eq_some_iff {language : Language} {stack reduced : Stack} {symbol : Symbol}
    {count : UInt8} {token : Subtree} :
    reduce? language stack symbol count token = some reduced ↔
      ∃ children rest target, takeOff count.toNat stack.belowExtras [] = (children, rest) ∧
        language.goto? rest.top symbol = some target ∧
        reduced = stack.extras.moved target ++
          ⟨target, (node language symbol children rest.top).needing (stack.needed token)⟩ ::
            rest := by
  rcases e : takeOff count.toNat stack.belowExtras [] with ⟨children, rest⟩
  simp only [reduce?, e, Option.map_eq_some_iff, Prod.mk.injEq]
  constructor
  · rintro ⟨target, hg, rfl⟩
    exact ⟨children, rest, target, ⟨rfl, rfl⟩, hg, rfl⟩
  · rintro ⟨children, rest, target, ⟨rfl, rfl⟩, hg, rfl⟩
    exact ⟨target, hg, rfl⟩

end Stack

/-! ### Moves -/

namespace Run

variable (setting : Setting) (run : Run)

/-- The moves that a lookahead can lead to. -/
inductive Choice (lookahead : Lookahead) : Move → Prop
  | shift {target : StateId}
      (action : setting.language.action? run.state lookahead.token.symbol = some (.shift target)) :
      Choice lookahead (.shift lookahead.token target)
  | reduce {symbol : Symbol} {count : UInt8} {stack : Stack}
      (action : setting.language.action? run.state lookahead.token.symbol =
        some (.reduce symbol count))
      (reduced : run.stack.reduce? setting.language symbol count lookahead.token = some stack) :
      Choice lookahead (.reduce lookahead stack)
  | accept
      (action : setting.language.action? run.state lookahead.token.symbol = some .accept)
      (complete : lookahead.token.symbol = endSymbol) :
      Choice lookahead (.accept lookahead.token)
  | reduceByDefault {symbol : Symbol} {count : UInt8} {stack : Stack}
      (budget : run.recoveries < setting.maxRecoveries)
      (default : setting.language.defaultReduction? run.state = some (symbol, count))
      (reduced : run.stack.reduce? setting.language symbol count lookahead.token = some stack) :
      Choice lookahead (.reduceByDefault lookahead stack)
  | insert {symbol : Symbol} {target : StateId}
      (budget : run.recoveries < setting.maxRecoveries)
      (repair : (symbol, target) ∈ setting.language.repairs run.state)
      (intact : run.stack.hasConsumedRecovery = false)
      (first : (run.state, run.position) ∉ run.inserted) :
      Choice lookahead (.insert lookahead symbol target)
  | wrap {symbol : Symbol} {target : StateId}
      (budget : run.recoveries < setting.maxRecoveries)
      (repair : (symbol, target) ∈ setting.language.repairs run.state)
      (proper : lookahead.token.symbol ≠ endSymbol ∧ lookahead.token.symbol ≠ errorSymbol)
      (intact : run.stack.hasConsumedRecovery = false) :
      Choice lookahead (.wrap lookahead.token symbol target)
  | skip
      (budget : run.recoveries < setting.maxRecoveries)
      (default : run.defaultReduction? setting lookahead = none)
      (useless : lookahead.token.symbol = errorSymbol ∨
        setting.language.repairs run.state = [])
      (more : lookahead.token.symbol ≠ endSymbol)
      (intact : run.stack.hasConsumedRecovery = false) :
      Choice lookahead (.skip lookahead.token)
  | giveUp
      (reason : setting.maxRecoveries ≤ run.recoveries ∨
        run.stack.hasConsumedRecovery = true ∨
        (lookahead.token.symbol = endSymbol ∧
          run.defaultReduction? setting lookahead = none) ∨
        ∃ symbol count, setting.language.action? run.state lookahead.token.symbol =
            some (.reduce symbol count) ∧
          run.stack.reduce? setting.language symbol count lookahead.token = none) :
      Choice lookahead (.giveUp lookahead.token)

variable {setting run}

theorem insertion?_mem {symbol : Symbol} {repair : Symbol × StateId}
    (h : run.insertion? setting symbol = some repair) :
    repair ∈ setting.language.repairs run.state := by
  simp only [insertion?] at h
  split at h
  · simp at h
  · exact List.mem_of_find?_eq_some h

theorem insertion?_first {symbol : Symbol} {repair : Symbol × StateId}
    (h : run.insertion? setting symbol = some repair) :
    (run.state, run.position) ∉ run.inserted := by
  simp only [insertion?] at h
  split at h
  · simp at h
  · rename_i first
    simpa using first

theorem wrapping?_mem {symbol : Symbol} {repair : Symbol × StateId}
    (h : run.wrapping? setting symbol = some repair) :
    repair ∈ setting.language.repairs run.state ∧ symbol ≠ endSymbol ∧ symbol ≠ errorSymbol := by
  simp only [wrapping?] at h
  split at h
  · simp at h
  · rename_i h'
    exact ⟨List.mem_of_head? h, by simpa using h'⟩

theorem wrapping?_eq_none {symbol : Symbol} (h : run.wrapping? setting symbol = none)
    (more : symbol ≠ endSymbol) :
    symbol = errorSymbol ∨ setting.language.repairs run.state = [] := by
  simp only [wrapping?] at h
  split at h
  · rename_i h'
    simp only [Bool.or_eq_true, decide_eq_true_eq] at h'
    exact .inl (h'.resolve_left more)
  · exact .inr (by simpa using h)

theorem choice_recovery (lookahead : Lookahead) :
    Choice setting run lookahead (run.recovery setting lookahead) := by
  simp only [recovery]
  split
  · exact .giveUp (.inl ‹_›)
  · rename_i budget
    replace budget : run.recoveries < setting.maxRecoveries := by omega
    rcases default : run.defaultReduction? setting lookahead with - | stack
    · simp only
      split
      · exact .giveUp (.inr (.inl ‹_›))
      · rename_i intact
        replace intact : run.stack.hasConsumedRecovery = false := by simpa using intact
        rcases insertion : run.insertion? setting lookahead.token.symbol with - | ⟨symbol, target⟩
        · rcases wrapping : run.wrapping? setting lookahead.token.symbol with - | ⟨symbol, target⟩
          · simp only
            split
            · exact .giveUp (.inr (.inr (.inl ⟨‹_›, default⟩)))
            · exact .skip budget default (wrapping?_eq_none wrapping ‹_›) ‹_› intact
          · have h := wrapping?_mem wrapping
            exact .wrap budget h.1 h.2 intact
        · exact .insert budget (insertion?_mem insertion) intact (insertion?_first insertion)
    · obtain ⟨⟨symbol, count⟩, default, reduced⟩ := Option.bind_eq_some_iff.mp default
      exact .reduceByDefault budget default reduced

/-- Every move on a token is one of those listed. -/
theorem choice_moveOn (setting : Setting) (run : Run) (lookahead : Lookahead) :
    Choice setting run lookahead (run.moveOn setting lookahead) := by
  rw [moveOn]
  rcases action : setting.language.action? run.state lookahead.token.symbol with - | found
  · exact choice_recovery lookahead
  · cases found with
    | shift target => exact .shift action
    | reduce symbol count =>
      simp only
      rcases reduced : run.stack.reduce? setting.language symbol count lookahead.token with
        - | stack
      · exact .giveUp (.inr (.inr (.inr ⟨symbol, count, action, reduced⟩)))
      · exact .reduce action reduced
    | accept =>
      simp only
      split
      · exact .accept action ‹_›
      · exact choice_recovery lookahead
    | recover => exact choice_recovery lookahead

/-! ### The current token -/

/-- The lookahead of a run was read in some state at its position. -/
def Reads (setting : Setting) (run : Run) : Prop :=
  ∀ lookahead, run.lookahead = some lookahead →
    ∃ state, lookahead = setting.language.lookahead setting.text run.position state

/-- The current token was read in the lex state of the current parse state, or
it fits there. -/
theorem Reads.current (h : Reads setting run) :
    ∃ state, run.current setting = setting.language.lookahead setting.text run.position state ∧
      (setting.language.lexMode state = setting.language.lexMode run.state ∨
        (setting.language.action? run.state (run.current setting).token.symbol).isSome) := by
  rcases e : run.lookahead with - | lookahead
  · exact ⟨run.state, by simp [Run.current, e], .inl rfl⟩
  · obtain ⟨state, rfl⟩ := h _ e
    simp only [Run.current, e]
    split
    · exact ⟨run.state, rfl, .inl rfl⟩
    · rename_i keep
      refine ⟨state, rfl, ?_⟩
      simp only [Bool.and_eq_true, bne_iff_ne, ne_eq, not_and, Decidable.not_not,
        Option.isNone_iff_eq_none] at keep
      rcases fit : setting.language.action? run.state
        (setting.language.lookahead setting.text run.position state).token.symbol with - | action
      · exact .inl (by simpa [Language.lookahead] using keep fit)
      · exact .inr (by simp)

/-- The step on the current token. -/
def turn (setting : Setting) (run : Run) : Progress :=
  run.make setting (run.moveOn setting (run.current setting))

/-- What a step on the current token comes to is what one of the moves that the
token can lead to makes. -/
theorem exists_choice {progress : Progress} (h : run.turn setting = progress) :
    ∃ move, Choice setting run (run.current setting) move ∧ run.make setting move = progress :=
  ⟨_, choice_moveOn setting run _, h⟩

/-- A step ends a parse where the table accepts the end of the text, or by giving up. -/
theorem root_of_turn {root : Subtree} {reused : Nat}
    (finished : run.turn setting = .finished root reused) :
    (setting.language.action? run.state (run.current setting).token.symbol = some .accept ∧
      (run.current setting).token.symbol = endSymbol ∧
      root = run.accept setting (run.current setting).token) ∨
    root = run.giveUp setting (run.current setting).token := by
  obtain ⟨move, choice, finished⟩ := exists_choice finished
  cases choice with
  | accept action complete => cases finished; exact .inl ⟨action, complete, rfl⟩
  | giveUp => cases finished; exact .inr rfl
  | shift | reduce | reduceByDefault | insert | wrap | skip => cases finished

/-- What a step on the current token does to the counters of a run. -/
structure Onward (setting : Setting) (run next : Run) : Prop where
  reads : next.Reads setting
  position : next.position = run.position ∨
    next.position = run.position + (run.current setting).token.totalSize
  recoveries : next.recoveries ≤ run.recoveries + 1

theorem Reads.turn (h : Reads setting run) {next : Run}
    (running : run.turn setting = .running next) : Onward setting run next := by
  obtain ⟨move, choice, running⟩ := exists_choice running
  obtain ⟨state, read, -⟩ := h.current
  have stays (later : Run) (same : later.position = run.position)
      (kept : later.lookahead = some (run.current setting)) : later.Reads setting := by
    intro lookahead e
    rw [kept] at e
    cases e
    exact ⟨state, same ▸ read⟩
  have unread (later : Run) (none : later.lookahead = none) : later.Reads setting := by
    intro lookahead e
    rw [none] at e
    cases e
  cases choice with
  | shift => cases running; exact ⟨unread _ rfl, .inr rfl, Nat.le_succ _⟩
  | reduce => cases running; exact ⟨stays _ rfl rfl, .inl rfl, Nat.le_succ _⟩
  | accept => cases running
  | reduceByDefault => cases running; exact ⟨stays _ rfl rfl, .inl rfl, Nat.le_refl _⟩
  | insert => cases running; exact ⟨stays _ rfl rfl, .inl rfl, Nat.le_refl _⟩
  | wrap =>
    cases running
    refine ⟨unread _ rfl, .inr ?_, Nat.le_refl _⟩
    simp only [Run.push, totalSize_node, totalSizes, Nat.add_zero]
  | skip => cases running; exact ⟨unread _ rfl, .inr rfl, Nat.le_refl _⟩
  | giveUp => cases running

/-- Without a subtree to reuse, a step is one on the current token. -/
theorem step_eq_turn (h : run.lookahead = none → run.reusable? setting = none) :
    run.step setting = run.turn setting := by
  rcases e : run.lookahead with - | lookahead
  · simp [step, turn, move, e, h e]
  · simp [step, turn, move, e]

/-- Without an old tree a step is the one on the current token. -/
theorem step_of_fresh (fresh : setting.old = none) (run : Run) :
    run.step setting = run.turn setting :=
  step_eq_turn fun _ => by rw [reusable?, fresh]; rfl

end Run

end Reparse
