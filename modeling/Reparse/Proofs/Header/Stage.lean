/-
Reparse/Proofs/Header/Stage.lean

How a parse reads a well formed header.

`ReadUpTo` is a header read up to a slot: the stack that its tokens make, and the
text left.  A slot that fits is shifted (`At.turn_takes`), so a parse comes to
every place that the text has a header up to (`ReadUpTo.steps`).
-/
import Reparse.Proofs.Header.Path
import Reparse.Proofs.Run.Repair

namespace Reparse.Header

open Subtree

variable {text : Text} {limit : Nat} {old : Option Subtree}

/-! ### Steps on a known token -/

section Turn

variable {run : Run} {token : Subtree}

theorem turn_shift
    (current : (run.current (setting text limit old)).token.bare = token) (target : StateId)
    (action : language.action? run.state token.symbol = some (.shift target)) :
    (run.turn (setting text limit old)).bare =
      .running { run.bare with
        stack := ⟨target, token⟩ :: run.stack.bare
        position := run.position + token.totalSize
        lookahead := none } := by
  subst current
  rw [bare_symbol] at action
  simp [Run.turn, Run.moveOn, action, Run.make, Progress.bare, Run.bare, Run.push, Entry.bare]

/-- Without a lookahead the token is read at the position. -/
theorem current_of_none {rest : Text} (lookahead : run.lookahead = none)
    (drop : text.drop? run.position = some rest) :
    run.current (setting text limit old) = language.lookahead rest 0 run.state := by
  simp [Run.current, lookahead, Language.lookahead_at drop]

/-- A lookahead that fits is kept. -/
theorem current_of_fits {lookahead : Lookahead} (kept : run.lookahead = some lookahead)
    (fits : (language.action? run.state lookahead.token.symbol).isSome) :
    run.current (setting text limit old) = lookahead := by
  rw [← Option.not_isNone, Bool.not_eq_true'] at fits
  simp [Run.current, kept, fits]

/-- A lookahead of the same lex mode is kept. -/
theorem current_of_mode {lookahead : Lookahead} (kept : run.lookahead = some lookahead)
    (mode : lookahead.mode = language.lexMode run.state) :
    run.current (setting text limit old) = lookahead := by
  simp [Run.current, kept, mode]

end Turn

/-! ### Headers up to a slot -/

/-- The state at a place of the header, or behind it. -/
def stateAt : Option Slot → StateId
  | some slot => slot.state
  | none => 9

/-- A header read up to a slot or to its end: the stack and the text left. -/
inductive ReadUpTo (text : Text) : Option Slot → Stack → Text → Prop
  | start : ReadUpTo text (some .opening) [] text
  | fill {slot : Slot} {stack : Stack} {rest more : Text} {padding size : Nat}
      (before : ReadUpTo text (some slot) stack rest) (takes : slot.Takes rest padding size more) :
      ReadUpTo text slot.next? (⟨slot.target, leaf slot.symbol padding size⟩ :: stack) more

theorem marks_leaf (symbol : Symbol) (padding size : Nat) :
    (leaf symbol padding size).marks =
      { symbolMarks language symbol with
        token := true
        extra := decide (symbol = errorSymbol)
        hasError := (symbolMarks language symbol).recovery || decide (symbol = errorSymbol) } := rfl

namespace ReadUpTo

variable {place : Option Slot} {stack : Stack} {rest : Text}

theorem top (h : ReadUpTo text place stack rest) : stack.top = stateAt place := by
  cases h with
  | start => rfl
  | @fill slot => cases slot <;> rfl

/-- The tokens of a header are no errors. -/
theorem plain (h : ReadUpTo text place stack rest) : ∀ entry ∈ stack,
    ∃ slot : Slot, ∃ padding size, entry = ⟨slot.target, leaf slot.symbol padding size⟩ := by
  induction h with
  | start => simp
  | @fill slot stack rest more padding size before takes ih =>
    intro entry he
    rcases List.mem_cons.mp he with rfl | he
    · exact ⟨slot, padding, size, rfl⟩
    · exact ih entry he

theorem bare (h : ReadUpTo text place stack rest) : stack.bare = stack := by
  induction h with
  | start => rfl
  | fill before takes ih => simp [Entry.bare, ih]

/-- The text read so far. -/
theorem split (h : ReadUpTo text place stack rest) :
    ∃ taken, text = taken ++ rest ∧ Text.size taken = totalSizes stack.subtrees ∧
      '\x00' ∉ taken := by
  induction h with
  | start => exact ⟨[], rfl, rfl, by simp⟩
  | @fill slot stack rest more padding size before takes ih =>
    obtain ⟨taken, rfl, hs, hn⟩ := ih
    obtain ⟨here, rfl, hh, -, hm⟩ := takes.split
    refine ⟨taken ++ here, by simp, ?_, by simp [hn, hm]⟩
    simp [totalSizes, hs, hh]

end ReadUpTo

theorem slot_symbol_plain (slot : Slot) :
    (symbolMarks language slot.symbol).recovery = false ∧ slot.symbol ≠ errorSymbol := by
  cases slot <;> decide

theorem slot_wrong_plain (slot : Slot) :
    (symbolMarks language slot.wrong).recovery = false ∧ slot.wrong ≠ errorSymbol := by
  cases slot <;> decide

theorem slot_repair (slot : Slot) : (symbolMarks language slot.repair).recovery = true := by
  cases slot <;> decide

theorem firstRepair?_leaf {symbol : Symbol}
    (h : (symbolMarks language symbol).recovery = false) (padding size : Nat) :
    firstRepair? (leaf symbol padding size) = none := by
  rw [firstRepair?_eq, marks_leaf]
  simp [h, firstRepairAmong?]

/-- Nothing is wrong in a header. -/
theorem ReadUpTo.firstRepair {place : Option Slot} {stack : Stack} {rest : Text}
    (h : ReadUpTo text place stack rest) : firstRepairAmong? stack.subtrees = none := by
  induction h with
  | start => rfl
  | @fill slot stack rest more padding size before takes ih =>
    rw [Stack.subtrees_cons, firstRepairAmong?_append, ih, firstRepairAmong?_singleton,
      firstRepair?_leaf (slot_symbol_plain slot).1]
    rfl

/-! ### Slots that fit -/

theorem action?_slot (slot : Slot) :
    language.action? slot.state slot.symbol = some (.shift slot.target) := by
  rw [action?_eq]
  cases slot <;> rfl

/-- A run that has read a header up to a slot, in a text below four gigabytes. -/
structure At (text : Text) (run : Run) (place : Option Slot) (stack : Stack) (rest : Text) :
    Prop where
  small : text.size < UInt32.size
  filled : ReadUpTo text place stack rest
  bare : run.bare = { stack := stack, position := run.position }
  drop : text.drop? run.position = some rest

namespace At

variable {run : Run} {place : Option Slot} {slot : Slot} {stack : Stack} {rest : Text}

theorem stack_bare (h : At text run place stack rest) : run.stack.bare = stack :=
  congrArg Run.stack h.bare

theorem state (h : At text run place stack rest) : run.state = stateAt place := by
  rw [← Run.bare_state, h.bare]
  exact h.filled.top

theorem lookahead (h : At text run place stack rest) : run.lookahead = none := by
  have := congrArg Run.lookahead h.bare
  simpa using this

theorem recoveries (h : At text run place stack rest) : run.recoveries = 0 := by
  rw [← Run.bare_recoveries, h.bare]

/-- There is no error production on the stack. -/
theorem fine (h : At text run place stack rest) :
    firstRepairAmong? run.stack.subtrees = none := by
  rw [← firstRepairAmong?_bare, h.stack_bare, h.filled.firstRepair]

theorem intact (h : At text run place stack rest) :
    run.stack.hasConsumedRecovery = false :=
  Stack.hasConsumedRecovery_of_firstRepairAmong? h.fine

theorem start (small : text.size < UInt32.size) : At text {} (some .opening) [] text where
  small := small
  filled := .start
  bare := rfl
  drop := by cases text <;> rfl

theorem small_rest (h : At text run place stack rest) : Text.size rest < UInt32.size :=
  Text.size_lt_of_drop? h.small h.drop

theorem current (limit : Nat) (old : Option Subtree) (h : At text run (some slot) stack rest) :
    run.current (setting text limit old) = language.lookahead rest 0 slot.state := by
  rw [current_of_none h.lookahead h.drop, h.state]
  rfl

/-- **A slot that fits is filled.** -/
theorem turn_takes (h : At text run (some slot) stack rest) {more : Text} {padding size : Nat}
    (takes : slot.Takes rest padding size more) {next : Run}
    (running : run.turn (setting text limit old) = .running next) :
    At text next slot.next? (⟨slot.target, leaf slot.symbol padding size⟩ :: stack) more := by
  have token : (run.current (setting text limit old)).token.bare =
      leaf slot.symbol padding size := by
    rw [h.current]
    exact lookahead_of_found? h.small_rest (Slot.found?_of_takes takes)
  have shifted := turn_shift token _ (by rw [h.state]; exact action?_slot slot)
  rw [running] at shifted
  have hn : next.bare = { stack := ⟨slot.target, leaf slot.symbol padding size⟩ :: stack
                          position := run.position + (padding + size) } := by
    rw [Progress.running.inj shifted, h.bare, h.stack_bare]
    rfl
  have position : next.position = run.position + (padding + size) := congrArg Run.position hn
  obtain ⟨taken, split, hs, -⟩ := takes.split
  refine ⟨h.small, .fill h.filled takes, by rw [hn, position], ?_⟩
  obtain ⟨before, rfl, hb⟩ := Text.drop?_eq_some_iff.mp h.drop
  rw [split, ← List.append_assoc, position, ← hb, ← hs, ← Text.size_append]
  exact Text.drop?_append _ _

theorem exists_turn_takes (limit : Nat) (old : Option Subtree)
    (h : At text run (some slot) stack rest) {more : Text} {padding size : Nat}
    (takes : slot.Takes rest padding size more) :
    ∃ next, run.turn (setting text limit old) = .running next := by
  have token : (run.current (setting text limit old)).token.bare =
      leaf slot.symbol padding size := by
    rw [h.current]
    exact lookahead_of_found? h.small_rest (Slot.found?_of_takes takes)
  have shifted := turn_shift token _ (by rw [h.state]; exact action?_slot slot)
  rcases e : run.turn (setting text limit old) with next | ⟨root, reused⟩
  · exact ⟨next, rfl⟩
  · rw [e] at shifted
    cases shifted

end At

/-- A fresh parse comes to every place that the text has a header up to. -/
theorem ReadUpTo.steps {place : Option Slot} {stack : Stack} {rest : Text}
    (h : ReadUpTo text place stack rest) (small : text.size < UInt32.size) (limit : Nat) :
    ∃ run, Run.Steps (setting text limit none) {} run ∧ At text run place stack rest := by
  induction h with
  | start => exact ⟨{}, .refl, .start small⟩
  | fill before takes ih =>
    obtain ⟨run, steps, here⟩ := ih
    obtain ⟨next, running⟩ := here.exists_turn_takes limit none takes
    exact ⟨next, steps.trans (.head ((step_fresh ..).trans running) .refl),
      here.turn_takes takes running⟩

/-- A text has a whole header, or one up to a slot that does not fit. -/
theorem readUpTo_or_misfit (text : Text) :
    (∃ stack rest, ReadUpTo text none stack rest) ∨
      ∃ slot stack rest, ReadUpTo text (some slot) stack rest ∧
        ¬ ∃ padding size more, slot.Takes rest padding size more := by
  have next (slot : Slot) {stack : Stack} {rest : Text}
      (h : ReadUpTo text (some slot) stack rest) :
      (∃ stack rest, ReadUpTo text slot.next? stack rest) ∨
        ∃ slot stack rest, ReadUpTo text (some slot) stack rest ∧
          ¬ ∃ padding size more, slot.Takes rest padding size more := by
    by_cases fits : ∃ padding size more, slot.Takes rest padding size more
    · obtain ⟨padding, size, more, takes⟩ := fits
      exact .inl ⟨_, _, .fill h takes⟩
    · exact .inr ⟨slot, stack, rest, h, fits⟩
  rcases next .opening .start with ⟨_, _, h⟩ | other
  · rcases next .word h with ⟨_, _, h⟩ | other
    · rcases next .closing h with ⟨_, _, h⟩ | other
      · rcases next .newline h with ⟨_, _, h⟩ | other
        · exact next .lastNewline h
        · exact .inr other
      · exact .inr other
    · exact .inr other
  · exact .inr other

end Reparse.Header
