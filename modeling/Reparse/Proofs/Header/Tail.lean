/-
Reparse/Proofs/Header/Tail.lean

What is read behind a header.

Up to the first newline, blank or NUL character all text is skipped, token by
token (`Passes`).  The tokens are the same whether the parse still stands
behind the last slot or in front of the end, in states 9 and 13.  A newline or
blank is an error production, and there are no others behind a header.
-/
import Reparse.Proofs.Header.Fault
import Reparse.Proofs.Header.Stage

namespace Reparse.Header

open Subtree
open Scan (found?)

/-! ### Skipped tokens -/

/-- A text with a token in front that is skipped behind a header. -/
structure Passes (text : Text) (symbol : Symbol) (padding size : Nat) (rest : Text) : Prop where
  quiet : found? language { state := 1 } text = none
  token : found? language { state := 0 } text = some (symbol, padding, size) ∨
    found? language { state := 0 } text = none ∧ symbol = errorSymbol ∧ padding = 0 ∧
      ∃ c, text = c :: rest ∧ size = c.utf8Size
  useless : symbol ∈ [documentLiteral, leftBracket, rightBracket, errorSymbol]
  split : ∃ taken, text = taken ++ rest ∧ Text.size taken = padding + size ∧ taken ≠ [] ∧
    ∀ c ∈ taken, c ≠ '\x00' ∧ c ≠ '\n' ∧ c ≠ ' '

theorem calm_of_isTab {c : Char} (h : isTab c = true) : c ≠ '\x00' ∧ c ≠ '\n' ∧ c ≠ ' ' := by
  refine ⟨?_, ?_, ?_⟩ <;> rintro rfl <;> exact absurd h (by decide)

theorem isSpace_of_isTab {c : Char} (h : isTab c = true) : isSpace c = true := by
  simp [isSpace, isBlank, h]

/-- What a text behind a header begins with: the end of the text, a newline or
blank, tabs only, or a token that is skipped. -/
theorem tail_cases (text : Text) :
    (∃ tabs more, text = tabs ++ '\x00' :: more ∧ (∀ c ∈ tabs, isTab c = true) ∧
        found? language { state := 1 } text = some (eof, Text.size tabs, 1)) ∨
      (∃ tabs c more, text = tabs ++ c :: more ∧ (∀ c ∈ tabs, isTab c = true) ∧
        (c = '\n' ∨ c = ' ') ∧ ∃ size,
          found? language { state := 1 } text = some (trailingEndError, Text.size tabs, size)) ∨
      ((∀ c ∈ text, isTab c = true) ∧ found? language { state := 1 } text = none ∧
        found? language { state := 0 } text = some (endSymbol, Text.size text, 0)) ∨
      ∃ symbol padding size rest, Passes text symbol padding size rest := by
  obtain ⟨tabs, rest, rfl, ht, hr⟩ := exists_run isTab text
  rcases found?_tail ht hr with ⟨more, rfl, found⟩ | ⟨c, more, size, rfl, hc, found⟩ |
    ⟨stop, quiet⟩
  · exact .inl ⟨tabs, more, rfl, ht, found⟩
  · exact .inr (.inl ⟨tabs, c, more, rfl, ht, hc, size, found⟩)
  have spaces : ∀ c ∈ tabs, isSpace c = true := fun c hc => isSpace_of_isTab (ht c hc)
  have calm : ∀ c ∈ tabs, c ≠ '\x00' ∧ c ≠ '\n' ∧ c ≠ ' ' := fun c hc => calm_of_isTab (ht c hc)
  rcases stop with rfl | ⟨c, more, rfl, nul, solid⟩
  · rcases found?_fallback spaces (.inl rfl) with ⟨-, found⟩ | ⟨_, e, -⟩ | ⟨_, e, -⟩ |
      ⟨-, _, _, _, e, -⟩ | ⟨_, _, e, -⟩
    · exact .inr (.inr (.inl ⟨by simpa using ht, quiet, by simpa using found⟩))
    all_goals cases e
  · have other : c ≠ '\n' ∧ c ≠ ' ' := by
      refine ⟨?_, ?_⟩ <;> rintro rfl <;> exact absurd solid (by decide)
    refine .inr (.inr (.inr ?_))
    rcases found?_fallback spaces (.inr ⟨c, more, rfl, solid⟩) with ⟨e, -⟩ | ⟨_, e, -⟩ |
      ⟨others, e, found⟩ | ⟨rfl, d, others, symbol, e, hd, found⟩ | ⟨d, others, e, -, found⟩
    · cases e
    · exact absurd (List.cons.inj e).1 nul
    · rw [e] at quiet found ⊢
      refine ⟨documentLiteral, _, 8, others, quiet, .inl found, by decide, tabs ++ literal,
        by simp, by simp only [Text.size_append]; rfl, by simp [literal], fun c hc => ?_⟩
      rcases List.mem_append.mp hc with hc | hc
      · exact calm c hc
      · have : ∀ c ∈ literal, c ≠ '\x00' ∧ c ≠ '\n' ∧ c ≠ ' ' := by decide
        exact this c hc
    · obtain ⟨rfl, rfl⟩ := List.cons.inj e
      refine ⟨symbol, 0, 1, more, quiet, .inl found, ?_, [c], rfl, ?_, by simp, ?_⟩
      · rcases hd with ⟨-, rfl⟩ | ⟨-, rfl⟩ <;> decide
      · rcases hd with ⟨rfl, -⟩ | ⟨rfl, -⟩ <;> rfl
      · simpa using ⟨nul, other⟩
    · cases tabs with
      | nil =>
        exact ⟨errorSymbol, 0, _, more, quiet, .inr ⟨found, rfl, rfl, c, rfl, rfl⟩, by decide, [c],
          rfl, by simp, by simp, by simpa using ⟨nul, other⟩⟩
      | cons t tabs =>
        exact ⟨errorSymbol, 0, _, tabs ++ c :: more, quiet,
          .inr ⟨found, rfl, rfl, t, rfl, rfl⟩, by decide, [t], rfl, by simp, by simp,
          by simpa using calm t (by simp)⟩

namespace Passes

variable {rest more : Text} {symbol : Symbol} {padding size : Nat}

/-- Behind the last slot and in front of the end the same token is read. -/
theorem lookahead (h : Passes rest symbol padding size more)
    (small : Text.size rest < UInt32.size) {state : StateId}
    (mode : language.lexMode state = 0 ∨ language.lexMode state = 1) :
    (language.lookahead rest 0 state).token.bare = leaf symbol padding size := by
  have none : language.lexMode state = 1 →
      found? language { state := language.lexMode state } rest = none := fun e => e ▸ h.quiet
  rcases h.token with found | ⟨nothing, rfl, rfl, c, rfl, rfl⟩
  · rcases mode with mode | mode
    · exact lookahead_of_found? small (mode ▸ found)
    · exact lookahead_of_fallback small (none mode) found
  · exact lookahead_of_nothing (mode.elim (fun e => e ▸ nothing) none) nothing

theorem size_lt (h : Passes rest symbol padding size more) :
    more.length < rest.length ∧ Text.size rest = padding + size + Text.size more ∧
      0 < padding + size := by
  obtain ⟨taken, rfl, hs, nonempty, -⟩ := h.split
  cases taken with
  | nil => exact absurd rfl nonempty
  | cons c taken =>
    have := c.utf8Size_pos
    rw [Text.size_cons] at hs
    refine ⟨?_, by rw [Text.size_append, Text.size_cons, hs], by omega⟩
    simp only [List.cons_append, List.length_cons, List.length_append]
    omega

end Passes

/-! ### Tokens that lead nowhere -/

variable {text : Text} {limit : Nat} {old : Option Subtree} {run : Run}

/-- Where nothing is expected a token is skipped, or the parse gives up. -/
theorem moveOn_stuck (text : Text) (limit : Nat) (old : Option Subtree) {lookahead : Lookahead}
    (action : language.action? run.state lookahead.token.symbol = none)
    (default : language.defaultReduction? run.state = none)
    (repairs : language.repairs run.state = []) :
    run.moveOn (setting text limit old) lookahead =
      if limit ≤ run.recoveries ∨ run.stack.hasConsumedRecovery = true ∨
        lookahead.token.symbol = endSymbol then .giveUp lookahead.token
      else .skip lookahead.token := by
  have insertion : run.insertion? (setting text limit old) lookahead.token.symbol = none := by
    simp [Run.insertion?, repairs]
  have wrapping : run.wrapping? (setting text limit old) lookahead.token.symbol = none := by
    simp [Run.wrapping?, repairs]
  have reduction : run.defaultReduction? (setting text limit old) lookahead = none := by
    simp [Run.defaultReduction?, default]
  simp only [Run.moveOn, setting_language, action, Run.recovery, setting_maxRecoveries, insertion,
    wrapping, reduction]
  by_cases spent : limit ≤ run.recoveries
  · simp [spent]
  · rcases consumed : run.stack.hasConsumedRecovery with - | - <;> simp [spent]

/-- A token that leads nowhere is an error. -/
theorem Orderly.stuck_ends (h : Orderly text limit none run)
    (action : language.action? run.state (run.current (setting text limit none)).token.symbol = none)
    (default : language.defaultReduction? run.state = none)
    (repairs : language.repairs run.state = []) {root : Subtree} {steps : Nat}
    (ends : Run.Ends (setting text limit none) root steps run) : root.marks.hasError = true := by
  have move := moveOn_stuck text limit none action default repairs
  split at move
  · obtain rfl := eq_of_finished ends (by rw [Run.turn, move]; rfl)
    exact hasError_giveUp _
  · have running : ∃ next, run.turn (setting text limit none) = .running next ∧
        next.wrong = true := by
      rw [Run.turn, move]
      exact ⟨_, rfl, anyError_skip (fun entry he => (h.intact entry he).self.flagged)
        h.current_intact.1.self.flagged⟩
    obtain ⟨next, running, wrong⟩ := running
    obtain ⟨fewer, ends⟩ := ends_of_running ends running
    exact (h.turn running).1.hasError_ends ends wrong

/-- The token that is skipped is the one read behind the header. -/
theorem Passes.current (limit : Nat) (old : Option Subtree) {rest more : Text} {symbol : Symbol}
    {padding size : Nat} (h : Passes rest symbol padding size more)
    (small : text.size < UInt32.size) (state : run.state = 9 ∨ run.state = 13)
    (lookahead : run.lookahead = none) (drop : text.drop? run.position = some rest) :
    (run.current (setting text limit old)).token.bare = leaf symbol padding size := by
  rw [current_of_none lookahead drop]
  exact h.lookahead (Text.size_lt_of_drop? small drop)
    (state.elim (fun e => .inr (by rw [e]; decide)) (fun e => .inl (by rw [e]; decide)))

/-- The run behind a token that is skipped. -/
def skipping (run : Run) (token : Subtree) : Run :=
  { run with
    stack := run.stack.skip language token
    position := run.position + token.totalSize
    lookahead := none
    recoveries := run.recoveries + 1 }

/-- What leads nowhere behind a header goes on top of the stack. -/
theorem turn_skips {symbol : Symbol} {padding size : Nat}
    (useless : symbol ∈ [documentLiteral, leftBracket, rightBracket, errorSymbol])
    (state : run.state = 9 ∨ run.state = 13)
    (token : (run.current (setting text limit old)).token.bare = leaf symbol padding size)
    (intact : run.stack.hasConsumedRecovery = false) (budget : run.recoveries < limit) :
    run.turn (setting text limit old) =
      .running (skipping run (run.current (setting text limit old)).token) := by
  have read : (run.current (setting text limit old)).token.symbol = symbol := by
    rw [← bare_symbol, token, leaf_symbol]
  have all : ∀ symbol ∈ [documentLiteral, leftBracket, rightBracket, errorSymbol],
      language.action? 9 symbol = none ∧ language.action? 13 symbol = none ∧
        symbol ≠ endSymbol := by
    simp only [action?_eq]
    decide
  obtain ⟨nine, thirteen, more⟩ := all symbol useless
  have action : language.action? run.state (run.current (setting text limit old)).token.symbol =
      none := by
    rw [read]
    exact state.elim (· ▸ nine) (· ▸ thirteen)
  have move := moveOn_stuck text limit old action
    (state.elim (fun e => by rw [e]; decide) (fun e => by rw [e]; decide))
    (state.elim (fun e => by rw [e]; decide) (fun e => by rw [e]; decide))
  rw [if_neg (by simp [read, more, intact]; omega)] at move
  rw [Run.turn, move]
  rfl

/-! ### Error productions behind a header -/

/-- What can be the current token. -/
theorem Orderly.current_symbol (h : Orderly text limit old run) {symbol : Symbol}
    (read : (run.current (setting text limit old)).token.symbol = symbol) :
    symbol = errorSymbol ∨ symbol ∈ finds (language.lexMode run.state) ∨ symbol ∈ finds 0 ∨
      ∃ action, ((run.state, symbol), action) ∈ actions := by
  obtain ⟨state, at', mode⟩ := h.holds.reads.current
  rw [read] at mode
  rcases mode with mode | action
  · rw [at', setting_language, setting_text, Language.lookahead_ahead, ← bare_symbol] at read
    rcases lookahead_cases (Text.size_ahead_lt h.small run.position) state with ⟨s, p, n, b, hs, -⟩ |
      ⟨-, ⟨s, p, n, b, -, hs, -⟩ | ⟨-, c, more, -, b⟩⟩
    · rw [b, leaf_symbol] at read
      rw [← read, ← setting_language text limit old, ← mode]
      exact .inr (.inl hs)
    · rw [b, leaf_symbol] at read
      exact .inr (.inr (.inl (read ▸ hs)))
    · rw [b, leaf_symbol] at read
      exact .inl read.symm
  · obtain ⟨found, e⟩ := Option.isSome_iff_exists.mp action
    exact .inr (.inr (.inr ⟨found, mem_actions e⟩))

/-- Behind a header the current token is no error production, or that of stray
newlines and blanks. -/
theorem Orderly.firstRepair_current (h : Orderly text limit old run)
    (behind : rank 9 ≤ rank run.state) :
    firstRepair? (run.current (setting text limit old)).token = none ∨
      firstRepair? (run.current (setting text limit old)).token = some trailingEndError ∧
        rank run.state < rank 14 := by
  have e : firstRepair? (run.current (setting text limit old)).token =
      if (symbolMarks language (run.current (setting text limit old)).token.symbol).recovery then
        some (run.current (setting text limit old)).token.symbol else none := by
    rw [firstRepair?_eq, h.current_intact.1.self.recovery, h.current_intact.2]
    rfl
  rw [e]
  have all : ∀ state ∈ states, rank 9 ≤ rank state →
      (∀ symbol ∈ errorSymbol :: finds (language.lexMode state) ++ finds 0,
        (symbolMarks language symbol).recovery = true →
          symbol = trailingEndError ∧ rank state < rank 14) ∧
      ∀ entry ∈ actions, entry.1.1 = state →
        (symbolMarks language entry.1.2).recovery = true →
          entry.1.2 = trailingEndError ∧ rank state < rank 14 := by decide
  obtain ⟨found, fits⟩ := all run.state h.linked.top_mem behind
  rcases recovery : (symbolMarks language
    (run.current (setting text limit old)).token.symbol).recovery with - | -
  · exact .inl rfl
  · right
    suffices same : (run.current (setting text limit old)).token.symbol = trailingEndError ∧
        rank run.state < rank 14 by
      rw [if_pos rfl, same.1]
      exact ⟨rfl, same.2⟩
    rcases h.current_symbol rfl with error | own | fallback | ⟨action, fit⟩
    · exact found _ (by simp [error]) recovery
    · exact found _ (by simp [own]) recovery
    · exact found _ (by simp [fallback]) recovery
    · exact fits _ fit rfl recovery

/-- A step behind a header finds no error production, or stray newlines and
blanks. -/
theorem Orderly.firstRepair_behind (h : Orderly text limit old run)
    (behind : rank 9 ≤ rank run.state) {next : Run}
    (running : run.turn (setting text limit old) = .running next) :
    ∃ added, firstRepairAmong? next.stack.subtrees =
        (firstRepairAmong? run.stack.subtrees).or added ∧
      (added = none ∨ added = some trailingEndError ∧ rank run.state < rank 14) := by
  obtain ⟨added, how, e⟩ := h.firstRepair_turn running
  refine ⟨added, e, ?_⟩
  cases how with
  | nothing => exact .inl rfl
  | token => exact h.firstRepair_current behind
  | repair repair =>
    have all : ∀ state ∈ states, rank 9 ≤ rank state → language.repairs state = [] := by
      decide
    rw [all run.state h.linked.top_mem behind] at repair
    cases repair
  | production reduces recovery =>
    have all : ∀ entry ∈ reductions, (symbolMarks language entry.2.1).recovery = true →
        rank entry.1 < rank 9 := by decide
    exact absurd behind (Nat.not_le.mpr (all _ reduces recovery))

section Ends

variable {root : Subtree} {steps : Nat} (ends : Run.Ends (setting text limit none) root steps run)
include ends

/-- Behind the end of the header there are no error productions at all. -/
theorem Orderly.late_ends (h : Orderly text limit none run) (late : rank 14 ≤ rank run.state)
    (fine : firstRepairAmong? run.stack.subtrees = none) : firstRepair? root = none := by
  have behind {run : Run} (late : rank 14 ≤ rank run.state) : rank 9 ≤ rank run.state :=
    Nat.le_trans (by decide) late
  refine ends.of_invariant (I := fun run => Orderly text limit none run ∧
    rank 14 ≤ rank run.state ∧ firstRepairAmong? run.stack.subtrees = none) (R := fun root =>
    firstRepair? root = none) ?_ ?_ ⟨h, late, fine⟩
  · rintro run next ⟨h, late, fine⟩ running
    rw [step_fresh] at running
    obtain ⟨added, e, rfl | ⟨-, early⟩⟩ := h.firstRepair_behind (behind late) running
    · obtain ⟨orderly, -, higher⟩ := h.turn running
      exact ⟨orderly, Nat.le_trans late higher, by rw [e, fine]; rfl⟩
    · omega
  · rintro run root reused ⟨h, late, fine⟩ finished
    rw [step_fresh] at finished
    rw [h.firstRepair_finished finished, fine, Option.none_or]
    rcases h.firstRepair_current (behind late) with none | ⟨-, early⟩
    · exact none
    · omega

end Ends

end Reparse.Header
