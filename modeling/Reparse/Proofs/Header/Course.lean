/-
Reparse/Proofs/Header/Course.lean

The course of a header parse, from whatever old tree.

Up to the end of the header a parse has either filled all slots so far, or
there is an error production on its stack (`Course`).  So a document without
errors is made only where the text has a header, and of its tokens.  Hence
what a parse makes belongs to its text: `Growing.turn`.
-/
import Reparse.Proofs.Header.Fresh

namespace Reparse

open Subtree

/-! ### Below the extras -/

namespace Stack

theorem belowExtras_cons {entry : Entry} (plain : entry.subtree.marks.extra = false)
    (stack : Stack) : belowExtras (entry :: stack) = entry :: stack := by
  simp [belowExtras, plain]

/-- Extras on top of an entry that is none. -/
theorem extras_of_append {above below : Stack} {entry : Entry}
    (extra : ∀ entry ∈ above, entry.subtree.marks.extra = true)
    (plain : entry.subtree.marks.extra = false) :
    Stack.extras (above ++ entry :: below) = above ∧
      Stack.belowExtras (above ++ entry :: below) = entry :: below := by
  constructor
  · rw [extras.eq_def, List.takeWhile_append_of_pos extra,
      List.takeWhile_cons_of_neg (by simp [plain]), List.append_nil]
  · rw [belowExtras.eq_def, List.dropWhile_append_of_pos extra,
      List.dropWhile_cons_of_neg (by simp [plain])]

theorem extra_of_mem_moved {stack : Stack} {target : StateId} {entry : Entry}
    (h : entry ∈ stack.extras.moved target) : entry.subtree.marks.extra = true := by
  obtain ⟨old, m, rfl⟩ := List.mem_map.mp h
  exact @extra_of_mem_extras stack old m

theorem belowExtras_of_extras {stack : Stack} (h : stack.extras = []) :
    stack.belowExtras = stack := by
  have := stack.extras_append_belowExtras
  rwa [h] at this

/-- Skipped input lies above all that is no extra. -/
theorem belowExtras_skip (language : Language) (stack : Stack) {token : Subtree}
    (extra : token.isErrorToken = true → token.marks.extra = true) :
    (stack.skip language token).belowExtras = stack.belowExtras := by
  have alone (state : StateId) : (if token.isErrorToken then token
      else errorNode language [token] state).marks.extra = true := by
    split
    · exact extra ‹_›
    · rfl
  cases stack with
  | nil => simp [Stack.skip, belowExtras, alone]
  | cons entry rest =>
    simp only [Stack.skip]
    split
    · rename_i joins
      simp only [Bool.and_eq_true, decide_eq_true_eq] at joins
      simp [belowExtras, joins.2, extra_mergeErrors language joins.2]
    · simp [belowExtras, alone]

/-- A reduction leaves its node below the extras. -/
theorem belowExtras_reduce? {language : Language} {stack reduced : Stack} {symbol : Symbol}
    {count : UInt8} {token : Subtree}
    (h : stack.reduce? language symbol count token = some reduced) :
    ∃ children rest target, takeOff count.toNat stack.belowExtras [] = (children, rest) ∧
      reduced.belowExtras =
        ⟨target, (node language symbol children rest.top).needing (stack.needed token)⟩ :: rest ∧
      reduced.extras = stack.extras.moved target := by
  obtain ⟨children, rest, target, taken, -, rfl⟩ := reduce?_eq_some_iff.mp h
  refine ⟨children, rest, target, taken, ?_⟩
  have split := @extras_of_append (stack.extras.moved target) rest
    ⟨target, (node language symbol children rest.top).needing (stack.needed token)⟩
    (fun _ => extra_of_mem_moved) (by simp [marks_node, symbolMarks])
  exact ⟨split.2, split.1⟩

end Stack

namespace Header

variable {text : Text} {limit : Nat} {old : Option Subtree} {run next : Run}

/-- In the start state the stack is empty. -/
theorem Linked.eq_nil {stack : Stack} (h : Linked stack) (start : stack.top = 1) : stack = [] := by
  cases stack with
  | nil => rfl
  | cons entry below =>
    rw [Stack.top] at start
    rcases e : entry.subtree.marks.extra with - | -
    · have all : ∀ edge ∈ edges, edge.2.2 ≠ 1 := by decide
      exact absurd start (all _ ((linked_cons e).mp h).1)
    · have rests := ((linked_extra e).mp h).1.2
      rw [start] at rests
      exact absurd rests (by decide)

/-! ### Error productions below the extras -/

/-- A step from a state where nothing rests puts no extras on top. -/
theorem Orderly.extras_turn (h : Orderly text limit old run) (stirs : run.state ∉ resting)
    (running : run.turn (setting text limit old) = .running next) : next.stack.extras = [] := by
  obtain ⟨move, choice, running⟩ := Run.exists_choice running
  obtain ⟨state, read, mode⟩ := h.holds.reads.current
  have extra := Run.extra_lookahead language text run.position state
  simp only [setting_language, setting_text] at read
  rw [← read] at extra
  have none : run.stack.extras = [] := (extras_states h.linked).resolve_right stirs
  have push {entry : Entry} (plain : entry.subtree.marks.extra = false) (stack : Stack) :
      Stack.extras (entry :: stack) = [] := by
    simp [Stack.extras, plain]
  cases choice with
  | shift action =>
    cases running
    exact push (by rw [extra, decide_eq_false (ne_errorSymbol_of_action? action)]) _
  | reduce action reduced =>
    cases running
    obtain ⟨children, rest, target, -, -, extras⟩ := Stack.belowExtras_reduce? reduced
    rw [extras, none]
    rfl
  | accept => cases running
  | reduceByDefault _ _ reduced =>
    cases running
    obtain ⟨children, rest, target, -, -, extras⟩ := Stack.belowExtras_reduce? reduced
    rw [extras, none]
    rfl
  | insert => cases running; exact push rfl _
  | wrap => cases running; exact push (by simp [marks_node, symbolMarks]) _
  | skip _ default useless => exact absurd (rests_of_skip h.linked read mode default useless) stirs
  | giveUp => cases running

/-- Whether there is an error production below the extras. -/
def Faulty (run : Run) : Prop :=
  firstRepairAmong? run.stack.belowExtras.subtrees ≠ none

theorem faulty_of_extras (h : run.stack.extras = []) {symbol : Symbol}
    (fault : firstRepairAmong? run.stack.subtrees = some symbol) : Faulty run := by
  rw [Faulty, Stack.belowExtras_of_extras h, fault]
  exact Option.some_ne_none symbol

theorem Faulty.reduce? (h : Faulty run) {stack : Stack} {symbol : Symbol} {count : UInt8}
    {token : Subtree} (reduced : run.stack.reduce? language symbol count token = some stack) :
    firstRepairAmong? stack.belowExtras.subtrees ≠ none := by
  obtain ⟨children, rest, target, taken, below, -⟩ := Stack.belowExtras_reduce? reduced
  have row := Stack.takeOff_subtrees count.toNat run.stack.belowExtras []
  rw [taken, List.append_nil] at row
  intro none
  rw [below, Stack.subtrees_cons, firstRepairAmong?_append, firstRepairAmong?_singleton,
    firstRepair?_needing, firstRepair?_node, Option.or_eq_none_iff] at none
  obtain ⟨before, inside⟩ := none
  split at inside
  · cases inside
  · rw [Faulty, ← row, firstRepairAmong?_append, before, inside] at h
    exact h rfl

/-- **An error production stays below the extras.** -/
theorem Faulty.turn (h : Faulty run)
    (running : run.turn (setting text limit old) = .running next)
    (reads : run.Reads (setting text limit old)) : Faulty next := by
  obtain ⟨move, choice, running⟩ := Run.exists_choice running
  obtain ⟨state, read, -⟩ := reads.current
  have extra := Run.extra_lookahead language text run.position state
  simp only [setting_language, setting_text] at read
  rw [← read] at extra
  have push {entry : Entry} (plain : entry.subtree.marks.extra = false) :
      firstRepairAmong? (Stack.belowExtras (entry :: run.stack)).subtrees ≠ none := by
    have split := run.stack.extras_append_belowExtras
    rw [Stack.belowExtras_cons plain, Stack.subtrees_cons, ← split, Stack.subtrees_append,
      firstRepairAmong?_append, firstRepairAmong?_append]
    intro none
    rw [Option.or_eq_none_iff, Option.or_eq_none_iff] at none
    exact h none.1.1
  cases choice with
  | shift action =>
    cases running
    exact push (by rw [extra, decide_eq_false (ne_errorSymbol_of_action? action)])
  | reduce _ reduced => cases running; exact h.reduce? reduced
  | accept => cases running
  | reduceByDefault _ _ reduced => cases running; exact h.reduce? reduced
  | insert => cases running; exact push rfl
  | wrap => cases running; exact push (by simp [marks_node, symbolMarks])
  | skip =>
    cases running
    rw [Faulty, Stack.belowExtras_skip]
    · exact h
    · intro error
      rw [extra, decide_eq_true (isErrorToken_iff.mp error).1]
  | giveUp => cases running

/-! ### The course of a parse -/

/-- A run that has filled all slots of a header and skipped calm text behind it. -/
structure Resting (text : Text) (run : Run) (stack : Stack) (calm rest : Text) : Prop where
  behind : Behind text run rest
  filled : ReadUpTo text none stack (calm ++ rest)
  calm : Calm calm
  base : run.stack.belowExtras.bare = stack
  fine : firstRepairAmong? run.stack.subtrees = none

/-- Where a run is: at a slot with all slots before it filled, behind a wrong
token, behind an error production, behind the last slot, or further on. -/
inductive Course (text : Text) (run : Run) : Prop
  | at {slot : Slot} {stack : Stack} {rest : Text} (here : At text run (some slot) stack rest)
  | pending {slot : Slot} (pending : Pending slot run)
  | faulty (fault : Faulty run)
  | resting {stack : Stack} {calm rest : Text} (resting : Resting text run stack calm rest)
  | late (late : rank 9 < rank run.state)

theorem ReadUpTo.belowExtras {place : Option Slot} {stack : Stack} {rest : Text}
    (h : ReadUpTo text place stack rest) : stack.belowExtras = stack := by
  cases h with
  | start => rfl
  | @fill slot stack =>
    refine Stack.belowExtras_cons ?_ stack
    rw [marks_leaf]
    exact decide_eq_false (slot_symbol_plain slot).2

theorem At.resting {stack : Stack} {rest : Text} (here : At text run none stack rest) :
    Resting text run stack [] rest where
  behind := here.behind
  filled := here.filled
  calm c m := by cases m
  base := by rw [← Stack.belowExtras_bare, here.stack_bare, here.filled.belowExtras]
  fine := here.fine

/-- A step behind the last slot skips calm text, or leads further on. -/
theorem Resting.turn (h : Orderly text limit old run) (enough : text.size + 15 ≤ limit)
    {stack : Stack} {calm rest : Text} (resting : Resting text run stack calm rest)
    (running : run.turn (setting text limit old) = .running next) :
    rank 9 < rank next.state ∨
      ∃ calm rest, Resting text next stack calm rest := by
  obtain ⟨behind, filled, quiet, base, fine⟩ := resting
  have current : run.current (setting text limit old) = language.lookahead rest 0 9 :=
    behind.current
  rcases tail_cases rest with ⟨tabs, more, rfl, -, found⟩ | ⟨tabs, c, more, rfl, -, -, size, found⟩ |
    ⟨-, none, found⟩ | ⟨symbol, padding, size, more, passes⟩
  · -- the NUL character completes the header
    have token := behind.token limit old h.small found
    have symbol : (run.current (setting text limit old)).token.symbol = eof := by
      rw [← bare_symbol, token, leaf_symbol]
    obtain ⟨last, same, -, fourteen, -⟩ := h.turn_makes rfl documentInner 5 14
      (.inl (by rw [behind.state, symbol, action?_eq]; rfl))
      (by rw [behind.state]; exact goto?_of_mem_edges (by decide) (by decide))
    obtain rfl := Progress.running.inj (running.symm.trans same)
    exact .inl (by rw [fourteen]; decide)
  · -- a newline or blank is put on the stack
    have shifted := turn_shift (behind.token limit old h.small found) 16
      (by rw [behind.state, leaf_symbol, action?_eq]; rfl)
    rw [running] at shifted
    have bare := Progress.running.inj shifted
    refine .inl ?_
    rw [← Run.bare_state, bare]
    show rank 9 < rank 16
    decide
  · -- the text is over
    have symbol : (run.current (setting text limit old)).token.symbol = endSymbol := by
      rw [current, ← bare_symbol, lookahead_low_of_fallback (by
        rw [show language.lexMode 9 = 1 by decide]; exact none) found, leaf_symbol]
    have stuck := @moveOn_stuck run text limit old (run.current (setting text limit old))
      (by rw [behind.state, symbol, action?_eq]; rfl) (by rw [behind.state]; decide)
      (by rw [behind.state]; decide)
    rw [if_pos (.inr (.inr symbol))] at stuck
    rw [Run.turn, stuck] at running
    cases running
  · have budget : run.recoveries < limit := by
      have := h.budget
      have := h.inside
      rw [behind.state, show rank 9 = 10 by decide] at *
      omega
    obtain ⟨same, token, further, quiet'⟩ := behind.turn_passes h fine passes budget rfl
    obtain rfl := Progress.running.inj (running.symm.trans same)
    obtain ⟨taken, rfl, -, -, plain⟩ := passes.split
    refine .inr ⟨calm ++ taken, more, further, ?_, quiet.append plain, ?_, quiet'⟩
    · rwa [List.append_assoc]
    · rw [skipping, Stack.belowExtras_skip, base]
      intro error
      rw [← bare_marks, token, marks_leaf]
      rw [← bare_isErrorToken, token] at error
      exact decide_eq_true (isErrorToken_iff.mp error).1

/-- **A step keeps the course.** -/
theorem Course.turn (h : Orderly text limit old run) (enough : text.size + 15 ≤ limit)
    (course : Course text run) (running : run.turn (setting text limit old) = .running next) :
    Course text next := by
  cases course with
  | @«at» slot stack rest here =>
    have stirs : run.state ∉ Header.resting := by
      rw [here.state]
      cases slot <;> decide
    by_cases fits : ∃ padding size more, slot.Takes rest padding size more
    · obtain ⟨padding, size, more, takes⟩ := fits
      have there := here.turn_takes takes running
      cases e : slot.next? with
      | none => exact .resting (e ▸ there).resting
      | some slot => exact .at (e ▸ there)
    · rcases here.turn_misfit limit old fits with ⟨-, root, reused, finished, -⟩ |
        ⟨last, same, fault⟩
      · rw [finished] at running
        cases running
      · obtain rfl := Progress.running.inj (running.symm.trans same)
        rcases fault with fault | ⟨-, pending⟩
        · exact .faulty (faulty_of_extras (h.extras_turn stirs running) fault)
        · exact .pending pending
  | @pending slot pending =>
    have stirs : run.state ∉ Header.resting := by
      rw [pending.state]
      cases slot <;> decide
    rcases pending.turn h with ⟨-, root, reused, finished, -⟩ | ⟨last, same, fault⟩
    · rw [finished] at running
      cases running
    · obtain rfl := Progress.running.inj (running.symm.trans same)
      exact .faulty (faulty_of_extras (h.extras_turn stirs running) fault)
  | faulty fault => exact .faulty (fault.turn running h.holds.reads)
  | resting resting =>
    rcases resting.turn h enough running with late | ⟨calm, rest, resting⟩
    · exact .late late
    · exact .resting resting
  | late late => exact .late (Nat.lt_of_lt_of_le late (h.turn running).2.2)

/-- The course of a run can be seen. -/
theorem Course.congr {other : Run} (h : run.bare = other.bare) (course : Course text run) :
    Course text other := by
  have state : run.state = other.state := by rw [← Run.bare_state, h, Run.bare_state]
  have position : run.position = other.position := by
    rw [← Run.bare_position, h, Run.bare_position]
  have recoveries : run.recoveries = other.recoveries := by
    rw [← Run.bare_recoveries, h, Run.bare_recoveries]
  have stack : run.stack.bare = other.stack.bare := by rw [← Run.bare_stack, h, Run.bare_stack]
  have unread (none : run.lookahead = none) : other.lookahead = Option.none := by
    have := congrArg Run.lookahead h
    simp only [Run.bare_lookahead, none, Option.map_none] at this
    simpa using this.symm
  have below : run.stack.belowExtras.bare = other.stack.belowExtras.bare := by
    rw [← Stack.belowExtras_bare, stack, Stack.belowExtras_bare]
  have repair : firstRepairAmong? run.stack.subtrees = firstRepairAmong? other.stack.subtrees := by
    rw [← firstRepairAmong?_bare, stack, firstRepairAmong?_bare]
  cases course with
  | «at» here =>
    exact .at ⟨here.small, here.filled, by rw [← h, here.bare, position], position ▸ here.drop⟩
  | pending pending =>
    obtain ⟨at', none, fine, intact⟩ := pending
    refine .pending ⟨state ▸ at', recoveries ▸ none, repair ▸ fine, ?_⟩
    rw [← Stack.hasConsumedRecovery_bare, ← stack, Stack.hasConsumedRecovery_bare, intact]
  | faulty fault =>
    refine .faulty ?_
    rwa [Faulty, ← firstRepairAmong?_bare, ← below, firstRepairAmong?_bare]
  | resting resting =>
    obtain ⟨⟨at', none, drop⟩, filled, calm, base, fine⟩ := resting
    exact .resting ⟨⟨state ▸ at', unread none, position ▸ drop⟩, filled, calm, below ▸ base,
      repair ▸ fine⟩
  | late late => exact .late (state ▸ late)

/-! ### What a parse makes -/

@[simp] theorem bare_needing (tree : Subtree) (needed : Nat) :
    (tree.needing needed).bare = tree.bare :=
  bare_eq_iff.mpr ⟨rfl, rfl, rfl, rfl, rfl⟩

/-- The document around a header. -/
theorem Heads.document {child : Subtree} (h : Heads text child)
    (symbol : child.symbol = documentInner) (state : StateId) (needed : Nat) :
    Heads text ((node language document [child] state).needing needed) := by
  obtain ⟨stack, calm, more, filled, quiet, same, reach⟩ := h
  rw [symbol, headerOf, if_neg (by decide)] at same
  refine ⟨stack, calm, more, filled, quiet, ?_, ?_⟩
  · rw [bare_needing, symbol_needing, symbol_node, headerOf, if_pos rfl, documentOf]
    exact bare_node_congr state 0 (by simp [same, innerOf])
  · simp only [totalSize_needing, totalSize_node, lookahead_needing, lookahead_node, totalSizes,
      Subtree.reach]
    omega

/-- The extras behind a header cover the calm text. -/
theorem Resting.totalSizes_extras (h : Orderly text limit old run) {stack : Stack}
    {calm rest : Text} (resting : Resting text run stack calm rest) :
    totalSizes run.stack.extras.subtrees = Text.size calm := by
  obtain ⟨taken, split, width, -⟩ := resting.filled.split
  obtain ⟨before, split', position⟩ := Text.drop?_eq_some_iff.mp resting.behind.drop
  rw [split, ← List.append_assoc] at split'
  obtain rfl := List.append_cancel_right split'
  have all := h.holds.width
  rw [← run.stack.extras_append_belowExtras, Stack.subtrees_append, totalSizes_append] at all
  rw [← resting.base, Stack.subtrees_bare, totalSizes_map_bare] at width
  rw [Text.size_append] at position
  omega

/-- **A header is made of its tokens**, in front of a NUL character. -/
theorem Resting.heads (h : Orderly text limit old run) {stack : Stack} {calm rest : Text}
    (resting : Resting text run stack calm rest) {token : Subtree}
    (current : (run.current (setting text limit old)).token = token) (closes : token.symbol = eof)
    (state : StateId) :
    Heads text ((node language documentInner run.stack.belowExtras.subtrees state).needing
      (run.stack.needed token)) := by
  have width := resting.totalSizes_extras h
  obtain ⟨behind, filled, quiet, base, -⟩ := resting
  have other (symbol : Symbol) {padding size : Nat} (bare : token.bare = leaf symbol padding size) :
      symbol = eof := by
    rw [← closes, ← bare_symbol, bare, leaf_symbol]
  rcases tail_cases rest with ⟨tabs, more, rfl, ht, found⟩ | ⟨_, _, _, -, -, -, _, found⟩ |
    ⟨-, none, found⟩ | ⟨symbol, padding, size, more, passes⟩
  · refine ⟨stack, calm ++ tabs, more, by simpa using filled,
      quiet.append fun c m => calm_of_isTab (ht c m), ?_, ?_⟩
    · rw [bare_needing, symbol_needing, symbol_node, headerOf, if_neg (by decide), innerOf]
      refine bare_node_congr state 0 ?_
      rw [← Stack.subtrees_bare, ← Stack.subtrees_bare, base, filled.bare]
    · have size : token.totalSize = Text.size tabs + 1 := by
        rw [← current, ← bare_totalSize, behind.token limit old h.small found, leaf_totalSize]
      rw [← base, Stack.subtrees_bare, totalSizes_map_bare, totalSize_needing, totalSize_node,
        lookahead_needing, Stack.needed, width, size, Text.size_append]
      omega
  · exact absurd (other trailingEndError (current ▸ behind.token limit old h.small found)) (by decide)
  · have bare := @lookahead_low_of_fallback rest 9 _ _ _
      (by rw [show language.lexMode 9 = 1 by decide]; exact none) found
    rw [← @Behind.current _ limit old _ _ behind, current] at bare
    exact absurd (other endSymbol bare) (by decide)
  · have useless := passes.useless
    rw [other symbol (current ▸ passes.current limit old h.small (.inl behind.state)
      behind.lookahead behind.drop)] at useless
    exact absurd useless (by decide)

/-- A reduction back to the start state takes all that is no extra on top. -/
theorem Linked.takeOff_all {stack rest : Stack} {children : List Subtree} (h : Linked stack)
    {count : Nat} (enough : count ≤ (path stack.top).length)
    (back : Header.pathTop ((path stack.top).drop count) = 1)
    (taken : Stack.takeOff count stack.belowExtras [] = (children, rest)) :
    rest = [] ∧ children = stack.belowExtras.subtrees := by
  have top := h.top_takeOff enough []
  rw [taken, back] at top
  have suffix := Stack.takeOff_suffix count stack.belowExtras []
  rw [taken] at suffix
  obtain rfl := (h.suffix (suffix.trans (List.dropWhile_suffix _))).eq_nil top
  have whole := Stack.takeOff_subtrees count stack.belowExtras []
  rw [taken] at whole
  exact ⟨rfl, by simpa using whole⟩

/-- **Without an error below the extras, what the slots hold is a header.** -/
theorem Course.heads (h : Orderly text limit old run) (course : Course text run)
    (nine : run.state = 9) {token : Subtree}
    (current : (run.current (setting text limit old)).token = token) (closes : token.symbol = eof)
    (fine : anyError run.stack.belowExtras.subtrees = false) (state : StateId) :
    Heads text ((node language documentInner run.stack.belowExtras.subtrees state).needing
      (run.stack.needed token)) := by
  cases course with
  | @«at» slot _ _ here =>
    have := here.state.symm.trans nine
    cases slot <;> exact absurd this (by decide)
  | @pending slot pending =>
    have := pending.state.symm.trans nine
    cases slot <;> exact absurd this (by decide)
  | faulty fault =>
    have error := h.anyError_of_fault (List.dropWhile_suffix _) fault
    rw [show anyError (Stack.subtrees (run.stack.dropWhile _)) = _ from fine] at error
    cases error
  | resting resting => exact resting.heads h current closes state
  | late late => exact absurd late (by rw [nine]; decide)

/-- What a recovery production has made is marked as an error. -/
theorem hasError_of_recovery {tree : Subtree} (intact : Intact language tree)
    (recovery : (symbolMarks language tree.symbol).recovery = true) :
    tree.marks.hasError = true := by
  rw [intact.error, intact.recovery, recovery, Bool.true_or, Bool.true_or, Bool.true_or]

/-- Behind a complete header the document is made of it alone. -/
theorem Orderly.takeOff_inner (h : Orderly text limit old run) (fourteen : run.state = 14)
    {children : List Subtree} {rest : Stack}
    (taken : Stack.takeOff 1 run.stack.belowExtras [] = (children, rest)) :
    ∃ child, children = [child] ∧
      (child.symbol = documentInner ∨ (symbolMarks language child.symbol).recovery = true) := by
  have top : run.stack.top = 14 := fourteen
  obtain ⟨entry, others, below, plain, edge⟩ := h.linked.exists_core (by rw [top]; decide)
  have single : Stack.takeOff 1 run.stack.belowExtras [] = ([entry.subtree], others) := by
    rw [below]
    simp [Stack.takeOff, plain]
  rw [taken, Prod.mk.injEq] at single
  have all : ∀ edge ∈ edges, edge.2.2 = 14 → edge.2.1 = documentInner ∨
      (symbolMarks language edge.2.1).recovery = true := by decide
  exact ⟨entry.subtree, single.1, all _ edge top⟩

/-- A header with stray text at its end has an error. -/
theorem Orderly.exists_error_stray (h : Orderly text limit old run) (sixteen : run.state = 16)
    {children : List Subtree} {rest : Stack}
    (taken : Stack.takeOff 6 run.stack.belowExtras [] = (children, rest)) :
    ∃ child ∈ children, child.marks.hasError = true := by
  have top : run.stack.top = 16 := sixteen
  obtain ⟨entry, others, below, plain, edge⟩ := h.linked.exists_core (by rw [top]; decide)
  have all : ∀ edge ∈ edges, edge.2.2 = 16 →
      (symbolMarks language edge.2.1).recovery = true := by decide
  -- the stray text on top is one of the parts
  have part : entry.subtree ∈ Subtree.core children := by
    have core := @Linked.core_taken _ h.linked 6 (by rw [top]; decide)
    rw [taken, ← inner_belowExtras, below, inner_cons plain, List.take_succ_cons] at core
    rw [core]
    simp
  have here : entry ∈ run.stack := (List.dropWhile_suffix _).mem (by
    rw [show run.stack.dropWhile _ = _ from below]
    simp)
  have recovery := all _ edge top
  exact ⟨entry.subtree, (List.mem_filter.mp part).1,
    hasError_of_recovery (h.sturdy here).intact recovery⟩

/-- The slots are reduced in front of the NUL character only. -/
theorem eof_of_reduces {symbol : Symbol}
    (reduces : language.action? 9 symbol = some (.reduce documentInner 5) ∨
      language.defaultReduction? 9 = some (documentInner, 5)) : symbol = eof := by
  rcases reduces with action | default
  · have all : ∀ entry ∈ actions, entry.1.1 = 9 → entry.2 = .reduce documentInner 5 →
        entry.1.2 = eof := by decide
    exact all _ (mem_actions action) rfl rfl
  · exact absurd default (by decide)

/-- **What a reduction makes belongs to the text.** -/
theorem fresh_reduction (h : Orderly text limit old run) (course : Course text run)
    {token : Subtree}
    (current : (run.current (setting text limit old)).token = token) {made : Symbol} {count : UInt8}
    {children : List Subtree} {rest : Stack}
    (reduces : language.action? run.state token.symbol = some (.reduce made count) ∨
      language.defaultReduction? run.state = some (made, count))
    (taken : Stack.takeOff count.toNat run.stack.belowExtras [] = (children, rest))
    (row : EverywhereAmong (fun position tree => Fresh (text.ahead position) tree)
      (totalSizes rest.subtrees) children) :
    Fresh (text.ahead (totalSizes rest.subtrees))
      ((node language made children rest.top).needing (run.stack.needed token)) := by
  have reduction : (run.state, made, count) ∈ reductions :=
    reduces.elim mem_reductions_of_reduce mem_reductions_of_default
  have inner := isTerminal_eq_false_of_reduction reduction
  have sturdy := sturdy_node inner children rest.top
  refine ⟨⟨sturdy.intact.needing _, sturdy.atom⟩, ?_, fun state target _ shift => ?_,
    fun header fine => ?_⟩
  · rw [symbol_needing, symbol_node]
    exact (rule_of_reduction reduction).1
  · rw [symbol_needing, symbol_node, action?_inner inner] at shift
    cases shift
  · rw [symbol_needing, symbol_node] at header
    rw [marks_needing, marks_node] at fine
    simp only [Bool.or_eq_false_iff] at fine
    obtain ⟨-, fine⟩ := fine
    -- what is wrong in a child is wrong in the node
    have faultless : ∀ child ∈ children, child.marks.hasError = false := by
      simpa using fine
    have all : ∀ entry ∈ reductions, entry.2.1 ∈ [document, documentInner] →
        entry = (9, documentInner, 5) ∨ entry = (14, document, 1) ∨
          entry = (16, documentInner, 6) := by decide
    rcases all _ reduction header with e | e | e
    · simp only [Prod.mk.injEq] at e
      obtain ⟨nine, rfl, rfl⟩ := e
      have top : run.stack.top = 9 := nine
      obtain ⟨rfl, rfl⟩ := h.linked.takeOff_all (by rw [top]; decide) (by rw [top]; decide) taken
      have closes : token.symbol = eof := eof_of_reduces (nine ▸ reduces)
      rw [show totalSizes (Stack.subtrees []) = 0 from rfl, Text.ahead_zero]
      exact course.heads h nine current closes fine _
    · simp only [Prod.mk.injEq] at e
      obtain ⟨fourteen, rfl, rfl⟩ := e
      obtain ⟨child, rfl, symbol | recovery⟩ := h.takeOff_inner fourteen taken
      · have below := (everywhere_iff.mp (everywhereAmong_singleton.mp row)).1
        exact (below.header (by rw [symbol]; decide) (faultless child (by simp))).document symbol _ _
      · have below := (everywhere_iff.mp (everywhereAmong_singleton.mp row)).1
        have error := hasError_of_recovery below.sturdy.intact recovery
        rw [faultless child (by simp)] at error
        cases error
    · simp only [Prod.mk.injEq] at e
      obtain ⟨sixteen, rfl, rfl⟩ := e
      obtain ⟨child, m, error⟩ := h.exists_error_stray sixteen taken
      rw [faultless child m] at error
      cases error

end Header

end Reparse
