/-
Reparse/Proofs/Header/Close.lean

How a parse ends behind a header.

The text behind a header is fine if it is tabs, a NUL character and white
space: then three reductions and a shift lead to the root.  Any other text ends
in error.  The error is an error production only if there is a newline or blank
in front of the first NUL character.
-/
import Reparse.Proofs.Header.Tail

namespace Reparse.Header

open Subtree
open Scan (found?)

variable {text : Text} {limit : Nat} {old : Option Subtree} {run : Run} {rest : Text}

/-- A reduction that the table asks for, or that is left where it says nothing. -/
theorem Orderly.turn_makes (h : Orderly text limit old run) {lookahead : Lookahead}
    (current : run.current (setting text limit old) = lookahead) (made : Symbol) (count : UInt8)
    (target : StateId)
    (reduces : language.action? run.state lookahead.token.symbol = some (.reduce made count) ∨
      run.recoveries < limit ∧ language.action? run.state lookahead.token.symbol = none ∧
        language.defaultReduction? run.state = some (made, count))
    (goto : language.goto? (pathTop ((path run.state).drop count.toNat)) made = some target) :
    ∃ next, run.turn (setting text limit old) = .running next ∧
      run.stack.reduce? language made count lookahead.token = some next.stack ∧
      next.state = target ∧ next.lookahead = some lookahead ∧ next.position = run.position ∧
      next.inserted = run.inserted := by
  obtain ⟨stack, reduced, -, top, -⟩ := exists_reduce? h.linked
    (reduces.elim mem_reductions_of_reduce fun left => mem_reductions_of_default left.2.2)
    lookahead.token
  have target_eq : stack.top = target := Option.some.inj (top.symm.trans goto)
  rcases reduces with action | ⟨budget, action, default⟩
  · refine ⟨{ run with stack, lookahead := some lookahead }, ?_, reduced, target_eq, rfl, rfl, rfl⟩
    simp [Run.turn, current, Run.moveOn, action, reduced, Run.make]
  · have reduction : run.defaultReduction? (setting text limit old) lookahead = some stack := by
      rw [Run.defaultReduction?, setting_language, default]
      exact reduced
    refine ⟨{ run with stack, lookahead := some lookahead, recoveries := run.recoveries + 1 }, ?_,
      reduced, target_eq, rfl, rfl, rfl⟩
    simp [Run.turn, current, Run.moveOn, action, Run.recovery, Nat.not_le.mpr budget, reduction,
      Run.make]

theorem wrong_of_reduce? {next : Run} {made : Symbol} {count : UInt8} {token : Subtree}
    (reduced : run.stack.reduce? language made count token = some next.stack)
    (plain : (symbolMarks language made).recovery = false ∧ made ≠ errorSymbol) :
    next.wrong = run.wrong := by
  rw [Run.wrong, anyError_reduce? reduced, plain.1, decide_eq_false plain.2]
  rfl

/-- Where only the default reduction is left it is made, or the parse gives up. -/
theorem Orderly.turn_default (h : Orderly text limit old run) {lookahead : Lookahead}
    (current : run.current (setting text limit old) = lookahead) (made : Symbol) (count : UInt8)
    (target : StateId) (action : language.action? run.state lookahead.token.symbol = none)
    (default : language.defaultReduction? run.state = some (made, count))
    (goto : language.goto? (pathTop ((path run.state).drop count.toNat)) made = some target) :
    (∃ root reused, run.turn (setting text limit old) = .finished root reused ∧
        root.marks.hasError = true) ∨
      ∃ next, run.turn (setting text limit old) = .running next ∧ next.state = target ∧
        next.lookahead = some lookahead := by
  by_cases spent : limit ≤ run.recoveries
  · refine .inl ⟨run.giveUp (setting text limit old) lookahead.token, run.reused, ?_,
      hasError_giveUp _⟩
    simp [Run.turn, current, Run.moveOn, action, Run.recovery, spent, Run.make]
  · obtain ⟨next, running, -, top, kept, -⟩ := h.turn_makes current made count target
      (.inr ⟨Nat.lt_of_not_le spent, action, default⟩) goto
    exact .inr ⟨next, running, top, kept⟩

theorem turn_accept {lookahead : Lookahead}
    (current : run.current (setting text limit old) = lookahead)
    (action : language.action? run.state lookahead.token.symbol = some .accept) :
    run.turn (setting text limit old) =
      .finished (run.accept (setting text limit old) lookahead.token) run.reused := by
  simp only [Run.turn, current, Run.moveOn, setting_language, action,
    if_pos (eq_of_accept action).2, Run.make]

/-- **At the NUL character** the tokens of the header are put into one node, that
into the document, and the character on top of it. -/
theorem Orderly.steps_close (h : Orderly text limit none run) (nine : run.state = 9)
    {lookahead : Lookahead} (current : run.current (setting text limit none) = lookahead)
    (symbol : lookahead.token.symbol = eof) :
    ∃ first second : Run,
      Run.Steps (setting text limit none) run
        { second.push 15 lookahead.token with lookahead := none } ∧
      run.stack.reduce? language documentInner 5 lookahead.token = some first.stack ∧
      first.stack.reduce? language document 1 lookahead.token = some second.stack ∧
      second.position = run.position ∧ second.inserted = run.inserted := by
  obtain ⟨first, running, reduced, fourteen, kept, position, inserted⟩ := h.turn_makes current
    documentInner 5 14 (.inl (by rw [nine, symbol, action?_eq]; rfl))
    (by rw [nine]; exact goto?_of_mem_edges (by decide) (by decide))
  have action : language.action? first.state lookahead.token.symbol =
      some (.reduce document 1) := by
    rw [fourteen, symbol, action?_eq]
    rfl
  obtain ⟨second, running', reduced', thirteen, kept', position', inserted'⟩ :=
    (h.turn running).1.turn_makes (current_of_fits kept (by rw [action]; rfl)) document 1 13
      (.inl action) (by rw [fourteen]; exact goto?_of_mem_edges (by decide) (by decide))
  replace action : language.action? second.state lookahead.token.symbol = some (.shift 15) := by
    rw [thirteen, symbol, action?_eq]
    rfl
  have shifted : second.turn (setting text limit none) =
      .running { second.push 15 lookahead.token with lookahead := none } := by
    simp [Run.turn, current_of_fits kept' (by rw [action]; rfl), Run.moveOn, action, Run.make]
  exact ⟨first, second, .head ((step_fresh ..).trans running) (.head ((step_fresh ..).trans running')
    (.head ((step_fresh ..).trans shifted) .refl)), reduced, reduced', position'.trans position,
    inserted'.trans inserted⟩

/-! ### Behind the end of the header -/

/-- The fallback mode finds the end behind white space only. -/
theorem found?_spaces {spaces : Text} (hs : ∀ c ∈ spaces, isSpace c = true) :
    found? language { state := 0 } spaces = some (endSymbol, Text.size spaces, 0) := by
  have h := found?_fallback hs (.inl rfl)
  rw [List.append_nil] at h
  rcases h with ⟨-, found⟩ | ⟨_, e, -⟩ | ⟨_, e, -⟩ | ⟨-, _, _, _, e, -⟩ | ⟨_, _, e, -⟩
  · exact found
  all_goals cases e

/-- A state of the fallback mode reads no end in front of other text. -/
theorem lookahead_solid {spaces more : Text} {c : Char} (hs : ∀ c ∈ spaces, isSpace c = true)
    (hc : isSpace c = false) {state : StateId} (mode : language.lexMode state = 0) :
    (language.lookahead (spaces ++ c :: more) 0 state).token.symbol ∈
      [eof, documentLiteral, leftBracket, rightBracket, errorSymbol] := by
  have token {symbol : Symbol} {padding size : Nat}
      (found : found? language { state := 0 } (spaces ++ c :: more) = some (symbol, padding, size)) :
      (language.lookahead (spaces ++ c :: more) 0 state).token.symbol = symbol := by
    rw [← bare_symbol, lookahead_low_of_found? (mode ▸ found), leaf_symbol]
  rcases found?_fallback hs (.inr ⟨c, more, rfl, hc⟩) with ⟨e, -⟩ | ⟨_, -, found⟩ |
    ⟨_, -, found⟩ | ⟨-, _, _, symbol, -, hd, found⟩ | ⟨_, _, -, -, nothing⟩
  · cases e
  · rw [token found]
    decide
  · rw [token found]
    decide
  · rw [token found]
    rcases hd with ⟨-, rfl⟩ | ⟨-, rfl⟩ <;> decide
  · obtain ⟨d, others, e⟩ : ∃ d others, spaces ++ c :: more = d :: others := by
      cases spaces with
      | nil => exact ⟨_, _, rfl⟩
      | cons d spaces => exact ⟨_, _, rfl⟩
    rw [e] at nothing ⊢
    rw [← bare_symbol, lookahead_of_nothing (mode ▸ nothing) nothing, leaf_symbol]
    decide

/-- A run that has read the NUL character behind a header. -/
structure Closing (text : Text) (run : Run) (rest : Text) : Prop where
  state : run.state = 15
  lookahead : run.lookahead = none
  drop : text.drop? run.position = some rest

section Ends

variable {root : Subtree} {steps : Nat} (ends : Run.Ends (setting text limit none) root steps run)
include ends

/-- White space behind the NUL character is fine. -/
theorem Closing.ends_of_spaces (h : Orderly text limit none run) (closing : Closing text run rest)
    (fine : run.wrong = false) (hs : ∀ c ∈ rest, isSpace c = true) :
    root.marks.hasError = false := by
  obtain ⟨state, lookahead, drop⟩ := closing
  obtain ⟨la, current⟩ : ∃ la, run.current (setting text limit none) = la := ⟨_, rfl⟩
  have token : la.token.bare = leaf endSymbol (Text.size rest) 0 := by
    rw [← current, current_of_none lookahead drop, state]
    refine lookahead_of_found? (Text.size_lt_of_drop? h.small drop) ?_
    rw [show language.lexMode 15 = 0 by decide]
    exact found?_spaces hs
  have symbol : la.token.symbol = endSymbol := by rw [← bare_symbol, token, leaf_symbol]
  obtain ⟨next, running, reduced, twelve, kept, -⟩ := h.turn_makes current topNode 2 12
    (.inl (by rw [state, symbol, action?_eq]; rfl))
    (by rw [state]; exact goto?_of_mem_edges (by decide) (by decide))
  have action : language.action? next.state la.token.symbol = some .accept := by
    rw [twelve, symbol, action?_eq]
    rfl
  have finished : next.turn (setting text limit none) =
      .finished (next.accept (setting text limit none) la.token) next.reused :=
    turn_accept (current_of_fits kept (by rw [action]; rfl)) action
  have orderly := (h.turn running).1
  obtain ⟨entry, below, stack, mem, -⟩ := orderly.exists_top twelve
  obtain ⟨fewer, ends⟩ := ends_of_running ends running
  rw [eq_of_finished ends finished, hasError_accept stack (orderly.sturdy mem).intact.flagged,
    wrong_of_reduce? reduced (by decide), fine, ← bare_marks la.token, token, marks_leaf]
  decide

/-- Anything else behind the NUL character is an error. -/
theorem Closing.ends_of_solid (h : Orderly text limit none run) (closing : Closing text run rest)
    (solid : ¬ ∀ c ∈ rest, isSpace c = true) : root.marks.hasError = true := by
  obtain ⟨state, lookahead, drop⟩ := closing
  obtain ⟨spaces, others, rfl, hs, rfl | ⟨c, more, rfl, hc⟩⟩ := exists_run isSpace rest
  · exact absurd (by simpa using hs) solid
  obtain ⟨la, current⟩ : ∃ la, run.current (setting text limit none) = la := ⟨_, rfl⟩
  have read : la = language.lookahead (spaces ++ c :: more) 0 15 := by
    rw [← current, current_of_none lookahead drop, state]
  have useless : ∀ symbol ∈ [eof, documentLiteral, leftBracket, rightBracket, errorSymbol],
      language.action? 15 symbol = none ∧ language.action? 12 symbol = none := by
    simp only [action?_eq]
    decide
  have mode : language.lexMode 15 = 0 ∧ language.lexMode 12 = 0 := by decide
  obtain ⟨fifteen, twelve⟩ := useless la.token.symbol (read ▸ lookahead_solid hs hc mode.1)
  rcases h.turn_default current topNode 2 12 (state ▸ fifteen)
    (by rw [state]; decide) (by rw [state]; exact goto?_of_mem_edges (by decide) (by decide)) with
    ⟨other, reused, finished, error⟩ | ⟨next, running, top, kept⟩
  · exact eq_of_finished ends finished ▸ error
  · obtain ⟨fewer, ends⟩ := ends_of_running ends running
    have same : next.current (setting text limit none) = la := by
      refine current_of_mode kept ?_
      rw [read, top, mode.2]
      exact mode.1
    exact (h.turn running).1.stuck_ends (by rw [same, top]; exact twelve)
      (by rw [top]; decide) (by rw [top]; decide) ends

end Ends

/-! ### In front of the end of the header -/

/-- A run that has read all slots of a header. -/
structure Behind (text : Text) (run : Run) (rest : Text) : Prop where
  state : run.state = 9
  lookahead : run.lookahead = none
  drop : text.drop? run.position = some rest

theorem At.behind {stack : Stack} (here : At text run none stack rest) : Behind text run rest :=
  ⟨here.state, here.lookahead, here.drop⟩

namespace Behind

theorem small_rest (behind : Behind text run rest) (small : text.size < UInt32.size) :
    Text.size rest < UInt32.size :=
  Text.size_lt_of_drop? small behind.drop

theorem current (behind : Behind text run rest) :
    run.current (setting text limit old) = language.lookahead rest 0 9 := by
  rw [current_of_none behind.lookahead behind.drop, behind.state]

theorem token (limit : Nat) (old : Option Subtree) (behind : Behind text run rest)
    (small : text.size < UInt32.size) {symbol : Symbol} {padding size : Nat}
    (found : found? language { state := 1 } rest = some (symbol, padding, size)) :
    (run.current (setting text limit old)).token.bare = leaf symbol padding size := by
  rw [behind.current]
  refine lookahead_of_found? (behind.small_rest small) ?_
  rw [show language.lexMode 9 = 1 by decide]
  exact found

/-- Skipped input leaves the parse behind the header. -/
theorem turn_passes (h : Orderly text limit old run) (behind : Behind text run rest)
    (fine : firstRepairAmong? run.stack.subtrees = none) {more : Text} {symbol : Symbol}
    {padding size : Nat} (passes : Passes rest symbol padding size more)
    (budget : run.recoveries < limit) {token : Subtree}
    (current : (run.current (setting text limit old)).token = token) :
    run.turn (setting text limit old) = .running (skipping run token) ∧
      token.bare = leaf symbol padding size ∧ Behind text (skipping run token) more ∧
      firstRepairAmong? (skipping run token).stack.subtrees = none := by
  have same := passes.current limit old h.small (.inl behind.state) behind.lookahead behind.drop
  have running := turn_skips passes.useless (.inl behind.state) same
    (Stack.hasConsumedRecovery_of_firstRepairAmong? fine) budget
  have intact := h.current_intact.1.self
  rw [current] at same running intact
  obtain ⟨taken, split, width, -, -⟩ := passes.split
  refine ⟨running, same, ⟨?_, rfl, ?_⟩, ?_⟩
  · have rests := linked_skip h.linked token (fun error => ?_)
      (by rw [show run.stack.top = 9 from behind.state]; decide)
    · exact rests.2.trans behind.state
    · rw [← bare_marks, same, marks_leaf]
      rw [← bare_isErrorToken, same] at error
      exact decide_eq_true (isErrorToken_iff.mp error).1
  · obtain ⟨before, rfl, hb⟩ := Text.drop?_eq_some_iff.mp behind.drop
    rw [skipping, ← bare_totalSize, same, leaf_totalSize, ← hb, ← width, split,
      ← List.append_assoc, ← Text.size_append]
    exact Text.drop?_append _ _
  · rw [show firstRepairAmong? (skipping run token).stack.subtrees = _ from
      firstRepairAmong?_skip h.intact intact, fine, Option.none_or]
    have all : ∀ symbol ∈ [documentLiteral, leftBracket, rightBracket, errorSymbol],
        (symbolMarks language symbol).recovery = false := by decide
    rw [← firstRepair?_bare, same, firstRepair?_leaf (all _ passes.useless)]

/-- The NUL character completes the header. -/
theorem closes (h : Orderly text limit none run) (behind : Behind text run rest)
    {padding : Nat} (found : found? language { state := 1 } rest = some (eof, padding, 1))
    (taken more : Text) (split : rest = taken ++ more) (width : Text.size taken = padding + 1) :
    ∃ last, Run.Steps (setting text limit none) run last ∧ Closing text last more ∧
      last.wrong = run.wrong ∧
      firstRepairAmong? last.stack.subtrees = firstRepairAmong? run.stack.subtrees := by
  obtain ⟨la, current⟩ : ∃ la, run.current (setting text limit none) = la := ⟨_, rfl⟩
  have token := current ▸ behind.token limit none h.small found
  obtain ⟨first, second, reached, reduced, reduced', position, -⟩ :=
    h.steps_close behind.state current (by rw [← bare_symbol, token, leaf_symbol])
  have fine : la.token.marks.hasError = false ∧ firstRepair? la.token = none := by
    rw [← bare_marks, ← firstRepair?_bare, token, firstRepair?_leaf (by decide), marks_leaf]
    exact ⟨by decide, rfl⟩
  refine ⟨_, reached, ⟨rfl, rfl, ?_⟩, ?_, ?_⟩
  · obtain ⟨before, rfl, hb⟩ := Text.drop?_eq_some_iff.mp behind.drop
    have size : la.token.totalSize = padding + 1 := by rw [← bare_totalSize, token]; rfl
    simp only [Run.push, position, size, split, ← hb, ← width]
    rw [← List.append_assoc, ← Text.size_append]
    exact Text.drop?_append _ _
  · rw [← wrong_of_reduce? reduced (by decide), ← wrong_of_reduce? reduced' (by decide)]
    simp [Run.wrong, Run.push, fine.1]
  · simp only [Run.push, Stack.subtrees_cons, firstRepairAmong?_append,
      firstRepairAmong?_singleton, fine.2, Option.or_none]
    rw [firstRepairAmong?_reduce?_plain reduced' (by decide),
      firstRepairAmong?_reduce?_plain reduced (by decide)]

/-- Tabs end at the first character that is none. -/
theorem eq_of_tabs {c d : Char} {tabs others more spaces : Text}
    (ht : ∀ c ∈ tabs, isTab c = true) (hc : isTab c = false)
    (ho : ∀ c ∈ others, isTab c = true) (hd : isTab d = false)
    (e : tabs ++ c :: more = others ++ d :: spaces) : c = d ∧ more = spaces := by
  have left := (dropWhile_run ht (c :: more) (.inr ⟨_, _, rfl, hc⟩)).1
  have right := (dropWhile_run ho (d :: spaces) (.inr ⟨_, _, rfl, hd⟩)).1
  rw [e, right] at left
  exact List.cons.inj left.symm

/-- In front of the NUL character a stray newline or blank lies behind all calm text. -/
theorem exists_stray_append {calm : Text} (h : ∀ c ∈ calm, c ≠ '\x00' ∧ c ≠ '\n' ∧ c ≠ ' ')
    (rest : Text) :
    (∃ c ∈ (calm ++ rest).takeWhile (· ≠ '\x00'), c = '\n' ∨ c = ' ') ↔
      ∃ c ∈ rest.takeWhile (· ≠ '\x00'), c = '\n' ∨ c = ' ' := by
  rw [List.takeWhile_append_of_pos fun c m => decide_eq_true (h c m).1]
  constructor
  · rintro ⟨c, m, hc⟩
    rcases List.mem_append.mp m with m | m
    · exact absurd hc (by simp [h c m])
    · exact ⟨c, m, hc⟩
  · rintro ⟨c, m, hc⟩
    exact ⟨c, List.mem_append_right _ m, hc⟩

/-- Tabs and a NUL character do not go unnoticed. -/
theorem ne_of_quiet (quiet : found? language { state := 1 } rest = none) {tabs spaces : Text}
    (ht : ∀ c ∈ tabs, isTab c = true) : rest ≠ tabs ++ '\x00' :: spaces := by
  rintro rfl
  rcases found?_tail ht (.inr ⟨'\x00', spaces, rfl, by decide⟩) with ⟨_, -, found⟩ |
    ⟨_, _, _, -, -, found⟩ | ⟨e | ⟨c, _, e, nul, -⟩, -⟩
  · rw [quiet] at found; cases found
  · rw [quiet] at found; cases found
  · cases e
  · exact absurd (List.cons.inj e).1.symm nul

section Ends

variable {root : Subtree} {steps : Nat} (ends : Run.Ends (setting text limit none) root steps run)
include ends

/-- Stray newlines and blanks are an error production. -/
theorem ends_of_stray (h : Orderly text limit none run) (behind : Behind text run rest)
    (fine : firstRepairAmong? run.stack.subtrees = none) {padding size : Nat}
    (found : found? language { state := 1 } rest = some (trailingEndError, padding, size)) :
    root.marks.hasError = true ∧ firstRepair? root = some trailingEndError := by
  have token := behind.token limit none h.small found
  obtain ⟨next, running, same⟩ := Progress.exists_running (turn_shift token 16
    (by rw [behind.state, leaf_symbol, action?_eq]; rfl))
  have stack : next.stack.bare = _ := congrArg Run.stack same
  obtain ⟨fewer, ends⟩ := ends_of_running ends running
  refine (h.turn running).1.firstRepair_ends ends ?_
  rw [← firstRepairAmong?_bare, stack, Stack.subtrees_cons, firstRepairAmong?_append,
    firstRepairAmong?_bare, fine, firstRepairAmong?_singleton, firstRepair?_eq, marks_leaf,
    leaf_symbol, if_pos (by decide)]
  rfl

/-- **Behind the slots only tabs, a NUL character and white space are right.** -/
theorem hasError_ends (h : Orderly text limit none run) (behind : Behind text run rest)
    (fine : run.wrong = false) (plain : firstRepairAmong? run.stack.subtrees = none) :
    root.marks.hasError = false ↔ ∃ tabs spaces, rest = tabs ++ '\x00' :: spaces ∧
      (∀ c ∈ tabs, isTab c = true) ∧ ∀ c ∈ spaces, isSpace c = true := by
  -- where mode 1 finds nothing the parse is stuck, and the text is not of the form
  have stuck (none : found? language { state := 1 } rest = Option.none)
      (useless : language.action? 9 (language.lookahead rest 0 9).token.symbol = Option.none) :
      root.marks.hasError = false ↔ ∃ tabs spaces, rest = tabs ++ '\x00' :: spaces ∧
        (∀ c ∈ tabs, isTab c = true) ∧ ∀ c ∈ spaces, isSpace c = true := by
    have error := h.stuck_ends (by rw [behind.current, behind.state]; exact useless)
      (by rw [behind.state]; decide) (by rw [behind.state]; decide) ends
    exact ⟨fun e => absurd (error.symm.trans e) (by decide),
      fun ⟨tabs, spaces, e, ht, _⟩ => absurd e (ne_of_quiet none ht)⟩
  rcases tail_cases rest with ⟨tabs, more, rfl, ht, found⟩ | ⟨tabs, c, more, rfl, ht, hc, size, found⟩ |
    ⟨ht, none, found⟩ | ⟨symbol, padding, size, more, passes⟩
  · -- the NUL character: what counts is what comes behind it
    obtain ⟨last, reached, closing, same, -⟩ := behind.closes h found
      (tabs ++ ['\x00']) more (by simp) (by simp only [Text.size_append]; rfl)
    have orderly := h.of_steps reached
    obtain ⟨fewer, ends⟩ := ends.of_steps reached
    constructor
    · intro e
      refine ⟨tabs, more, rfl, ht, ?_⟩
      by_cases hs : ∀ c ∈ more, isSpace c = true
      · exact hs
      · rw [closing.ends_of_solid ends orderly hs] at e
        cases e
    · rintro ⟨others, spaces, e, ho, hs⟩
      obtain rfl := (eq_of_tabs ht (by decide) ho (by decide) e).2
      exact closing.ends_of_spaces ends orderly (same.trans fine) hs
  · -- a newline or a blank on the way to it
    have error := (behind.ends_of_stray ends h plain found).1
    refine ⟨fun e => absurd (error.symm.trans e) (by decide), ?_⟩
    rintro ⟨others, spaces, e, ho, -⟩
    have solid : isTab c = false ∧ c ≠ '\x00' := by rcases hc with rfl | rfl <;> decide
    exact absurd (eq_of_tabs ht solid.1 ho (by decide) e).1 solid.2
  · refine stuck none ?_
    rw [← bare_symbol, lookahead_low_of_fallback (by
      rw [show language.lexMode 9 = 1 by decide]; exact none) found, leaf_symbol, action?_eq]
    rfl
  · refine stuck passes.quiet ?_
    have small := behind.small_rest h.small
    rw [← bare_symbol, passes.lookahead small (.inr (by decide)), leaf_symbol]
    have useless : ∀ symbol ∈ [documentLiteral, leftBracket, rightBracket, errorSymbol],
        language.action? 9 symbol = Option.none := by
      simp only [action?_eq]
      decide
    exact useless _ passes.useless

/-- **With enough recoveries stray newlines and blanks are always found.** -/
theorem firstRepair_ends (h : Orderly text limit none run) (behind : Behind text run rest)
    (fine : firstRepairAmong? run.stack.subtrees = none) (nul : '\x00' ∈ rest)
    (budget : run.recoveries + Text.size rest ≤ limit) :
    firstRepair? root = some trailingEndError ↔
      ∃ c ∈ rest.takeWhile (· ≠ '\x00'), c = '\n' ∨ c = ' ' := by
  induction size : rest.length using Nat.strongRecOn generalizing run rest steps with
  | ind count ih =>
    rcases tail_cases rest with ⟨tabs, more, rfl, ht, found⟩ |
      ⟨tabs, c, more, rfl, ht, hc, width, found⟩ | ⟨ht, -, -⟩ |
      ⟨symbol, padding, width, more, passes⟩
    · -- nothing stands in front of the NUL character but tabs
      obtain ⟨last, reached, closing, -, same⟩ := behind.closes h found
        (tabs ++ ['\x00']) more (by simp) (by simp only [Text.size_append]; rfl)
      obtain ⟨fewer, ends⟩ := ends.of_steps reached
      have none := (h.of_steps reached).late_ends ends (by rw [closing.state]; decide)
        (same.trans fine)
      rw [none, exists_stray_append fun c m => calm_of_isTab (ht c m)]
      simp
    · rw [(behind.ends_of_stray ends h fine found).2,
        exists_stray_append fun c m => calm_of_isTab (ht c m)]
      have other : c ≠ '\x00' := by rcases hc with rfl | rfl <;> decide
      simp only [true_iff]
      exact ⟨c, by simp [other], hc⟩
    · exact absurd (ht _ nul) (by decide)
    · -- something is skipped that is neither, and the rest is shorter
      obtain ⟨shorter, wide, pos⟩ := passes.size_lt
      obtain ⟨running, -, next, quiet⟩ := behind.turn_passes h fine passes
        (by omega) rfl
      obtain ⟨fewer, ends⟩ := ends_of_running ends running
      obtain ⟨taken, rfl, hs, -, plain⟩ := passes.split
      rw [exists_stray_append plain]
      refine ih more.length (size ▸ shorter) ends (h.turn running).1 next quiet ?_ ?_ rfl
      · rcases List.mem_append.mp nul with m | m
        · exact absurd rfl (plain _ m).1
        · exact m
      · simp only [skipping]
        omega

end Ends

end Behind

end Reparse.Header
