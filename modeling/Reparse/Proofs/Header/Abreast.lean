/-
Reparse/Proofs/Header/Abreast.lean

A header parse comes to the same root with an old tree as without one.

The two parses go side by side: they take steps that look alike until the one
with the old tree leaps over a whole header.  Then the other one fills the slots
and waits behind the last one (`Waiting`), with the text that is skipped there
on its stack but the document not yet made.  Both skip the same tokens, the one
in front of the document and the other behind it.  At the NUL character the one
that was waiting makes the document, and they go on side by side again.
-/
import Reparse.Proofs.Header.Growing

namespace Reparse

open Subtree

/-! ### Stacks of extras on a row -/

namespace Stack

variable {language : Language} {above below : Stack}

theorem bare_moved (stack : Stack) (target : StateId) :
    (stack.moved target).bare = stack.bare.moved target := by
  simp [moved, bare, Entry.bare, Function.comp_def]

theorem split_extras (extra : ∀ entry ∈ above, entry.subtree.marks.extra = true)
    (plain : ∀ entry ∈ below, entry.subtree.marks.extra = false) :
    Stack.extras (above ++ below) = above ∧ Stack.belowExtras (above ++ below) = below := by
  cases below with
  | nil =>
    rw [extras.eq_def, belowExtras.eq_def, List.takeWhile_append_of_pos extra,
      List.dropWhile_append_of_pos extra]
    exact ⟨List.append_nil above, rfl⟩
  | cons entry rest => exact extras_of_append extra (plain entry (by simp))

/-- All of a row without extras is taken off by its length. -/
theorem takeOff_length {stack : Stack} (plain : ∀ entry ∈ stack, entry.subtree.marks.extra = false)
    (taken : List Subtree) : takeOff stack.length stack taken = (stack.subtrees ++ taken, []) := by
  induction stack generalizing taken with
  | nil => rfl
  | cons entry rest ih =>
    rw [List.length_cons, takeOff, plain entry (by simp), if_neg Bool.false_ne_true,
      ih fun other m => plain other (by simp [m])]
    simp

/-- A reduction of all that is no extra. -/
theorem bare_reduce?_all {stack reduced : Stack} {made : Symbol} {count : UInt8} {token : Subtree}
    {target : StateId} (reduces : stack.reduce? language made count token = some reduced)
    (split : stack.bare = above ++ below)
    (extra : ∀ entry ∈ above, entry.subtree.marks.extra = true)
    (plain : ∀ entry ∈ below, entry.subtree.marks.extra = false)
    (all : below.length = count.toNat) (goto : language.goto? startState made = some target) :
    reduced.bare = above.moved target ++ [⟨target, (node language made below.subtrees 0).bare⟩] := by
  have bares := reduce?_bare language stack made count token
  rw [reduces, split, Option.map_some] at bares
  obtain ⟨other, same, e⟩ := Option.map_eq_some_iff.mp bares
  obtain ⟨children, rest, there, taken, leads, rfl⟩ := reduce?_eq_some_iff.mp same
  obtain ⟨top, bottom⟩ := split_extras extra plain
  rw [bottom, ← all, takeOff_length plain, Prod.mk.injEq, List.append_nil] at taken
  obtain ⟨rfl, rfl⟩ := taken
  obtain rfl := Option.some.inj (leads.symm.trans goto)
  have quiet : above.bare = above := by
    have bare := congrArg Stack.bare split
    rw [bare_bare, split, bare_append] at bare
    exact (List.append_inj bare.symm (by simp [Stack.bare])).1
  rw [← e, top, bare_append, bare_moved, quiet, bare_cons, bare_nil, Entry.bare,
    Header.bare_needing, bare_node_congr _ 0 rfl]

theorem bare_mergeErrors_state (previous token : Subtree) (s t : StateId) :
    (mergeErrors language previous token s).bare = (mergeErrors language previous token t).bare := by
  rw [mergeErrors, mergeErrors]
  split
  · rfl
  · exact bare_errorNode_congr s t rfl

/-- **Skipped input is put on extras alike**, whatever row they stand on. -/
theorem bare_skip_moved {entry : Entry} (extra : ∀ other ∈ above, other.subtree.marks.extra = true)
    (plain : entry.subtree.marks.extra = false) (token : Subtree) :
    (skip language (above.moved entry.state ++ entry :: below) token).bare =
      ((skip language above token).moved entry.state).bare ++ bare (entry :: below) := by
  have alone (s t : StateId) : (if token.isErrorToken then token
      else errorNode language [token] s).bare = (if token.isErrorToken then token
      else errorNode language [token] t).bare := by
    split
    · rfl
    · exact bare_errorNode_congr s t rfl
  cases above with
  | nil => simpa [Stack.skip, moved, Entry.bare, plain, Stack.top] using alone entry.state startState
  | cons first rest =>
    have same := @bare_mergeErrors_state language first.subtree token entry.state
      first.state
    by_cases joins : first.subtree.symbol = errorSymbol
    · simp [Stack.skip, moved, joins, extra first (by simp), Entry.bare, Stack.top, same]
    · simp [Stack.skip, moved, joins, Entry.bare, Stack.top, alone first.state entry.state]

theorem top_moved (entry : Entry) (below : Stack) :
    Stack.top (above.moved entry.state ++ entry :: below) = entry.state := by
  cases above <;> rfl

theorem extra_skip {stack : Stack} {token : Subtree}
    (extra : ∀ entry ∈ stack, entry.subtree.marks.extra = true)
    (skipped : token.isErrorToken = true → token.marks.extra = true) :
    ∀ entry ∈ stack.skip language token, entry.subtree.marks.extra = true := by
  have none : stack.belowExtras = [] := by
    simpa using (@split_extras stack [] extra (by simp)).2
  have split := (stack.skip language token).extras_append_belowExtras
  rw [belowExtras_skip language stack skipped, none, List.append_nil] at split
  intro entry m
  rw [← split] at m
  exact extra_of_mem_extras m

end Stack

namespace Header

variable {text : Text} {limit : Nat} {old : Option Subtree} {run warm cold next : Run}

/-! ### Recoveries -/

/-- With as many recoveries as bytes and states the limit never matters. -/
theorem Orderly.free (h : Orderly text limit old run) (enough : text.size + 15 ≤ limit) :
    run.Free (setting text limit old) := by
  rcases Nat.lt_or_ge run.recoveries limit with left | spent
  · exact .inl left
  right
  have budget := h.budget
  have inside := h.inside
  have states : ∀ state ∈ states, rank state < 15 ∨ state = 12 ∧ rank state = 15 := by decide
  obtain ⟨complete, last⟩ := (states run.state h.linked.top_mem).resolve_left (by omega)
  obtain ⟨state, read, mode⟩ := h.holds.reads.current
  have stop : (run.current (setting text limit old)).token.symbol = endSymbol := by
    by_cases more : (run.current (setting text limit old)).token.symbol = endSymbol
    · exact more
    · rw [read] at more
      have := @lookahead_inside text h.small run.position state more
      omega
  refine ⟨?_, stop⟩
  rw [setting_language, complete, stop, action?_eq]
  rfl

/-- In front of the last state there is a recovery left. -/
theorem Orderly.recoveries_lt (h : Orderly text limit old run) (enough : text.size + 15 ≤ limit)
    (early : rank run.state < 15) : run.recoveries < limit := by
  have budget := h.budget
  have inside := h.inside
  omega

/-- Where a state has one reduction only, it is made whatever the token. -/
theorem Orderly.reduces_in (h : Orderly text limit old run) (enough : text.size + 15 ≤ limit)
    {state : StateId} (here : run.state = state) (early : rank state < 15) {made : Symbol}
    {count : UInt8} (only : ∀ entry ∈ actions, entry.1.1 = state → entry.2 = .reduce made count)
    (default : language.defaultReduction? state = some (made, count)) (symbol : Symbol) :
    language.action? run.state symbol = some (.reduce made count) ∨
      run.recoveries < limit ∧ language.action? run.state symbol = none ∧
        language.defaultReduction? run.state = some (made, count) := by
  subst here
  rcases e : language.action? run.state symbol with - | action
  · exact .inr ⟨h.recoveries_lt enough early, rfl, default⟩
  · exact .inl (congrArg some (only _ (mem_actions e) rfl))

/-! ### Behind the slots -/

/-- Whether nothing but skipped text comes in front of the first NUL character. -/
structure SkipsToNul (rest : Text) : Prop where
  nul : '\x00' ∈ rest
  calm : ∀ c ∈ rest.takeWhile (· ≠ '\x00'), c ≠ '\n' ∧ c ≠ ' '

theorem skipsToNul_of_calm {calm : Text} (quiet : Calm calm) (more : Text) :
    SkipsToNul (calm ++ '\x00' :: more) where
  nul := by simp
  calm c m := by
    rw [List.takeWhile_append_of_pos fun c m => decide_eq_true (quiet c m).1,
      List.takeWhile_cons_of_neg (by simp), List.append_nil] at m
    exact (quiet c m).2

theorem SkipsToNul.of_append {front rest : Text} (h : SkipsToNul (front ++ rest))
    (plain : ∀ c ∈ front, c ≠ '\x00') : SkipsToNul rest where
  nul := (List.mem_append.mp h.nul).resolve_left fun m => plain _ m rfl
  calm c m := by
    refine h.calm c ?_
    rw [List.takeWhile_append_of_pos fun c m => decide_eq_true (plain c m)]
    exact List.mem_append_right _ m

/-- What a closed text begins with: a NUL character behind tabs, or a token
that is skipped. -/
theorem SkipsToNul.cases {rest : Text} (h : SkipsToNul rest) :
    (∃ tabs more, rest = tabs ++ '\x00' :: more ∧
        Scan.found? language { state := 1 } rest = some (eof, Text.size tabs, 1) ∧
        Scan.found? language { state := 0 } rest = some (eof, Text.size tabs, 1)) ∨
      ∃ symbol padding size more, Passes rest symbol padding size more ∧ SkipsToNul more := by
  rcases tail_cases rest with ⟨tabs, more, rfl, ht, found⟩ | ⟨tabs, c, more, rfl, ht, hc, -⟩ |
    ⟨ht, -⟩ | ⟨symbol, padding, size, more, passes⟩
  · refine .inl ⟨tabs, more, rfl, found, ?_⟩
    rcases found?_fallback (fun c m => isSpace_of_isTab (ht c m))
        (.inr ⟨'\x00', more, rfl, by decide⟩) with ⟨e, -⟩ | ⟨_, -, found⟩ | ⟨_, e, -⟩ |
      ⟨-, c, _, _, e, hc, -⟩ | ⟨c, _, e, solid, -⟩
    · cases e
    · exact found
    · cases e
    · obtain rfl := (List.cons.inj e).1
      rcases hc with ⟨e, -⟩ | ⟨e, -⟩ <;> cases e
    · exact absurd (List.cons.inj e).1.symm solid
  · have stray : c ∈ (c :: more).takeWhile (· ≠ '\x00') := by
      rw [List.takeWhile_cons_of_pos (by rcases hc with rfl | rfl <;> decide)]
      exact List.mem_cons_self
    have calm := (h.of_append fun c m => (calm_of_isTab (ht c m)).1).calm c stray
    exact absurd hc (by simp [calm])
  · exact absurd (ht _ h.nul) (by decide)
  · obtain ⟨taken, rfl, -, -, plain⟩ := passes.split
    exact .inr ⟨symbol, padding, size, more, passes, h.of_append fun c m => (plain c m).1⟩

theorem ReadUpTo.length {place : Option Slot} {stack : Stack} {rest : Text}
    (h : ReadUpTo text place stack rest) : stack.length = (path (stateAt place)).length := by
  induction h with
  | start => rfl
  | @fill slot _ _ _ _ _ _ _ ih =>
    rw [List.length_cons, ih]
    cases slot <;> rfl

theorem ReadUpTo.plain_extra {place : Option Slot} {stack : Stack} {rest : Text}
    (h : ReadUpTo text place stack rest) : ∀ entry ∈ stack, entry.subtree.marks.extra = false := by
  intro entry m
  obtain ⟨slot, padding, size, rfl⟩ := h.plain entry m
  rw [marks_leaf]
  exact decide_eq_false (slot_symbol_plain slot).2

/-- Nothing is wrong in the document of a header. -/
theorem ReadUpTo.firstRepair_document {place : Option Slot} {stack : Stack} {rest : Text}
    (h : ReadUpTo text place stack rest) : firstRepair? (documentOf stack) = none := by
  have inner : firstRepair? (innerOf stack) = none := by
    rw [innerOf, firstRepair?_bare, firstRepair?_node, if_neg (by decide), h.firstRepair]
  rw [documentOf, firstRepair?_bare, firstRepair?_node, if_neg (by decide),
    firstRepairAmong?_singleton, inner]

/-- A run that waits behind the slots for another one that has the document. -/
structure Waiting (text : Text) (warm cold : Run) (stack skipped : Stack) (rest : Text) : Prop where
  filled : ∃ more, ReadUpTo text none stack more
  behind : Behind text cold rest
  extra : ∀ entry ∈ skipped, entry.subtree.marks.extra = true
  split : cold.stack.bare = skipped.moved 9 ++ stack
  fine : firstRepairAmong? cold.stack.subtrees = none
  position : warm.position = cold.position
  inserted : warm.inserted = cold.inserted
  closed : SkipsToNul rest

/-- How far a parse with an old tree and one without are apart. -/
inductive Abreast (text : Text) (limit : Nat) (old : Option Subtree) (warm cold : Run) : Prop
  /-- They look alike. -/
  | alike (same : warm.Alike cold) (start : warm.state = 1 → cold = {})
  /-- The tokens of a header have been taken over. -/
  | inner {stack : Stack} {rest : Text} (waiting : Waiting text warm cold stack [] rest)
      (made : warm.stack.bare = [⟨14, innerOf stack⟩]) (unread : warm.lookahead = none)
  /-- The document is on the stack of one parse only. -/
  | ahead {stack skipped : Stack} {rest : Text} (waiting : Waiting text warm cold stack skipped rest)
      (made : warm.stack.bare = skipped.moved 13 ++ [⟨13, documentOf stack⟩])
      (read : (warm.current (setting text limit old)).token.bare =
        (language.lookahead rest 0 13).token.bare)

/-! ### Steps -/

/-- A step on the current token does not ask for the old tree. -/
theorem turn_old (text : Text) (limit : Nat) (old : Option Subtree) (run : Run) :
    run.turn (setting text limit old) = run.turn (setting text limit none) := rfl

theorem Orderly.state_ne_start (h : Orderly text limit old run) (moved : 0 < progress run) :
    run.state ≠ 1 := by
  intro start
  have width := h.holds.width
  rw [h.linked.eq_nil start] at width
  rw [progress, start, ← width] at moved
  exact absurd moved (by decide)

theorem Waiting.state {stack skipped : Stack}
    (made : warm.stack.bare = skipped.moved 13 ++ [⟨13, documentOf stack⟩]) : warm.state = 13 := by
  rw [← Run.bare_state, Run.state, Run.bare_stack, made]
  exact Stack.top_moved ⟨13, documentOf stack⟩ []

/-- The row of a header and what is made of it are plain. -/
theorem Waiting.hasConsumedRecovery {stack skipped : Stack} {rest : Text}
    (waiting : Waiting text warm cold stack skipped rest)
    (made : warm.stack.bare = skipped.moved 13 ++ [⟨13, documentOf stack⟩]) :
    warm.stack.hasConsumedRecovery = false := by
  obtain ⟨more, filled⟩ := waiting.filled
  apply Stack.hasConsumedRecovery_of_firstRepairAmong?
  have fine := waiting.fine
  rw [← firstRepairAmong?_bare, waiting.split, Stack.subtrees_append, Stack.subtrees_moved,
    firstRepairAmong?_append, filled.firstRepair, Option.none_or] at fine
  rw [← firstRepairAmong?_bare, made, Stack.subtrees_append, Stack.subtrees_moved,
    firstRepairAmong?_append, fine, Option.or_none, Stack.subtrees_cons, Stack.subtrees_nil,
    List.nil_append, firstRepairAmong?_singleton, filled.firstRepair_document]

/-- **The parse that waits catches up at the NUL character.** -/
theorem Waiting.closes {stack skipped : Stack} {rest : Text} (h : Orderly text limit none cold)
    (waiting : Waiting text warm cold stack skipped rest) {padding : Nat}
    (found : Scan.found? language { state := 1 } rest = some (eof, padding, 1)) :
    ∃ last, Run.Steps (setting text limit none) cold last ∧
      last.stack.bare = ⟨15, leaf eof padding 1⟩ :: (skipped.moved 13 ++ [⟨13, documentOf stack⟩]) ∧
      last.position = cold.position + (padding + 1) ∧ last.lookahead = none ∧
      last.inserted = cold.inserted := by
  obtain ⟨more, filled⟩ := waiting.filled
  have behind := waiting.behind
  obtain ⟨la, current⟩ : ∃ la, cold.current (setting text limit none) = la := ⟨_, rfl⟩
  have token := current ▸ behind.token limit none h.small found
  obtain ⟨first, second, reached, reduced, reduced', position, inserted⟩ :=
    h.steps_close behind.state current (by rw [← bare_symbol, token, leaf_symbol])
  have extra (target : StateId) : ∀ entry ∈ skipped.moved target,
      entry.subtree.marks.extra = true := by
    intro entry m
    obtain ⟨other, here, rfl⟩ := List.mem_map.mp m
    exact waiting.extra other here
  have moved (s t : StateId) : (skipped.moved s).moved t = skipped.moved t := by
    simp [Stack.moved, Function.comp_def]
  have inner := Stack.bare_reduce?_all reduced waiting.split (extra 9) filled.plain_extra
    filled.length (goto?_of_mem_edges (show (1, documentInner, 14) ∈ edges by decide) (by decide))
  rw [moved] at inner
  have whole := Stack.bare_reduce?_all reduced' inner (extra 14)
    (by simp [marks_node, symbolMarks]) rfl
    (goto?_of_mem_edges (show (1, document, 13) ∈ edges by decide) (by decide))
  rw [moved] at whole
  refine ⟨_, reached, ?_, ?_, rfl, inserted⟩
  · simp only [Run.push, Stack.bare_cons, Entry.bare, token, whole]
    rfl
  · simp only [Run.push, position, ← bare_totalSize la.token, token, leaf_totalSize]

/-- What the parse that waits skips lies on top of its slots. -/
theorem Waiting.skip {stack skipped : Stack} {rest : Text}
    (waiting : Waiting text warm cold stack skipped rest) {token : Subtree} {symbol : Symbol}
    {padding size : Nat} (alike : token.bare = leaf symbol padding size) :
    (cold.stack.skip language token).bare =
      (skipped.skip language (leaf symbol padding size)).bare.moved 9 ++ stack := by
  obtain ⟨left, filled⟩ := waiting.filled
  obtain ⟨entry, below, e, state⟩ : ∃ entry below, stack = entry :: below ∧ entry.state = 9 := by
    have top := filled.top
    cases stack with
    | nil => exact absurd top (by decide)
    | cons entry below => exact ⟨entry, below, rfl, top⟩
  have plain := filled.plain_extra entry (by simp [e])
  rw [← Stack.skip_bare, waiting.split, alike, e, ← state,
    Stack.bare_skip_moved waiting.extra plain, Stack.bare_moved, ← e, filled.bare]

/-- What the parse with the document skips lies on top of the document. -/
theorem Waiting.skip_made {stack skipped : Stack} {rest : Text}
    (waiting : Waiting text warm cold stack skipped rest)
    (made : warm.stack.bare = skipped.moved 13 ++ [⟨13, documentOf stack⟩]) {token : Subtree}
    {symbol : Symbol} {padding size : Nat} (alike : token.bare = leaf symbol padding size) :
    (warm.stack.skip language token).bare =
      (skipped.skip language (leaf symbol padding size)).bare.moved 13 ++
        [⟨13, documentOf stack⟩] := by
  have row := @Stack.bare_skip_moved language skipped [] ⟨13, documentOf stack⟩ waiting.extra
    (by simp [documentOf, marks_node, symbolMarks]) (leaf symbol padding size)
  rw [← Stack.skip_bare, made, alike, row, Stack.bare_moved]
  simp [Entry.bare, documentOf]

/-- Both parses skip the same tokens. -/
theorem Waiting.passes {stack skipped : Stack} {rest : Text} (h : Orderly text limit none cold)
    (enough : text.size + 15 ≤ limit) (hw : Orderly text limit old warm)
    (waiting : Waiting text warm cold stack skipped rest)
    (made : warm.stack.bare = skipped.moved 13 ++ [⟨13, documentOf stack⟩])
    (read : (warm.current (setting text limit old)).token.bare =
      (language.lookahead rest 0 13).token.bare) {symbol : Symbol} {padding size : Nat} {more : Text}
    (passes : Passes rest symbol padding size more) (closed : SkipsToNul more)
    (same : (warm.turn (setting text limit old)).bare = .running next.bare) :
    ∃ last, Run.Steps (setting text limit none) cold last ∧ Abreast text limit old next last := by
  have thirteen := Waiting.state made
  have nine : cold.state = 9 := waiting.behind.state
  -- the parse that waits
  obtain ⟨running, tokenCold, behind, fine⟩ := waiting.behind.turn_passes h waiting.fine passes
    (h.recoveries_lt enough (by rw [nine]; decide)) rfl
  generalize (cold.current (setting text limit none)).token = token at running tokenCold behind fine
  -- the parse that has the document
  have small := waiting.behind.small_rest h.small
  have tokenWarm := read.trans (passes.lookahead small (.inl (by decide)))
  have skips := turn_skips passes.useless (.inr thirteen) tokenWarm
    (waiting.hasConsumedRecovery made) (hw.recoveries_lt enough (by rw [thirteen]; decide))
  rw [skips] at same
  generalize (warm.current (setting text limit old)).token = other at same tokenWarm
  have look := Progress.running.inj same
  have position : next.position = (skipping cold token).position := by
    rw [← Run.bare_position next, ← look]
    show warm.position + other.totalSize = cold.position + token.totalSize
    rw [waiting.position, ← bare_totalSize other, tokenWarm, ← bare_totalSize token, tokenCold]
  have unread : next.lookahead = none := by
    have := congrArg Run.lookahead look
    simpa [skipping] using this.symm
  have warmStack : next.stack.bare =
      (skipped.skip language (leaf symbol padding size)).bare.moved 13 ++
        [⟨13, documentOf stack⟩] := by
    rw [← Run.bare_stack next, ← look]
    exact waiting.skip_made made tokenWarm
  refine ⟨_, .head ((step_fresh ..).trans running) .refl,
    .ahead ⟨waiting.filled, behind, ?_, waiting.skip tokenCold, fine, position, ?_, closed⟩
      warmStack ?_⟩
  · intro other m
    obtain ⟨entry, here, rfl⟩ := List.mem_map.mp m
    rw [Entry.bare_subtree, bare_marks]
    refine Stack.extra_skip waiting.extra (fun error => ?_) entry here
    exact decide_eq_true (isErrorToken_iff.mp error).1
  · rw [← Run.bare_inserted next, ← look]
    exact waiting.inserted
  · have drop := behind.drop
    rw [← position] at drop
    rw [current_of_none unread drop, ← Run.bare_state, Run.state, Run.bare_stack, warmStack]
    exact congrArg (fun state => (language.lookahead more 0 state).token.bare)
      (Stack.top_moved ⟨13, documentOf stack⟩ [])

/-- A parse that has leapt over a header goes on beside one that reads it. -/
theorem Leap.abreast (small : text.size < UInt32.size) (leap : Leap text warm next)
    (inserted : warm.inserted = []) :
    ∃ last, Run.Steps (setting text limit none) {} last ∧ Abreast text limit old next last := by
  obtain ⟨stack, calm, more, filled, quiet, position, made⟩ := leap.header
  obtain ⟨last, reached, here⟩ := filled.steps small limit
  have width : next.position = last.position := by
    have orderly : Orderly text limit none last := (orderly_start small).of_steps reached
    rw [position, ← orderly.holds.width, ← here.stack_bare, Stack.subtrees_bare,
      totalSizes_map_bare]
  have waiting : Waiting text next last stack [] (calm ++ '\x00' :: more) := {
    filled := ⟨_, filled⟩
    behind := here.behind
    extra := by simp
    split := here.stack_bare
    fine := here.resting.fine
    position := width
    inserted := by
      rw [leap.inserted, inserted]
      exact (congrArg Run.inserted here.bare).symm
    closed := skipsToNul_of_calm quiet more }
  rcases made with inner | whole
  · exact ⟨last, reached, .inner waiting inner leap.unread⟩
  · refine ⟨last, reached, .ahead waiting whole ?_⟩
    rw [current_of_none leap.unread (width ▸ here.drop), ← Run.bare_state, Run.state,
      Run.bare_stack, whole]
    rfl

/-- The tokens of a header become a document, whatever comes behind them. -/
theorem Orderly.turn_inner (h : Orderly text limit old warm) (enough : text.size + 15 ≤ limit)
    {stack : Stack} (made : warm.stack.bare = [⟨14, innerOf stack⟩]) :
    warm.state = 14 ∧ ∃ next, warm.turn (setting text limit old) = .running next ∧
      next.stack.bare = [⟨13, documentOf stack⟩] ∧
      next.lookahead = some (warm.current (setting text limit old)) ∧
      next.position = warm.position ∧ next.inserted = warm.inserted ∧ next.state = 13 := by
  have fourteen : warm.state = 14 := by
    rw [← Run.bare_state, Run.state, Run.bare_stack, made]
    rfl
  obtain ⟨la, current⟩ : ∃ la, warm.current (setting text limit old) = la := ⟨_, rfl⟩
  obtain ⟨next, running, reduced, thirteen, kept, position, inserted⟩ := h.turn_makes
    current document 1 13
    (h.reduces_in enough fourteen (by decide) (by decide) (by decide) la.token.symbol)
    (by rw [fourteen]; exact goto?_of_mem_edges (by decide) (by decide))
  have whole := @Stack.bare_reduce?_all _ [] _ _ _ _ _ _ _ reduced made (by simp)
    (by simp [innerOf, marks_node, symbolMarks]) rfl
    (goto?_of_mem_edges (show (1, document, 13) ∈ edges by decide) (by decide))
  exact ⟨fourteen, next, running, whole, current ▸ kept, position, inserted, thirteen⟩

/-- The tokens that were taken over become the document while the other parse
waits. -/
theorem Waiting.documents (h : Orderly text limit old warm) (enough : text.size + 15 ≤ limit)
    {stack : Stack} {rest : Text} (waiting : Waiting text warm cold stack [] rest)
    (made : warm.stack.bare = [⟨14, innerOf stack⟩]) (unread : warm.lookahead = none)
    (look : (warm.turn (setting text limit old)).bare = .running next.bare) :
    Abreast text limit old next cold := by
  obtain ⟨fourteen, other, moved, whole, kept, position, inserted, thirteen⟩ :=
    h.turn_inner enough made
  rw [moved] at look
  replace look := Run.alike_of_bare (Progress.running.inj look).symm
  -- the token that was read behind the tokens is kept behind the document
  have drop := waiting.behind.drop
  rw [← waiting.position] at drop
  obtain ⟨held, e, same⟩ : ∃ held, next.lookahead = some held ∧
      held.bare = (warm.current (setting text limit old)).bare := by
    have := look.lookahead
    rw [kept, Option.map_some] at this
    exact Option.map_eq_some_iff.mp this
  have modes : language.lexMode 14 = language.lexMode 13 := by decide
  have read : warm.current (setting text limit old) = language.lookahead rest 0 14 := by
    rw [current_of_none unread drop, fourteen]
  have mode : held.mode = language.lexMode next.state := by
    have same : held.mode = (warm.current (setting text limit old)).mode :=
      congrArg (·.mode) same
    rw [same, look.state, thirteen, read]
    exact modes
  refine @Abreast.ahead _ _ _ _ _ stack [] rest { waiting with
    position := look.position.trans (position.trans waiting.position)
    inserted := look.inserted.trans (inserted.trans waiting.inserted) } ?_ ?_
  · exact look.stack.trans whole
  · have same : held.token.bare = (warm.current (setting text limit old)).token.bare :=
      congrArg (·.token) same
    rw [current_of_mode e mode, same, read]
    exact congrArg (·.token) (Language.lookahead_congr modes rest 0)

/-- Behind the NUL character both parses look alike again. -/
theorem Waiting.meets (h : Orderly text limit none cold) {stack skipped : Stack} {rest : Text}
    (waiting : Waiting text warm cold stack skipped rest)
    (made : warm.stack.bare = skipped.moved 13 ++ [⟨13, documentOf stack⟩])
    (read : (warm.current (setting text limit old)).token.bare =
      (language.lookahead rest 0 13).token.bare) {padding : Nat}
    (found : Scan.found? language { state := 1 } rest = some (eof, padding, 1))
    (fallback : Scan.found? language { state := 0 } rest = some (eof, padding, 1))
    (look : (warm.turn (setting text limit old)).bare = .running next.bare) :
    ∃ last, Run.Steps (setting text limit none) cold last ∧ next.Alike last := by
  have thirteen := Waiting.state made
  obtain ⟨last, reached, stack, position, unread, inserted⟩ := waiting.closes h found
  have token := read.trans (lookahead_of_found? (waiting.behind.small_rest h.small)
    (by rw [show language.lexMode 13 = 0 by decide]; exact fallback))
  rw [turn_shift token 15 (by rw [thirteen, leaf_symbol, action?_eq]; rfl)] at look
  replace look := Progress.running.inj look
  have grown : ⟨15, _⟩ :: warm.stack.bare = next.stack.bare := congrArg Run.stack look
  have positions : warm.position + _ = next.position := congrArg Run.position look
  have unreads : none = next.lookahead.map (·.bare) := congrArg Run.lookahead look
  have insertions : warm.inserted = next.inserted := (congrArg Run.inserted look :)
  refine ⟨last, reached, ?_, ?_, ?_, ?_⟩
  · rw [← grown, made, stack]
  · rw [← positions, waiting.position, position, leaf_totalSize]
  · rw [← unreads, unread]
    rfl
  · rw [← insertions, waiting.inserted, inserted]

/-- **A step with the old tree is matched by steps without it.** -/
theorem Abreast.step (hw : Growing text limit old warm) (hc : Orderly text limit none cold)
    (enough : text.size + 15 ≤ limit) (usable : Usable text old)
    (abreast : Abreast text limit old warm cold)
    (running : warm.step (setting text limit old) = .running next) :
    ∃ last, Run.Steps (setting text limit none) cold last ∧ Abreast text limit old next last := by
  obtain ⟨growing, further, how⟩ := hw.step enough usable running
  have later : next.state ≠ 1 := growing.orderly.state_ne_start (by omega)
  -- past the start a step is one on the current token
  have turn (started : warm.state ≠ 1) :
      (warm.turn (setting text limit old)).bare = .running next.bare :=
    how.resolve_right fun leap => started leap.start
  cases abreast with
  | alike same start =>
    rcases how with look | leap
    · have look : (Progress.running next).Alike (warm.turn (setting text limit none)) :=
        (Progress.alike_of_bare look).symm
      have both := look.trans (same.turn (hw.orderly.free enough) (hc.free enough))
      generalize e : cold.turn (setting text limit none) = progress at both
      cases both with
      | running alike =>
        exact ⟨_, .head ((step_fresh ..).trans e) .refl, .alike alike (absurd · later)⟩
    · obtain rfl := start leap.start
      exact leap.abreast hc.small same.inserted
  | inner waiting made unread =>
    have fourteen := (hw.orderly.turn_inner enough made).1
    have look := turn (by rw [fourteen]; decide)
    exact ⟨cold, .refl, waiting.documents hw.orderly enough made unread look⟩
  | ahead waiting made read =>
    have look := turn (by rw [Waiting.state made]; decide)
    rcases waiting.closed.cases with ⟨tabs, more, -, found, fallback⟩ |
      ⟨symbol, padding, size, more, passes, closed⟩
    · obtain ⟨last, reached, alike⟩ := waiting.meets hc made read found fallback look
      exact ⟨last, reached, .alike alike (absurd · later)⟩
    · exact waiting.passes hc enough hw.orderly made read passes closed look

/-- **Where the parse with the old tree ends, the one without ends alike.** -/
theorem Abreast.finished (hw : Growing text limit old warm) (hc : Orderly text limit none cold)
    (enough : text.size + 15 ≤ limit) (abreast : Abreast text limit old warm cold)
    {root : Subtree} {reused : Nat}
    (finished : warm.step (setting text limit old) = .finished root reused) :
    ∃ other count, cold.step (setting text limit none) = .finished other count ∧
      root.bare = other.bare := by
  have done := Run.turn_of_finished finished
  cases abreast with
  | alike same =>
    have both : (warm.turn (setting text limit none)).Alike (cold.turn (setting text limit none)) :=
      same.turn (hw.orderly.free enough) (hc.free enough)
    rw [← turn_old text limit old warm, done] at both
    rw [step_fresh]
    generalize cold.turn (setting text limit none) = progress at both
    cases both with
    | finished look => exact ⟨_, _, rfl, look⟩
  | inner waiting made =>
    obtain ⟨-, next, running, -⟩ := hw.orderly.turn_inner enough made
    rw [done] at running
    cases running
  | ahead waiting made read =>
    have thirteen := Waiting.state made
    rcases waiting.closed.cases with ⟨tabs, more, -, -, found⟩ |
      ⟨symbol, padding, size, more, passes, -⟩
    · have small := waiting.behind.small_rest hc.small
      have shifted := turn_shift (read.trans (lookahead_of_found? small (by exact found))) 15
        (by rw [thirteen, leaf_symbol, action?_eq]; rfl)
      rw [done] at shifted
      cases shifted
    · have small := waiting.behind.small_rest hc.small
      have skips := turn_skips passes.useless (.inr thirteen)
        (read.trans (passes.lookahead small (.inl (by decide)))) (waiting.hasConsumedRecovery made)
        (hw.orderly.recoveries_lt enough (by rw [thirteen]; decide))
      rw [done] at skips
      cases skips

/-! ### Whole parses -/

/-- **Both parses come to roots that look alike**, and all below the root of the
one with the old tree belongs to the text. -/
theorem Abreast.ends {root : Subtree} {steps : Nat}
    (ends : Run.Ends (setting text limit old) root steps warm)
    (hw : Growing text limit old warm) (hc : Orderly text limit none cold)
    (enough : text.size + 15 ≤ limit) (usable : Usable text old)
    (abreast : Abreast text limit old warm cold) :
    (∃ last other count, Run.Steps (setting text limit none) cold last ∧
      last.step (setting text limit none) = .finished other count ∧ root.bare = other.bare) ∧
    EverywhereAmong (FreshAt text) 0 root.children ∧ Throughout (Intact language) root := by
  induction ends generalizing cold with
  | now finished =>
    obtain ⟨other, count, done, look⟩ := abreast.finished hw hc enough finished
    have turned := Run.turn_of_finished finished
    exact ⟨⟨cold, other, count, .refl, done, look⟩, hw.finished turned,
      hw.orderly.intact_finished turned⟩
  | later running rest ih =>
    obtain ⟨last, reached, beside⟩ := abreast.step hw hc enough usable running
    obtain ⟨⟨final, other, count, further, done, look⟩, below⟩ :=
      ih (hw.step enough usable running).1 (hc.of_steps reached) beside
    exact ⟨⟨final, other, count, reached.trans further, done, look⟩, below⟩

/-- **A parse comes to the root of a fresh one**, if the old tree is usable and
there are as many recoveries as bytes and states. -/
theorem parse_alike (small : text.size < UInt32.size) (enough : text.size + 15 ≤ limit)
    (usable : Usable text old) :
    (setting text limit old).parse.1.bare = (setting text limit none).parse.1.bare ∧
      EverywhereAmong (FreshAt text) 0 (setting text limit old).parse.1.children ∧
      Throughout (Intact language) (setting text limit old).parse.1 := by
  have room : text.size + 16 ≤ stepLimit := by
    simp only [stepLimit, UInt32.size] at small ⊢
    omega
  have start : LinkedRun text limit old {} := linkedRun_start
  obtain ⟨root, ends⟩ := start.exists_ends small usable.known (text.size + 16)
    (by simp only [left]; omega)
  rw [ends.parse room]
  obtain ⟨⟨last, other, count, reached, done, look⟩, below⟩ := Abreast.ends ends
    (growing_start small) (orderly_start small) enough usable
    (.alike (Run.alike_of_bare rfl) fun _ => rfl)
  obtain ⟨steps, fresh⟩ := exists_ends_parse small limit
  obtain ⟨fewer, fresh⟩ := fresh.of_steps reached
  rw [step_fresh] at done
  rw [eq_of_finished fresh done]
  exact ⟨look, below⟩

end Header

end Reparse
