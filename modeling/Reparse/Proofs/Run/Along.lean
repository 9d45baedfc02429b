/-
Reparse/Proofs/Run/Along.lean

Stacks that were put on along the edges of a graph.

The states of a parse table and the symbols that lead from one to another are
a graph.  `Along` says of a stack that each of its entries was put on along an
edge, or is an extra that stays in its state.  A step of a parse keeps that, if
the shifts, error productions and reductions of the table are in the graph:
`Along.turn` and `Along.reuse`.
-/
import Reparse.Proofs.Run.OnStack

namespace Reparse

open Subtree

namespace Stack

/-- A stack put on along edges, with extras in some states only. -/
def Along (leads : StateId → Symbol → StateId → Prop) (rests : StateId → Prop) : Stack → Prop
  | [] => True
  | entry :: below =>
    (if entry.subtree.marks.extra then entry.state = Stack.top below ∧ rests entry.state
      else leads (Stack.top below) entry.subtree.symbol entry.state) ∧ Along leads rests below

variable {leads : StateId → Symbol → StateId → Prop} {rests : StateId → Prop}

theorem along_extra {entry : Entry} {below : Stack} (h : entry.subtree.marks.extra = true) :
    Along leads rests (entry :: below) ↔
      (entry.state = Stack.top below ∧ rests entry.state) ∧ Along leads rests below := by
  simp [Along, h]

theorem along_cons {entry : Entry} {below : Stack} (h : entry.subtree.marks.extra = false) :
    Along leads rests (entry :: below) ↔
      leads (Stack.top below) entry.subtree.symbol entry.state ∧ Along leads rests below := by
  simp [Along, h]

theorem Along.suffix {stack below : Stack} (h : Along leads rests stack) (hs : below <:+ stack) :
    Along leads rests below := by
  induction stack with
  | nil => rwa [List.suffix_nil.mp hs]
  | cons entry stack ih =>
    rcases List.suffix_cons_iff.mp hs with rfl | hs
    · exact h
    · exact ih h.2 hs

/-- The extras on top stand in the state below them. -/
theorem Along.top_belowExtras {stack : Stack} (h : Along leads rests stack) :
    stack.belowExtras.top = stack.top := by
  induction stack with
  | nil => rfl
  | cons entry below ih =>
    rcases e : entry.subtree.marks.extra with - | -
    · simp [belowExtras, e]
    · obtain ⟨⟨same, -⟩, hb⟩ := (along_extra e).mp h
      simpa [belowExtras, e, Stack.top, same] using ih hb

theorem Along.extras {stack : Stack} (h : Along leads rests stack) :
    stack.extras = [] ∨ rests stack.top := by
  cases stack with
  | nil => exact .inl rfl
  | cons entry below =>
    rcases e : entry.subtree.marks.extra with - | -
    · exact .inl (by simp [Stack.extras, e])
    · exact .inr ((along_extra e).mp h).1.2

/-- Extras may stand in front of any state that they may rest in. -/
theorem along_moved {extras : Stack} (below : Stack) {target : StateId}
    (extra : ∀ entry ∈ extras, entry.subtree.marks.extra = true)
    (rest : extras = [] ∨ rests target) (top : below.top = target)
    (h : Along leads rests below) :
    Along leads rests (extras.moved target ++ below) ∧
      (extras.moved target ++ below).top = target := by
  induction extras with
  | nil => exact ⟨h, top⟩
  | cons entry extras ih =>
    have hr : rests target := rest.resolve_left (by simp)
    obtain ⟨hl, ht⟩ := ih (fun e he => extra e (by simp [he])) (.inr hr)
    have first : (⟨target, entry.subtree⟩ : Entry).subtree.marks.extra = true :=
      extra entry (by simp)
    exact ⟨(along_extra first).mpr ⟨⟨ht.symm, hr⟩, hl⟩, rfl⟩

/-- A reduction goes along the edge of the symbol that it makes. -/
theorem Along.reduce? {language : Language} {stack reduced : Stack} {made : Symbol}
    {count : UInt8} {token : Subtree} (h : Along leads rests stack)
    (hr : stack.reduce? language made count token = some reduced)
    (edge : ∀ children rest, takeOff count.toNat stack.belowExtras [] = (children, rest) →
      ∀ target, language.goto? (Stack.top rest) made = some target →
        leads (Stack.top rest) made target ∧ (rests stack.top → rests target)) :
    Along leads rests reduced ∧
      language.goto? (Stack.top (takeOff count.toNat stack.belowExtras []).2) made =
        some reduced.top := by
  obtain ⟨children, rest, target, taken, goto, rfl⟩ := reduce?_eq_some_iff.mp hr
  obtain ⟨edge, keeps⟩ := edge children rest taken target goto
  have below : rest <:+ stack := by
    have := takeOff_suffix count.toNat stack.belowExtras []
    rw [taken] at this
    exact this.trans (List.dropWhile_suffix _)
  have plain : ((node language made children (Stack.top rest)).needing
      (stack.needed token)).marks.extra = false := by
    simp [marks_node, symbolMarks]
  have moved := along_moved
    (⟨target, (node language made children (Stack.top rest)).needing
      (stack.needed token)⟩ :: rest)
    (fun entry (he : entry ∈ stack.extras) => extra_of_mem_extras he)
    (h.extras.imp id keeps) rfl
    ((along_cons plain).mpr ⟨by simpa using edge, h.suffix below⟩)
  refine ⟨moved.1, ?_⟩
  rw [moved.2, taken]
  exact goto

theorem extra_mergeErrors (language : Language) {previous : Subtree}
    (h : previous.marks.extra = true) (token : Subtree) (state : StateId) :
    (mergeErrors language previous token state).marks.extra = true := by
  simp only [mergeErrors]
  split
  · exact h
  · rfl

/-- Skipped input is an extra in the state where it is skipped. -/
theorem Along.skip {stack : Stack} (h : Along leads rests stack) (language : Language)
    (token : Subtree) (extra : token.isErrorToken = true → token.marks.extra = true)
    (rest : rests stack.top) :
    Along leads rests (stack.skip language token) ∧
      (stack.skip language token).top = stack.top := by
  have alone : (if token.isErrorToken then token
      else errorNode language [token] stack.top).marks.extra = true := by
    split
    · exact extra ‹_›
    · rfl
  cases stack with
  | nil => exact ⟨(along_extra alone).mpr ⟨⟨rfl, rest⟩, trivial⟩, rfl⟩
  | cons entry below =>
    simp only [Stack.skip]
    split
    · rename_i joins
      simp only [Bool.and_eq_true, decide_eq_true_eq] at joins
      obtain ⟨⟨same, -⟩, hb⟩ := (along_extra joins.2).mp h
      have merged := extra_mergeErrors language joins.2 token (Stack.top (entry :: below))
      exact ⟨(along_extra merged).mpr ⟨⟨same, rest⟩, hb⟩, rfl⟩
    · exact ⟨(along_extra alone).mpr ⟨⟨rfl, rest⟩, h⟩, rfl⟩

end Stack

namespace Run

variable {setting : Setting} {run : Run}

theorem extra_lookahead (language : Language) (text : Text) (position : Nat) (state : StateId) :
    (language.lookahead text position state).token.marks.extra =
      decide ((language.lookahead text position state).token.symbol = errorSymbol) := by
  obtain ⟨symbol, padding, size, lookahead, h⟩ := lookahead_token language text position state
  rw [h]
  rfl

/-- A step on the current token goes along an edge, reduces the stack or skips the
token in the state where the run is. -/
inductive StepsAlong (leads : StateId → Symbol → StateId → Prop) (setting : Setting)
    (run next : Run) : Prop
  | edge {symbol : Symbol} (edge : leads run.state symbol next.state) :
      StepsAlong leads setting run next
  | reduced {made : Symbol} {count : UInt8}
      (reduces : setting.language.action? run.state (run.current setting).token.symbol =
          some (.reduce made count) ∨
        setting.language.defaultReduction? run.state = some (made, count))
      (reduced : run.stack.reduce? setting.language made count (run.current setting).token =
        some next.stack) : StepsAlong leads setting run next
  | skipped (same : next.state = run.state)
      (more : (run.current setting).token.symbol ≠ endSymbol)
      (position : next.position = run.position + (run.current setting).token.totalSize) :
      StepsAlong leads setting run next

/-! ### Reuse -/

/-- A subtree that is reused starts at the position of the run, and fits. -/
theorem reusable?_eq_some {subtree : Subtree} {target : StateId}
    (h : run.reusable? setting = some (subtree, target)) :
    ∃ root, setting.old = some root ∧ subtree ∈ root.startingAt run.position 0 ∧
      fits setting.language run.state subtree = true ∧
      reuseTarget? setting.language run.state subtree.symbol = some target := by
  obtain ⟨root, old, found⟩ := Option.bind_eq_some_iff.mp h
  obtain ⟨candidate, m, e⟩ := List.exists_of_findSome?_eq_some found
  split at e
  · obtain ⟨there, e, same⟩ := Option.map_eq_some_iff.mp e
    cases same
    exact ⟨root, old, m, ‹_›, e⟩
  · cases e

theorem not_extra_of_fits {language : Language} {state : StateId} {candidate : Subtree}
    (h : fits language state candidate = true) :
    candidate.marks.extra = false ∧ candidate.totalSize ≠ 0 ∧ candidate.symbol ≠ errorSymbol := by
  simp only [fits] at h
  split at h
  · cases h
  · rename_i fine
    simp only [Bool.or_eq_true, decide_eq_true_eq, not_or, Bool.not_eq_true] at fine
    exact ⟨fine.1.1.1.2, fine.1.2, fine.2⟩

theorem reuseTarget?_eq_some {language : Language} {state target : StateId} {symbol : Symbol}
    (h : reuseTarget? language state symbol = some target) :
    language.action? state symbol = some (.shift target) ∨
      language.goto? state symbol = some target := by
  simp only [reuseTarget?] at h
  split at h
  · split at h
    · rename_i found
      cases h
      exact .inl found
    · cases h
  · exact .inr h

/-- A step reuses a subtree or is one on the current token. -/
theorem step_cases (setting : Setting) (run : Run) :
    (∃ subtree target, run.lookahead = none ∧ run.reusable? setting = some (subtree, target) ∧
      run.step setting =
        .running { run.push target subtree with reused := run.reused + 1 }) ∨
      run.step setting = run.turn setting := by
  rcases e : run.lookahead with - | lookahead
  · rcases found : run.reusable? setting with - | ⟨subtree, target⟩
    · exact .inr (step_eq_turn fun _ => found)
    · exact .inl ⟨subtree, target, rfl, rfl, by simp [step, move, e, found, make]⟩
  · exact .inr (step_eq_turn fun none => by rw [e] at none; cases none)

/-- A step that goes on takes over a subtree or is one on the current token. -/
theorem running_cases {next : Run} (running : run.step setting = .running next) :
    (∃ subtree target, run.lookahead = none ∧ run.reusable? setting = some (subtree, target) ∧
      next = { run.push target subtree with reused := run.reused + 1 }) ∨
      run.turn setting = .running next := by
  rcases step_cases setting run with ⟨subtree, target, unread, found, taken⟩ | turn
  · exact .inl ⟨subtree, target, unread, found, Progress.running.inj (running.symm.trans taken)⟩
  · exact .inr (turn.symm.trans running)

/-- A parse never ends with a subtree that it takes over. -/
theorem turn_of_finished {root : Subtree} {reused : Nat}
    (finished : run.step setting = .finished root reused) :
    run.turn setting = .finished root reused := by
  rcases step_cases setting run with ⟨subtree, target, -, -, taken⟩ | turn
  · rw [taken] at finished
    cases finished
  · exact turn.symm.trans finished

/-- The last step accepts the current token, or gives up on it. -/
theorem root_of_finished {root : Subtree} {reused : Nat}
    (finished : run.step setting = .finished root reused) :
    root = run.accept setting (run.current setting).token ∨
      root = run.giveUp setting (run.current setting).token :=
  (root_of_turn (turn_of_finished finished)).imp_left fun accepted => accepted.2.2

end Run

/-! ### Along a step -/

section Steps

open Run

variable {setting : Setting} {run : Run} {leads : StateId → Symbol → StateId → Prop}
  {rests : StateId → Prop}

/-- **A step on the current token** goes along an edge, if reductions do.  Where
it skips input, extras have to rest. -/
theorem Stack.Along.turn (h : Stack.Along leads rests run.stack) (reads : run.Reads setting)
    (shifts : ∀ {symbol target}, setting.language.action? run.state symbol = some (.shift target) →
      symbol ≠ errorSymbol ∧ leads run.state symbol target)
    (repairs : ∀ {symbol target}, (symbol, target) ∈ setting.language.repairs run.state →
      leads run.state symbol target)
    (reduces : ∀ {made count stack},
      (setting.language.action? run.state (run.current setting).token.symbol =
          some (.reduce made count) ∨
        setting.language.defaultReduction? run.state = some (made, count)) →
      run.stack.reduce? setting.language made count (run.current setting).token = some stack →
      Stack.Along leads rests stack)
    (skips : run.defaultReduction? setting (run.current setting) = none →
      ((run.current setting).token.symbol = errorSymbol ∨
        setting.language.repairs run.state = []) → rests run.state)
    {next : Run} (running : run.turn setting = .running next) :
    Stack.Along leads rests next.stack ∧ StepsAlong leads setting run next := by
  obtain ⟨move, choice, running⟩ := exists_choice running
  obtain ⟨state, read, -⟩ := reads.current
  have extra := extra_lookahead setting.language setting.text run.position state
  rw [← read] at extra
  cases choice with
  | shift action =>
    cases running
    obtain ⟨proper, edge⟩ := shifts action
    exact ⟨(Stack.along_cons (by rw [extra, decide_eq_false proper])).mpr ⟨edge, h⟩, .edge edge⟩
  | reduce action reduced =>
    cases running
    exact ⟨reduces (.inl action) reduced, .reduced (.inl action) reduced⟩
  | accept => cases running
  | reduceByDefault _ default reduced =>
    cases running
    exact ⟨reduces (.inr default) reduced, .reduced (.inr default) reduced⟩
  | insert _ repair =>
    cases running
    exact ⟨(Stack.along_cons rfl).mpr ⟨repairs repair, h⟩, .edge (repairs repair)⟩
  | wrap _ repair =>
    cases running
    refine ⟨(Stack.along_cons ?_).mpr ⟨?_, h⟩, .edge (repairs repair)⟩
    · simp [marks_node, symbolMarks]
    · rw [symbol_node]
      exact repairs repair
  | skip _ default useless more =>
    -- what is skipped is an extra, and leaves the state as it is
    cases running
    obtain ⟨along, same⟩ := h.skip setting.language _
      (fun error => by rw [extra, decide_eq_true (isErrorToken_iff.mp error).1])
      (skips default useless)
    exact ⟨along, .skipped same more rfl⟩
  | giveUp => cases running

/-- A subtree is reused along an edge. -/
theorem Stack.Along.reuse (h : Stack.Along leads rests run.stack) {subtree : Subtree}
    {target : StateId} (found : run.reusable? setting = some (subtree, target))
    (edge : setting.language.action? run.state subtree.symbol = some (.shift target) ∨
      setting.language.goto? run.state subtree.symbol = some target →
      leads run.state subtree.symbol target) :
    Stack.Along leads rests (⟨target, subtree⟩ :: run.stack) := by
  obtain ⟨root, -, -, fits, leadsTo⟩ := reusable?_eq_some found
  exact (Stack.along_cons (not_extra_of_fits fits).1).mpr ⟨edge (reuseTarget?_eq_some leadsTo), h⟩

end Steps

end Reparse
