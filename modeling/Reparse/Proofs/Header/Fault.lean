/-
Reparse/Proofs/Header/Fault.lean

The first error production of a header parse.

Only the wrong token of a slot is ever wrapped into an error production by a
reduction, and there is nothing wrong below a token.  So a step leaves the
error productions on the stack in place and puts at most one more behind them
(`Added`); the first one is in the end the first one of the root.
-/
import Reparse.Proofs.Header.Path
import Reparse.Proofs.Run.Wrong

namespace Reparse.Header

open Subtree

variable {text : Text} {limit : Nat} {old : Option Subtree} {run : Run}

/-! ### The top of the stack -/

/-- The topmost entry that is no extra was put on along an edge. -/
theorem Linked.exists_core {stack : Stack} (h : Linked stack) (inside : path stack.top ≠ []) :
    ∃ entry rest, stack.belowExtras = entry :: rest ∧ entry.subtree.marks.extra = false ∧
      (Stack.top rest, entry.subtree.symbol, stack.top) ∈ edges := by
  obtain ⟨hb, ht, hi⟩ := h.belowExtras
  cases e : stack.belowExtras with
  | nil =>
    have states := h.inner_states
    rw [← hi, e] at states
    exact absurd states.symm inside
  | cons entry rest =>
    have plain := Stack.belowExtras_cons_not_extra e
    rw [e] at hb ht
    exact ⟨entry, rest, rfl, plain, by rw [← ht]; exact ((linked_cons plain).mp hb).1⟩

theorem Orderly.intact (h : Orderly text limit old run) :
    ∀ entry ∈ run.stack, Throughout (Intact language) entry.subtree := fun _ he =>
  let ⟨_, hs⟩ := h.holds.entry he
  everywhere_const.mp (hs.mono fun _ _ h => h.intact)

theorem Orderly.sturdy (h : Orderly text limit old run) {entry : Entry} (he : entry ∈ run.stack) :
    Sturdy entry.subtree :=
  let ⟨_, hs⟩ := h.holds.entry he
  (everywhere_iff.mp hs).1

/-- Only single tokens are wrapped into error productions. -/
theorem pending_of_reduction {state : StateId} {made : Symbol} {count : UInt8}
    (h : (state, made, count) ∈ reductions) (recovery : (symbolMarks language made).recovery = true) :
    count = 1 ∧ state ∉ resting ∧ path state ≠ [] ∧ ∀ source symbol, (source, symbol, state) ∈ edges →
      language.isTerminal symbol = true ∧ (symbolMarks language symbol).recovery = false := by
  have all : ∀ entry ∈ reductions, (symbolMarks language entry.2.1).recovery = true →
      entry.2.2 = 1 ∧ entry.1 ∉ resting ∧ path entry.1 ≠ [] ∧ ∀ edge ∈ edges, edge.2.2 = entry.1 →
        language.isTerminal edge.2.1 = true ∧ (symbolMarks language edge.2.1).recovery = false := by
    decide
  obtain ⟨one, stirs, inside, tokens⟩ := all _ h recovery
  exact ⟨one, stirs, inside, fun source symbol m => tokens _ m rfl⟩

/-! ### Steps -/

/-- What a step can put behind the error productions on the stack. -/
inductive Added (state : StateId) (token : Subtree) : Option Symbol → Prop
  | nothing : Added state token none
  | token : Added state token (firstRepair? token)
  | repair {symbol : Symbol} {target : StateId} (h : (symbol, target) ∈ language.repairs state) :
      Added state token (some symbol)
  | production {made : Symbol} {count : UInt8} (h : (state, made, count) ∈ reductions)
      (recovery : (symbolMarks language made).recovery = true) : Added state token (some made)

theorem added_reduce? (h : Orderly text limit old run) {made : Symbol} {count : UInt8}
    (reduces : (run.state, made, count) ∈ reductions) {token : Subtree} {stack : Stack}
    (reduced : run.stack.reduce? language made count token = some stack) :
    ∃ added, Added run.state token added ∧ firstRepairAmong? stack.subtrees =
      (firstRepairAmong? run.stack.subtrees).or added := by
  rcases recovery : (symbolMarks language made).recovery with - | -
  · exact ⟨none, .nothing, by rw [firstRepairAmong?_reduce?_plain reduced recovery, Option.or_none]⟩
  · obtain ⟨rfl, stirs, inside, tokens⟩ := pending_of_reduction reduces recovery
    obtain ⟨entry, rest, below, plain, edge⟩ := h.linked.exists_core inside
    obtain ⟨children, others, taken, before, after⟩ := firstRepairAmong?_reduce? reduced
    have single : Stack.takeOff (1 : UInt8).toNat run.stack.belowExtras [] =
        ([entry.subtree], rest) := by
      rw [below]
      simp [Stack.takeOff, plain]
    rw [taken, Prod.mk.injEq] at single
    obtain ⟨rfl, rfl⟩ := single
    -- the wrong token has no parts, and no error productions
    obtain ⟨terminal, fine⟩ := tokens _ _ edge
    have mem : entry ∈ run.stack := by
      rw [← run.stack.extras_append_belowExtras, below]
      simp
    have sturdy := h.sturdy mem
    have none : firstRepair? entry.subtree = none := by
      rw [firstRepair?_eq, sturdy.intact.recovery, fine, sturdy.atom terminal]
      rfl
    have top : run.stack.extras = [] := (extras_states h.linked).resolve_right stirs
    refine ⟨some made, .production reduces recovery, ?_⟩
    rw [before, after, recovery, top, firstRepairAmong?_singleton, none]
    simp [firstRepairAmong?]

/-- The current token of an orderly parse. -/
theorem Orderly.current_intact (h : Orderly text limit old run) :
    Throughout (Intact language) (run.current (setting text limit old)).token ∧
      (run.current (setting text limit old)).token.children = [] := by
  obtain ⟨state, read, -⟩ := h.holds.reads.current
  rw [read]
  exact ⟨(everywhere_leaf (children_lookahead ..)).mpr (intact_lookahead ..), children_lookahead ..⟩

/-- **A step leaves the error productions on the stack in place.** -/
theorem Orderly.firstRepair_turn (h : Orderly text limit old run) {next : Run}
    (running : run.turn (setting text limit old) = .running next) :
    ∃ added, Added run.state (run.current (setting text limit old)).token added ∧
      firstRepairAmong? next.stack.subtrees =
        (firstRepairAmong? run.stack.subtrees).or added := by
  obtain ⟨move, choice, running⟩ := Run.exists_choice running
  have intact := h.current_intact.1
  generalize run.current (setting text limit old) = lookahead at choice intact ⊢
  have push (entry : Entry) : firstRepairAmong? (Stack.subtrees (entry :: run.stack)) =
      (firstRepairAmong? run.stack.subtrees).or (firstRepair? entry.subtree) := by
    rw [Stack.subtrees_cons, firstRepairAmong?_append, firstRepairAmong?_singleton]
  cases choice with
  | shift action =>
    cases running
    exact ⟨_, .token, push _⟩
  | reduce action reduced =>
    cases running
    exact added_reduce? h (mem_reductions_of_reduce action) reduced
  | accept => simp [Run.make] at running
  | reduceByDefault _ default reduced =>
    cases running
    exact added_reduce? h (mem_reductions_of_default default) reduced
  | insert _ repair =>
    cases running
    refine ⟨_, .repair repair, ?_⟩
    simp only [push, setting_language, firstRepair?_missing (showsRepairs.repairs repair)]
  | wrap _ repair =>
    cases running
    refine ⟨_, .repair repair, ?_⟩
    simp only [Run.push, push, setting_language, firstRepair?_node,
      if_pos (showsRepairs.repairs repair)]
  | skip =>
    cases running
    exact ⟨_, .token, firstRepairAmong?_skip h.intact intact.self⟩
  | giveUp => simp [Run.make] at running

/-! ### Results -/

/-- The topmost subtree of a complete parse. -/
theorem Orderly.exists_top (h : Orderly text limit old run) (complete : run.state = 12) :
    ∃ entry rest, run.stack.belowExtras = entry :: rest ∧ entry ∈ run.stack ∧
      entry.subtree.symbol = topNode ∧ Stack.top rest = 1 := by
  have top : run.stack.top = 12 := complete
  obtain ⟨entry, rest, below, -, edge⟩ := h.linked.exists_core (by rw [top]; decide)
  rw [top] at edge
  have all : ∀ edge ∈ edges, edge.2.2 = 12 → edge.2.1 = topNode ∧ edge.1 = 1 := by decide
  obtain ⟨symbol, start⟩ := all _ edge rfl
  refine ⟨entry, rest, below, ?_, symbol, start⟩
  rw [← run.stack.extras_append_belowExtras, below]
  simp

/-- **The first error production on the stack is that of the root.** -/
theorem Orderly.firstRepair_finished (h : Orderly text limit old run) {root : Subtree}
    {reused : Nat} (finished : run.turn (setting text limit old) = .finished root reused) :
    firstRepair? root = (firstRepairAmong? run.stack.subtrees).or
      (firstRepair? (run.current (setting text limit old)).token) := by
  rcases Run.root_of_turn finished with ⟨action, -, rfl⟩ | rfl
  · obtain ⟨entry, rest, below, mem, symbol, -⟩ := h.exists_top (eq_of_accept action).1
    exact firstRepair?_accept below (h.sturdy mem).intact (by
      rw [symbol, setting_language]
      decide)
  · exact firstRepair?_giveUp h.current_intact.1.self (by simp only [setting_language]; decide)

/-- A parse ends in error if there is one on the stack. -/
theorem Orderly.hasError_finished (h : Orderly text limit old run) {root : Subtree}
    {reused : Nat} (finished : run.turn (setting text limit old) = .finished root reused)
    (wrong : run.wrong = true) : root.marks.hasError = true := by
  rcases Run.root_of_turn finished with ⟨action, -, rfl⟩ | rfl
  · obtain ⟨entry, rest, below, mem, -⟩ := h.exists_top (eq_of_accept action).1
    rw [hasError_accept below (h.sturdy mem).intact.flagged, wrong, Bool.true_or]
  · exact hasError_giveUp _

theorem Orderly.wrong_turn (h : Orderly text limit old run) {next : Run}
    (running : run.turn (setting text limit old) = .running next) (wrong : run.wrong = true) :
    next.wrong = true :=
  wrong_make (fun entry he => (h.intact entry he).self.flagged) (Run.choice_moveOn ..)
    h.current_intact.1.self.flagged running wrong

/-- The root is as a parse makes it, and so is all below it. -/
theorem Orderly.intact_finished (h : Orderly text limit old run) {root : Subtree} {reused : Nat}
    (finished : run.turn (setting text limit old) = .finished root reused) :
    Throughout (Intact language) root := by
  have holds : HoldsOnStack (fun _ => Intact language) (setting text limit old) run :=
    ⟨h.holds.row.mono fun _ _ h => h.intact, h.holds.width, h.holds.reads⟩
  obtain ⟨among, symbol, state, made⟩ := holds.finished (recoveryKeeps_intact showsRepairs.repairs)
    h.current_intact.1.self (fun _ => intact_token ..) (fun _ _ => intact_token ..) finished
  refine throughout_iff.mpr ⟨?_, everywhereAmong_const.mp among⟩
  rw [made]
  exact intact_node ..

/-! ### Whole parses -/

/-- An error production on a part of the stack is an error there. -/
theorem Orderly.anyError_of_fault (h : Orderly text limit old run) {part : Stack}
    (lower : part <:+ run.stack) (fault : firstRepairAmong? part.subtrees ≠ none) :
    anyError part.subtrees = true := by
  refine @anyError_of_firstRepairAmong? language _ ?_ (Option.isSome_iff_ne_none.mpr fault)
  intro tree m
  rw [Stack.subtrees, List.mem_reverse, List.mem_map] at m
  obtain ⟨entry, m, rfl⟩ := m
  exact h.intact entry (lower.mem m)

section Ends

variable {root : Subtree} {steps : Nat} (ends : Run.Ends (setting text limit none) root steps run)
include ends

theorem ends_of_running {next : Run} (running : run.turn (setting text limit none) = .running next) :
    ∃ fewer, Run.Ends (setting text limit none) root fewer next :=
  ends.of_steps (.head ((step_fresh ..).trans running) .refl)

theorem eq_of_finished {other : Subtree} {reused : Nat}
    (finished : run.turn (setting text limit none) = .finished other reused) : root = other := by
  rw [← step_fresh] at finished
  cases ends with
  | now e => exact (Progress.finished.inj (e.symm.trans finished)).1
  | later e => rw [finished] at e; cases e

/-- A fresh parse with an error on the stack ends in error. -/
theorem Orderly.hasError_ends (h : Orderly text limit none run) (wrong : run.wrong = true) :
    root.marks.hasError = true := by
  refine ends.of_invariant (I := fun run => Orderly text limit none run ∧ run.wrong = true)
    (R := fun root => root.marks.hasError = true) ?_ ?_ ⟨h, wrong⟩
  · rintro run next ⟨h, wrong⟩ running
    rw [step_fresh] at running
    exact ⟨(h.turn running).1, h.wrong_turn running wrong⟩
  · rintro run root reused ⟨h, wrong⟩ finished
    rw [step_fresh] at finished
    exact h.hasError_finished finished wrong

/-- A fresh parse ends with the first error production that is on the stack. -/
theorem Orderly.firstRepair_ends (h : Orderly text limit none run) {symbol : Symbol}
    (fault : firstRepairAmong? run.stack.subtrees = some symbol) :
    root.marks.hasError = true ∧ firstRepair? root = some symbol := by
  have wrong : run.wrong = true :=
    h.anyError_of_fault (List.suffix_refl _) (by rw [fault]; exact Option.some_ne_none symbol)
  refine ⟨h.hasError_ends ends wrong, ?_⟩
  refine ends.of_invariant (I := fun run => Orderly text limit none run ∧
    firstRepairAmong? run.stack.subtrees = some symbol) (R := fun root =>
    firstRepair? root = some symbol) ?_ ?_ ⟨h, fault⟩
  · rintro run next ⟨h, fault⟩ running
    rw [step_fresh] at running
    obtain ⟨added, -, e⟩ := h.firstRepair_turn running
    exact ⟨(h.turn running).1, by rw [e, fault, Option.some_or]⟩
  · rintro run root reused ⟨h, fault⟩ finished
    rw [step_fresh] at finished
    rw [h.firstRepair_finished finished, fault, Option.some_or]

theorem Orderly.intact_ends (h : Orderly text limit none run) :
    Throughout (Intact language) root :=
  ends.of_invariant (I := Orderly text limit none)
    (fun _ _ h e => (h.turn ((step_fresh ..).symm.trans e)).1)
    (fun _ _ _ h e => h.intact_finished ((step_fresh ..).symm.trans e)) h

end Ends

theorem Orderly.of_steps {last : Run} (h : Orderly text limit none run)
    (reached : Run.Steps (setting text limit none) run last) : Orderly text limit none last :=
  reached.of_invariant (fun _ _ h e => (h.turn ((step_fresh ..).symm.trans e)).1) h

end Reparse.Header
