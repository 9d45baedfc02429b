/-
Reparse/Proofs/Header/Top.lean

Where complete documents stand in a header tree.

A parse comes to a complete document with all of the header in it, and from then
on only skips.  So it ends with that document as the root, or it gives up because
of an error production in it.  Hence what is below the root is `Partial`.
-/
import Reparse.Proofs.Header.Abreast

namespace Reparse

open Subtree

/-! ### Extras under a skip -/

theorem Stack.mem_extras_cons {first entry : Entry} {rest : Stack} :
    entry ∈ Stack.extras (first :: rest) ↔
      first.subtree.marks.extra = true ∧ (entry = first ∨ entry ∈ Stack.extras rest) := by
  rcases e : first.subtree.marks.extra with - | -
  · simp [extras, e]
  · simp [extras, e]

/-- Skipped input goes on top of extras that all have a property. -/
theorem throughout_extras_skip {language : Language} {P : Subtree → Prop}
    (keeps : RecoveryKeeps language fun _ tree => P tree) {stack : Stack} {token : Subtree}
    (ht : P token) (leaf : token.children = [])
    (extras : ∀ entry ∈ stack.extras, Throughout P entry.subtree) :
    ∀ entry ∈ (stack.skip language token).extras, Throughout P entry.subtree := by
  have single : Throughout P token := (everywhere_leaf leaf).mpr ht
  have alone (state : StateId) : Throughout P (if token.isErrorToken then token
      else errorNode language [token] state) := by
    split
    · exact single
    · exact everywhere_errorNode keeps (everywhereAmong_singleton.mpr single) state
  intro entry m
  cases stack with
  | nil =>
    obtain ⟨-, rfl | m⟩ := Stack.mem_extras_cons.mp m
    · exact alone _
    · cases m
  | cons first rest =>
    simp only [Stack.skip] at m
    split at m
    · rename_i joins
      simp only [Bool.and_eq_true, decide_eq_true_eq] at joins
      obtain ⟨-, rfl | m⟩ := Stack.mem_extras_cons.mp m
      · have merged := extras first (Stack.mem_extras_cons.mpr ⟨joins.2, .inl rfl⟩)
        exact everywhere_mergeErrors keeps merged leaf ht _
      · exact extras entry (Stack.mem_extras_cons.mpr ⟨joins.2, .inr m⟩)
    · obtain ⟨-, rfl | m⟩ := Stack.mem_extras_cons.mp m
      · exact alone _
      · exact extras entry m

namespace Header

variable {text : Text} {limit : Nat} {run next : Run}

/-- A subtree that is no complete document. -/
structure NotDocument (tree : Subtree) : Prop where
  intact : Intact language tree
  symbol : tree.symbol ≠ topNode

theorem NotDocument.partial {tree : Subtree} (h : Throughout NotDocument tree) :
    Throughout Partial tree :=
  h.mono fun _ _ here top => absurd top here.symbol

theorem recoveryKeeps_notDocument : RecoveryKeeps language fun _ tree => NotDocument tree where
  intact h := h.intact
  missing repair _ := by
    refine ⟨intact_missing (showsRepairs.repairs repair) _, ?_⟩
    rintro rfl
    exact simple_of_repair repair (by decide)
  wrapped {_ symbol _} repair _ token _ := by
    refine ⟨intact_node .., ?_⟩
    rw [@symbol_node language symbol [token]]
    rintro rfl
    exact simple_of_repair repair (by decide)
  skipped _ _ := by
    refine ⟨intact_errorNode .., ?_⟩
    rw [symbol_errorNode]
    decide
  joined h error _ _ _ _ _ := ⟨h.intact.extended (isErrorToken_iff.mp error).2 _ _, h.symbol⟩

theorem notDocument_token {symbol : Symbol} (other : symbol ≠ topNode)
    (padding size lookahead : Nat) (state : StateId) :
    NotDocument (Subtree.token language symbol padding size lookahead state) where
  intact := intact_token ..
  symbol := other

theorem notDocument_lookahead (text : Text) (position : Nat) (state : StateId) :
    NotDocument (language.lookahead text position state).token := by
  refine ⟨intact_lookahead .., fun top => ?_⟩
  have inner := (shaped_lookahead text position state).inner (by rw [top]; decide)
  obtain ⟨_, _, _, _, e⟩ := lookahead_token language text position state
  rw [e] at inner
  cases inner

theorem Orderly.notDocument_current (h : Orderly text limit none run) :
    NotDocument (run.current (setting text limit none)).token := by
  obtain ⟨position, read, -⟩ := h.holds.reads.current
  rw [read]
  exact notDocument_lookahead ..

/-- A complete document on the stack has nothing but extras beside it: either there is
none yet, or it is all that is on the stack apart from extras. -/
inductive LoneDocument (text : Text) (limit : Nat) (run : Run) : Prop
  | below (holds : HoldsOnStack (fun _ tree => NotDocument tree) (setting text limit none) run)
  | complete {entry : Entry} (state : run.state = 12) (below : run.stack.belowExtras = [entry])
      (node : entry.subtree.marks.token = false)
      (parts : ∀ child ∈ entry.subtree.children, Throughout NotDocument child)
      (extras : ∀ other ∈ run.stack.extras, Throughout NotDocument other.subtree)
      (part : entry.subtree.marks.hasError = true ∨
        firstRepairAmong? run.stack.subtrees = none)

/-- **The document comes to the top** with nothing but extras beside it. -/
theorem LoneDocument.complete_of_reduction (h : Orderly text limit none run)
    (enough : text.size + 15 ≤ limit)
    (holds : HoldsOnStack (fun _ tree => NotDocument tree) (setting text limit none) run)
    (last : run.state = 15) (running : run.turn (setting text limit none) = .running next) :
    LoneDocument text limit next := by
  obtain ⟨la, current⟩ : ∃ la, run.current (setting text limit none) = la := ⟨_, rfl⟩
  obtain ⟨other, moved, reduced, twelve, -⟩ := h.turn_makes current topNode 2 12
    (h.reduces_in enough last (by decide) (by decide) (by decide) la.token.symbol)
    (by rw [last]; exact goto?_of_mem_edges (by decide) (by decide))
  obtain rfl := Progress.running.inj (running.symm.trans moved)
  have top : run.stack.top = 15 := last
  obtain ⟨children, rest, target, taken, below, extras⟩ := Stack.belowExtras_reduce? reduced
  obtain ⟨rfl, -⟩ := h.linked.takeOff_all (by rw [top]; decide) (by rw [top]; decide) taken
  rw [(extras_states h.linked).resolve_right (by rw [top]; decide)] at extras
  have row := holds.row
  rw [subtrees_of_takeOff taken, everywhereAmong_append, everywhereAmong_append] at row
  refine .complete twelve below (by simp [marks_node, symbolMarks]) ?_ ?_ ?_
  · exact everywhereAmong_const.mp row.1.2
  · rw [extras]
    intro other m
    cases m
  · rcases fault : firstRepairAmong? next.stack.subtrees with - | symbol
    · exact .inr rfl
    · have error := (h.turn running).1.anyError_of_fault (List.suffix_refl _)
        (by rw [fault]; exact Option.some_ne_none symbol)
      rw [← Stack.belowExtras_of_extras extras, below] at error
      exact .inl (by simpa [anyError] using error)

/-- In front of the end of the text a complete document goes on to skip. -/
theorem turn_complete (state : run.state = 12) :
    (∃ token, (run.current (setting text limit none)).token = token ∧
      run.turn (setting text limit none) =
        .finished (run.accept (setting text limit none) token) run.reused) ∨
    language.action? run.state (run.current (setting text limit none)).token.symbol = none := by
  rcases e : language.action? run.state (run.current (setting text limit none)).token.symbol with
    - | action
  · exact .inr rfl
  · have all : ∀ entry ∈ actions, entry.1.1 = 12 → entry.2 = .accept := by decide
    obtain rfl := all _ (mem_actions e) state
    exact .inl ⟨_, rfl, turn_accept rfl e⟩

theorem LoneDocument.turn (h : Orderly text limit none run) (enough : text.size + 15 ≤ limit)
    (lone : LoneDocument text limit run)
    (running : run.turn (setting text limit none) = .running next) :
    LoneDocument text limit next := by
  cases lone with
  | below holds =>
    by_cases last : run.state = 15
    · exact complete_of_reduction h enough holds last running
    · obtain ⟨state, read, -⟩ := holds.reads.current
      -- only a reduction in state 15 makes a top node
      refine .below (holds.make recoveryKeeps_notDocument (Run.choice_moveOn _ run _) read
        (by rw [read]; exact notDocument_lookahead ..) ?_ running)
      intro symbol count children rest target reduces _ _ _
      have reduction := reduces.elim mem_reductions_of_reduce mem_reductions_of_default
      have all : ∀ entry ∈ reductions, entry.2.1 = topNode → entry.1 = 15 := by decide
      refine ⟨(intact_node ..).needing _, ?_⟩
      rw [symbol_needing, symbol_node]
      exact fun top => last (all _ reduction top)
  | @complete entry state below node parts extras part =>
    rcases turn_complete state with ⟨token, -, finished⟩ | action
    · rw [finished] at running
      cases running
    -- behind a complete document there is nothing to do but skip or give up
    have stuck := moveOn_stuck text limit none action (by rw [state]; decide) (by rw [state]; decide)
    obtain ⟨position, read, -⟩ := h.holds.reads.current
    obtain ⟨-, leaf⟩ := h.current_intact
    obtain ⟨added, fault, quiet⟩ := h.firstRepair_behind (by rw [state]; decide) running
    split at stuck
    · rw [Run.turn, stuck] at running
      cases running
    · rw [Run.turn, stuck] at running
      obtain rfl := Progress.running.inj running
      have extra : (run.current (setting text limit none)).token.isErrorToken = true →
          (run.current (setting text limit none)).token.marks.extra = true := by
        intro error
        rw [read, Run.extra_lookahead, ← read]
        exact decide_eq_true (isErrorToken_iff.mp error).1
      refine .complete ?_ ((Stack.belowExtras_skip language run.stack extra).trans below) node parts
        (throughout_extras_skip recoveryKeeps_notDocument h.notDocument_current leaf extras) ?_
      · have rests := linked_skip h.linked _ extra (by
          rw [show run.stack.top = 12 from state]
          decide)
        exact rests.2.trans state
      · refine part.imp_right fun fine => ?_
        rcases quiet with rfl | ⟨-, early⟩
        · rw [fault, fine]
          rfl
        · rw [state] at early
          exact absurd early (by decide)

theorem partial_extras (extras : ∀ other ∈ run.stack.extras, Throughout NotDocument other.subtree) :
    ∀ tree ∈ run.stack.extras.subtrees, Throughout Partial tree := by
  intro tree m
  obtain ⟨other, here, rfl⟩ := List.mem_map.mp (List.mem_reverse.mp m)
  exact NotDocument.partial (extras other here)

/-- With recoveries left a parse gives up on a complete document only because of
an error production in it. -/
theorem hasError_of_giveUp (h : Orderly text limit none run) (enough : text.size + 15 ≤ limit)
    (state : run.state = 12)
    (action : language.action? run.state (run.current (setting text limit none)).token.symbol = none)
    (reason : limit ≤ run.recoveries ∨ run.stack.hasConsumedRecovery = true ∨
      (run.current (setting text limit none)).token.symbol = endSymbol) {tree : Subtree}
    (part : tree.marks.hasError = true ∨ firstRepairAmong? run.stack.subtrees = none) :
    tree.marks.hasError = true := by
  have left : run.recoveries < limit := by
    refine (h.free enough).resolve_right ?_
    rintro ⟨accept, -⟩
    rw [setting_language, action] at accept
    cases accept
  have more : (run.current (setting text limit none)).token.symbol ≠ endSymbol := by
    intro stop
    rw [state, stop, action?_eq] at action
    exact absurd action (by decide)
  have consumed := (reason.resolve_left (Nat.not_le.mpr left)).resolve_right more
  refine part.resolve_right fun fine => ?_
  rw [Stack.hasConsumedRecovery_of_firstRepairAmong? fine] at consumed
  cases consumed

/-- **Below the root there is no complete document without errors.** -/
theorem LoneDocument.finished (h : Orderly text limit none run) (enough : text.size + 15 ≤ limit)
    (lone : LoneDocument text limit run) {root : Subtree} {reused : Nat}
    (finished : run.turn (setting text limit none) = .finished root reused) :
    ∀ child ∈ root.children, Throughout Partial child := by
  have token := h.notDocument_current
  obtain ⟨-, leaf⟩ := h.current_intact
  cases lone with
  | below holds =>
    have among := (holds.finished recoveryKeeps_notDocument token
      (fun _ => notDocument_token (by decide) ..)
      (fun _ _ => notDocument_token (by decide) ..) finished).1
    intro child m
    exact NotDocument.partial (everywhereAmong_const.mp among child m)
  | @complete entry state below node parts extras part =>
    rcases turn_complete state with ⟨last, rfl, accepted⟩ | action
    · -- the document is the root
      obtain rfl := (Progress.finished.inj (finished.symm.trans accepted)).1
      rw [accept_eq below, children_node, node]
      intro child m
      simp only [Stack.subtrees_nil, List.nil_append, Bool.false_eq_true, if_false,
        List.mem_append, List.mem_singleton] at m
      rcases m with (part | extra) | rfl
      · exact NotDocument.partial (parts child part)
      · exact partial_extras extras child extra
      · exact NotDocument.partial ((everywhere_leaf leaf).mpr token)
    · -- the document is below an error root
      have stuck := moveOn_stuck text limit none action (by rw [state]; decide)
        (by rw [state]; decide)
      rw [Run.turn, stuck] at finished
      split at finished
      · rename_i reason
        have error := hasError_of_giveUp h enough state action reason part
        cases finished
        rw [giveUp_eq, children_node, ← run.stack.extras_append_belowExtras, below]
        intro child m
        simp only [Stack.subtrees_append, Stack.subtrees_cons, Stack.subtrees_nil, List.nil_append,
          List.mem_append, List.mem_singleton] at m
        rcases m with (rfl | extra) | last
        · exact throughout_iff.mpr
            ⟨fun _ => error, fun child m => NotDocument.partial (parts child m)⟩
        · exact partial_extras extras child extra
        · have among := @everywhereAmong_tail (fun _ tree => NotDocument tree)
            (setting text limit none) run recoveryKeeps_notDocument _ token leaf (fun _ => notDocument_token (by decide) ..)
            (notDocument_token (by decide) ..)
          exact NotDocument.partial (everywhereAmong_const.mp among child last)
      · cases finished

theorem loneDocument_start : LoneDocument text limit {} :=
  .below holdsOnStack_start

/-- In the tree of a fresh parse complete documents below the root have errors. -/
theorem partial_parse (small : text.size < UInt32.size) (enough : text.size + 15 ≤ limit) :
    ∀ child ∈ (setting text limit none).parse.1.children, Throughout Partial child := by
  obtain ⟨steps, ends⟩ := exists_ends_parse small limit
  refine ends.of_invariant
    (I := fun run => Orderly text limit none run ∧ LoneDocument text limit run)
    (R := fun root => ∀ child ∈ root.children, Throughout Partial child) ?_ ?_
    ⟨orderly_start small, loneDocument_start⟩
  · rintro run next ⟨h, lone⟩ running
    rw [step_fresh] at running
    exact ⟨(h.turn running).1, lone.turn h enough running⟩
  · rintro run root reused ⟨h, lone⟩ finished
    rw [step_fresh] at finished
    exact lone.finished h enough finished

end Header

end Reparse
