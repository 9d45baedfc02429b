/-
Reparse/Proofs/Run/Closed.lean

What holds of all subtrees that a parse makes, wherever they stand.

A parse makes subtrees in six ways, which `Closed` lists.  A property that each
of them keeps goes on to hold throughout all that is on the stack, whatever the
moves are (`Closed.throughout_turn`), and in the end throughout the root.

Of what is made only that is asked which the language knows.  So `Known` itself
is closed, and no other property has to speak of symbols and states.
-/
import Reparse.Proofs.Run.Along
import Reparse.Proofs.Run.Guarded
import Reparse.Proofs.Subtree.Known

namespace Reparse

open Subtree

variable {language : Language}

/-! ### Known nodes -/

theorem Language.IsNonterminal.known {symbol : Symbol} (h : language.IsNonterminal symbol)
    {state : StateId} (hs : state.toNat < language.stateCount) (children : List Subtree) :
    Known language (node language symbol children state) where
  symbol := .inr (by rw [symbol_node]; exact h.2)
  state := by rwa [parseState_node]

theorem known_node_errorSymbol {state : StateId} (hs : state.toNat < language.stateCount)
    (children : List Subtree) : Known language (node language errorSymbol children state) where
  symbol := .inl (symbol_node ..)
  state := by rwa [parseState_node]

/-! ### Closed properties -/

/-- A property that a known subtree has in whatever way a parse makes it, if it holds
throughout what the subtree is made of. -/
structure Subtree.Closed (language : Language) (P : Subtree → Prop) : Prop where
  token : ∀ {symbol padding size lookahead state},
    Known language (token language symbol padding size lookahead state) →
    P (token language symbol padding size lookahead state)
  node : ∀ {symbol children state}, Known language (node language symbol children state) →
    (∀ child ∈ children, Throughout P child) → P (node language symbol children state)
  missing : ∀ {symbol state}, Known language (Subtree.node language symbol [] state) →
    (symbolMarks language symbol).recovery = true → P (missing language symbol state)
  errorNode : ∀ {children state},
    Known language (Subtree.node language errorSymbol children state) →
    (∀ child ∈ children, Throughout P child) → P (errorNode language children state)
  needing : ∀ {tree}, P tree → ∀ needed, P (tree.needing needed)
  extended : ∀ {tree}, P tree → tree.isErrorToken = true →
    ∀ size lookahead, P (tree.extended size lookahead)

theorem closed_known (language : Language) : Closed language (Known language) where
  token known := known
  node known _ := known
  missing known _ := ⟨known.symbol, known.state⟩
  errorNode known _ := ⟨known.symbol, known.state⟩
  needing known _ := ⟨known.symbol, known.state⟩
  extended known _ _ _ := ⟨known.symbol, known.state⟩

namespace Subtree.Closed

variable {P : Subtree → Prop} (closed : Closed language P)
include closed

theorem throughout_token {symbol : Symbol} {padding size lookahead : Nat} {state : StateId}
    (known : Known language (Subtree.token language symbol padding size lookahead state)) :
    Throughout P (Subtree.token language symbol padding size lookahead state) :=
  throughout_iff.mpr ⟨closed.token known, fun _ m => by cases m⟩

theorem throughout_node {symbol : Symbol} {children : List Subtree} {state : StateId}
    (known : Known language (Subtree.node language symbol children state))
    (h : ∀ child ∈ children, Throughout P child) :
    Throughout P (Subtree.node language symbol children state) :=
  throughout_iff.mpr ⟨closed.node known h, h⟩

theorem throughout_errorNode {state : StateId} (hs : state.toNat < language.stateCount)
    {children : List Subtree} (h : ∀ child ∈ children, Throughout P child) :
    Throughout P (Subtree.errorNode language children state) :=
  throughout_iff.mpr ⟨closed.errorNode (known_node_errorSymbol hs children) h, h⟩

theorem throughout_extended {tree : Subtree} (h : Throughout P tree)
    (error : tree.isErrorToken = true) (size lookahead : Nat) :
    Throughout P (tree.extended size lookahead) :=
  throughout_iff.mpr ⟨closed.extended h.self error size lookahead, (throughout_iff.mp h).2⟩

theorem throughout_lookahead {text : Text} {position : Nat} {state : StateId}
    (known : Known language (language.lookahead text position state).token) :
    Throughout P (language.lookahead text position state).token := by
  obtain ⟨symbol, padding, size, lookahead, e⟩ := lookahead_token language text position state
  rw [e] at known ⊢
  exact closed.throughout_token known

/-! ### Stacks -/

theorem throughout_addSkipped {children : List Subtree} {token : Subtree}
    (hc : ∀ child ∈ children, Throughout P child) (ht : Throughout P token) :
    ∀ child ∈ Stack.addSkipped children token, Throughout P child := by
  fun_induction Stack.addSkipped children token with
  | case1 => exact List.forall_mem_singleton.mpr ht
  | case2 last token joined =>
    simp only [Bool.and_eq_true] at joined
    exact List.forall_mem_singleton.mpr
      (closed.throughout_extended (List.forall_mem_singleton.mp hc) joined.1 _ _)
  | case3 last token joined =>
    exact List.forall_mem_cons.mpr
      ⟨List.forall_mem_singleton.mp hc, List.forall_mem_singleton.mpr ht⟩
  | case4 first second rest token ih =>
    obtain ⟨hf, hr⟩ := List.forall_mem_cons.mp hc
    exact List.forall_mem_cons.mpr ⟨hf, ih hr ht⟩

theorem throughout_mergeErrors {state : StateId} (hs : state.toNat < language.stateCount)
    {previous token : Subtree} (hp : Throughout P previous) (ht : Throughout P token) :
    Throughout P (Stack.mergeErrors language previous token state) := by
  simp only [Stack.mergeErrors]
  split
  · rename_i joined
    simp only [Bool.and_eq_true] at joined
    exact closed.throughout_extended hp joined.1 _ _
  · refine closed.throughout_errorNode hs (closed.throughout_addSkipped ?_ ht)
    split
    · exact List.forall_mem_singleton.mpr hp
    · exact (throughout_iff.mp hp).2

theorem throughout_skip {stack : Stack} {token : Subtree}
    (hs : stack.top.toNat < language.stateCount)
    (h : ∀ tree ∈ stack.subtrees, Throughout P tree) (ht : Throughout P token) :
    ∀ tree ∈ (stack.skip language token).subtrees, Throughout P tree := by
  have alone : Throughout P (if token.isErrorToken then token
      else Subtree.errorNode language [token] stack.top) := by
    split
    · exact ht
    · exact closed.throughout_errorNode hs (List.forall_mem_singleton.mpr ht)
  cases stack with
  | nil => simpa [Stack.skip] using alone
  | cons entry rest =>
    simp only [Stack.subtrees_cons, List.forall_mem_append, List.forall_mem_singleton] at h
    simp only [Stack.skip]
    split
    · simp only [Stack.subtrees_cons, List.forall_mem_append, List.forall_mem_singleton]
      exact ⟨h.1, closed.throughout_mergeErrors hs h.2 ht⟩
    · simp only [Stack.subtrees_cons, List.forall_mem_append, List.forall_mem_singleton]
      exact ⟨h, alone⟩

theorem throughout_reduce? {stack reduced : Stack} {symbol : Symbol} {count : UInt8}
    {token : Subtree} (h : ∀ tree ∈ stack.subtrees, Throughout P tree)
    (states : ∀ rest, rest <:+ stack → (Stack.top rest).toNat < language.stateCount)
    (made : language.IsNonterminal symbol)
    (hr : stack.reduce? language symbol count token = some reduced) :
    ∀ tree ∈ reduced.subtrees, Throughout P tree := by
  obtain ⟨children, rest, target, taken, -, rfl⟩ := Stack.reduce?_eq_some_iff.mp hr
  have below := Stack.takeOff_suffix count.toNat stack.belowExtras []
  rw [subtrees_of_takeOff taken] at h
  rw [taken] at below
  simp only [Stack.subtrees_append, Stack.subtrees_cons, Stack.subtrees_moved,
    List.forall_mem_append, List.forall_mem_singleton] at h ⊢
  obtain ⟨⟨hrest, hc⟩, hx⟩ := h
  have known := made.known (states rest (below.trans (List.dropWhile_suffix _))) children
  have node := closed.throughout_node known hc
  exact ⟨⟨hrest, throughout_iff.mpr ⟨closed.needing node.self _, (throughout_iff.mp node).2⟩⟩, hx⟩

end Subtree.Closed

/-! ### Runs -/

section Runs

variable {P : Subtree → Prop} {setting : Setting} {run : Run}
  (closed : Closed setting.language P) (consistent : setting.language.Consistent)
  (row : ∀ tree ∈ run.stack.subtrees, Throughout P tree)
include closed consistent row

/-- **A step on the current token** keeps a closed property of all that is on the stack. -/
theorem Subtree.Closed.throughout_turn
    (states : ∀ rest, rest <:+ run.stack → (Stack.top rest).toNat < setting.language.stateCount)
    (token : Throughout P (run.current setting).token) {next : Run}
    (running : run.turn setting = .running next) :
    ∀ tree ∈ next.stack.subtrees, Throughout P tree := by
  obtain ⟨move, choice, running⟩ := Run.exists_choice running
  generalize run.current setting = lookahead at choice token
  have top : run.state.toNat < setting.language.stateCount := states run.stack List.suffix_rfl
  -- a subtree more on top
  have pushed {target : StateId} {tree : Subtree} (ht : Throughout P tree) :
      ∀ t ∈ Stack.subtrees (⟨target, tree⟩ :: run.stack), Throughout P t := by
    simp only [Stack.subtrees_cons, List.forall_mem_append, List.forall_mem_singleton]
    exact ⟨row, ht⟩
  cases choice with
  | shift => cases running; exact pushed token
  | reduce action reduced =>
    cases running
    exact closed.throughout_reduce? row states (consistent.reduces action) reduced
  | reduceByDefault _ default reduced =>
    cases running
    exact closed.throughout_reduce? row states (consistent.defaults default) reduced
  | insert _ repair =>
    cases running
    obtain ⟨nonterminal, -, recovery⟩ := consistent.repairs repair
    refine pushed (throughout_iff.mpr ⟨closed.missing (nonterminal.known top []) recovery, ?_⟩)
    intro child none
    cases none
  | wrap _ repair =>
    cases running
    have known := (consistent.repairs repair).1.known top [lookahead.token]
    exact pushed (closed.throughout_node known (List.forall_mem_singleton.mpr token))
  | skip => cases running; exact closed.throughout_skip top row token
  | accept | giveUp => cases running

theorem Subtree.Closed.throughout_giveUp {token : Subtree} (ht : Throughout P token) :
    Throughout P (run.giveUp setting token) := by
  have state := Guarded.errorState_lt consistent
  have stop : Throughout P (Subtree.token setting.language endSymbol 0 0 0 errorState) :=
    closed.throughout_token
      ⟨.inr (Nat.lt_of_lt_of_le consistent.terminals consistent.tokens), state⟩
  have tail : ∀ tree ∈ run.tail setting token, Throughout P tree := by
    simp only [Run.tail]
    split
    · exact List.forall_mem_singleton.mpr ht
    · split
      · rename_i error
        exact List.forall_mem_cons.mpr
          ⟨closed.throughout_extended ht error _ _, List.forall_mem_singleton.mpr stop⟩
      · split
        · exact List.forall_mem_cons.mpr ⟨ht, List.forall_mem_cons.mpr
            ⟨closed.throughout_token ⟨.inl rfl, state⟩, List.forall_mem_singleton.mpr stop⟩⟩
        · exact List.forall_mem_cons.mpr ⟨ht, List.forall_mem_singleton.mpr stop⟩
  rw [giveUp_eq]
  exact closed.throughout_node (known_node_errorSymbol state _)
    (List.forall_mem_append.mpr ⟨row, tail⟩)

theorem Subtree.Closed.throughout_accept
    (known : ∀ tree ∈ run.stack.subtrees, Known setting.language tree) {token : Subtree}
    (ht : Throughout P token) : Throughout P (run.accept setting token) := by
  rcases below : run.stack.belowExtras with - | ⟨entry, rest⟩
  · simpa [Run.accept, below] using closed.throughout_giveUp consistent row ht
  · rw [← run.stack.extras_append_belowExtras, below] at row known
    simp only [Stack.subtrees_append, Stack.subtrees_cons, List.forall_mem_append,
      List.forall_mem_singleton] at row known
    obtain ⟨⟨front, top⟩, extras⟩ := row
    rw [accept_eq below]
    refine closed.throughout_node
      (known.1.2.congr (symbol_node ..) (parseState_node ..)) ?_
    simp only [List.forall_mem_append, List.forall_mem_singleton]
    refine ⟨⟨⟨front, ?_⟩, extras⟩, ht⟩
    split
    · exact List.forall_mem_singleton.mpr top
    · exact (throughout_iff.mp top).2

end Runs

end Reparse
