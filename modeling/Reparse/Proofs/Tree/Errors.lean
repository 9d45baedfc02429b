/-
Reparse/Proofs/Tree/Errors.lean

What the mark of an error says.

A node has the mark if it is an error itself or if a child of it has the mark.
Each of the ways to make a node sets it so, and an edit leaves it alone, so
that in every tree of a language the mark is there exactly above the errors:
`Subtree.hasError_iff`.

In a parse, each repair puts a marked subtree on the stack.  No move takes one
off but into a node, which then has the mark as well.  So the root of a parse
that had to repair its text has the mark, and one that gives up makes such a
root.  `Tree.errors_exact` puts both together.
-/
import Reparse.Proofs.Run.Consumed
import Reparse.Proofs.Run.Wrong

namespace Reparse

namespace Subtree

/-! ### Errors in a tree -/

/-- Whether a node is an error itself. -/
def Erroneous (tree : Subtree) : Prop :=
  tree.symbol = errorSymbol ∨ tree.marks.recovery = true ∨ tree.marks.missing = true

theorem somewhere_iff {P : Subtree → Prop} {tree : Subtree} :
    Somewhere P tree ↔ P tree ∨ ∃ child ∈ tree.children, Somewhere P child := by
  constructor
  · intro h
    cases h with
    | here h => exact .inl h
    | deeper within h => exact .inr ⟨_, within, h⟩
  · rintro (h | ⟨child, within, h⟩)
    · exact .here h
    · exact .deeper within h

/-- **The mark of an error is exact**, where nodes sum up the marks of their children. -/
theorem hasError_iff {tree : Subtree} (regular : Throughout Regular tree) :
    tree.marks.hasError = true ↔ Somewhere Erroneous tree := by
  induction tree using inductionOn with
  | mk head children ih =>
    have below : (children.any (·.marks.hasError)) = true ↔
        ∃ child ∈ children, Somewhere Erroneous child := by
      rw [List.any_eq_true]
      constructor
      · rintro ⟨child, within, marked⟩
        exact ⟨child, within, (ih child within (regular.child within)).mp marked⟩
      · rintro ⟨child, within, error⟩
        exact ⟨child, within, (ih child within (regular.child within)).mpr error⟩
    rw [somewhere_iff, regular.self.error, Bool.or_eq_true]
    apply or_congr _ below
    rw [Bool.or_eq_true, Bool.or_eq_true, decide_eq_true_eq, Erroneous, or_left_comm, or_assoc]

/-! ### Marks that say so -/

variable {language : Language}

theorem closed_flagged (language : Language) : Closed language (Flagged language) where
  token _ := (intact_token ..).flagged
  node {symbol children state} _ _ := (intact_node symbol children state).flagged
  missing {_ state} _ recovery := (intact_missing recovery state).flagged
  errorNode {children state} _ _ := (@intact_errorNode language children state).flagged
  needing h _ := ⟨h.recovery, h.missing, h.error⟩
  extended h _ _ _ := ⟨h.recovery, h.missing, h.error⟩

theorem Flagged.edit (edit : TextEdit) {tree : Subtree} (h : Flagged language tree) :
    Flagged language (tree.edit edit) where
  recovery := by
    rw [marks_edit, symbol_edit]
    exact h.recovery
  missing := by
    rw [marks_edit]
    exact h.missing
  error := by
    rw [marks_edit, symbol_edit, children_edit, hasError_editRow]
    exact h.error

end Subtree

open Subtree

section Runs

variable {language : Language} {setting : Setting} {run : Run}

/-- In a tree of a language, the marks say which errors there are. -/
theorem Tree.Grown.flagged (consistent : language.Consistent) {tree : Tree}
    (h : tree.Grown language) : Throughout (Flagged language) tree.root :=
  h.throughout (closed_flagged language) (fun edit _ flagged => flagged.edit edit) consistent

/-- So do those of all that an old tree contributes to a parse. -/
theorem Config.flagged_old (config : Config) (consistent : language.Consistent) (text : Text)
    {old : Option Tree}
    (grown : ∀ tree, old = some tree → tree.language = language → tree.Grown language) :
    (config.setting language text old).Offers (Flagged language) := by
  apply Setting.offers_of_throughout
  intro root e
  obtain ⟨tree, here, same, rfl⟩ := Config.reusableRoot?_eq_some e
  exact (grown tree here same).flagged consistent

namespace Run

/-! ### Runs that fail -/

/-- Whether a parse does not get along with its text: it repairs it here, or it gives up. -/
def Fails (setting : Setting) (run : Run) : Prop :=
  (run.move setting).isRepair = true ∨ ∃ token, run.move setting = .giveUp token ∨
    (run.move setting = .accept token ∧ run.stack.belowExtras = [])

section Steps

variable (consistent : setting.language.Consistent) (secure : run.Secure setting)
  (flagged : ∀ tree ∈ run.stack.subtrees, Throughout (Flagged setting.language) tree)
include consistent secure flagged

/-- A repair leaves an error on the stack. -/
theorem wrong_of_isRepair (repairs : (run.move setting).isRepair = true) :
    ∃ next, run.step setting = .running next ∧ next.wrong = true := by
  have token := (secure.closed_current consistent (closed_flagged _)).self
  have entries : ∀ entry ∈ run.stack, Flagged setting.language entry.subtree :=
    fun _ within => Stack.entry_of_throughout flagged within
  rcases move_cases setting run with ⟨subtree, target, e⟩ | e
  · rw [e] at repairs
    cases repairs
  · -- of the moves of a fresh parse, those that repair put a marked subtree on top
    have choice := choice_moveOn setting run (run.current setting)
    rw [step, e]
    rw [e] at repairs
    generalize run.moveOn setting (run.current setting) = move at choice repairs
    generalize run.current setting = lookahead at choice token
    cases choice with
    | insert =>
      refine ⟨_, rfl, ?_⟩
      rw [Run.wrong, Stack.subtrees_cons, anyError_append, anyError_cons]
      exact Bool.or_true _
    | @wrap symbol target _ repair =>
      refine ⟨_, rfl, ?_⟩
      have recovery : (symbolMarks setting.language symbol).recovery = true :=
        (consistent.repairs repair).2.2
      rw [Run.wrong, Run.push, Stack.subtrees_cons, anyError_append, anyError_cons,
        hasError_node, recovery]
      simp
    | skip => exact ⟨_, rfl, anyError_skip entries token⟩
    | shift | reduce | accept | reduceByDefault | giveUp => cases repairs

/-- **An error on the stack stays there**, also if the next subtree comes from an old tree. -/
theorem wrong_step {next : Run} (running : run.step setting = .running next)
    (wrong : run.wrong = true) : next.wrong = true := by
  have token := (secure.closed_current consistent (closed_flagged _)).self
  rcases running_cases running with ⟨subtree, target, -, -, rfl⟩ | turned
  · -- what is reused comes on top of what is there
    rw [Run.wrong] at wrong
    rw [Run.wrong, Run.push, Stack.subtrees_cons, anyError_append, wrong, Bool.true_or]
  · obtain ⟨move, choice, made⟩ := exists_choice turned
    exact wrong_make (fun entry within => Stack.entry_of_throughout flagged within) choice token
      made wrong

end Steps

/-- In the end it is an error of the root. -/
theorem hasError_of_wrong
    (flagged : ∀ tree ∈ run.stack.subtrees, Throughout (Flagged setting.language) tree)
    {root : Subtree} {reused : Nat} (finished : run.step setting = .finished root reused)
    (wrong : run.wrong = true) : root.marks.hasError = true := by
  obtain ⟨-, token, ⟨-, rfl⟩ | ⟨-, rfl⟩⟩ := finished_cases finished
  · rcases below : run.stack.belowExtras with - | ⟨entry, rest⟩
    · -- there is nothing to accept, so the run gives up after all
      rw [Run.accept, below]
      exact hasError_giveUp token
    · have within : entry ∈ run.stack := by
        rw [← run.stack.extras_append_belowExtras, below]
        simp
      have own := Stack.entry_of_throughout flagged within
      rw [hasError_accept below own, wrong, Bool.true_or]
  · exact hasError_giveUp token

/-- A root that a run gives up with has an error. -/
theorem hasError_of_givesUp {root : Subtree} {reused : Nat}
    (finished : run.step setting = .finished root reused) {token : Subtree}
    (givesUp : run.move setting = .giveUp token ∨
      (run.move setting = .accept token ∧ run.stack.belowExtras = [])) :
    root.marks.hasError = true := by
  rw [step] at finished
  rcases givesUp with move | ⟨move, below⟩
  · rw [move] at finished
    cases finished
    exact hasError_giveUp token
  · rw [move] at finished
    cases finished
    rw [Run.accept, below]
    exact hasError_giveUp token

/-! ### Whole parses -/

/-- What a run comes to ends it. -/
theorem Steps.ends {last : Run} (h : Steps setting run last) {root : Subtree} {reused : Nat}
    (finished : last.step setting = .finished root reused) :
    ∃ steps, Ends setting root steps run := by
  induction h with
  | refl => exact ⟨1, .now finished⟩
  | head running rest ih =>
    obtain ⟨steps, ends⟩ := ih finished
    exact ⟨steps + 1, .later running ends⟩

section Parse

variable (consistent : setting.language.Consistent)
  (known : ∀ root, setting.old = some root → Throughout (Known setting.language) root)
  (offers : setting.Offers (Flagged setting.language))
include consistent known offers

/-- A run with an error on the stack ends in error. -/
theorem Steps.hasError_of_wrong (reached : Steps setting {} run) (wrong : run.wrong = true)
    {root : Subtree} {steps : Nat} (ends : Ends setting root steps run) :
    root.marks.hasError = true := by
  have secure {run : Run} (reached : Steps setting {} run) : run.Secure setting :=
    reached.secure consistent known
  have flagged {run : Run} (reached : Steps setting {} run) :
      ∀ tree ∈ run.stack.subtrees, Throughout (Flagged setting.language) tree :=
    reached.throughout consistent known (closed_flagged _) offers
  refine ends.of_invariant (I := fun run => Steps setting {} run ∧ run.wrong = true)
    (R := fun root => root.marks.hasError = true) ?_ ?_ ⟨reached, wrong⟩
  · rintro run next ⟨reached, wrong⟩ running
    exact ⟨reached.trans (.head running .refl),
      wrong_step consistent (secure reached) (flagged reached) running wrong⟩
  · rintro run root reused ⟨reached, wrong⟩ finished
    exact Run.hasError_of_wrong (flagged reached) finished wrong

/-- **A run that fails ends in error.** -/
theorem Steps.hasError_of_fails (reached : Steps setting {} run) (fails : run.Fails setting)
    {root : Subtree} {steps : Nat} (ends : Ends setting root steps run) :
    root.marks.hasError = true := by
  rcases fails with repairs | ⟨token, givesUp⟩
  · obtain ⟨next, running, wrong⟩ := wrong_of_isRepair consistent
      (reached.secure consistent known)
      (reached.throughout consistent known (closed_flagged _) offers) repairs
    have one : Steps setting run next := .head running .refl
    obtain ⟨fewer, rest⟩ := ends.of_steps one
    exact (reached.trans one).hasError_of_wrong consistent known offers wrong rest
  · cases ends with
    | now finished => exact hasError_of_givesUp finished givesUp
    | later running =>
      -- a run that gives up does not go on
      rw [step] at running
      rcases givesUp with move | ⟨move, -⟩ <;> rw [move] at running <;> cases running

/-- The parse of a run that fails has an error, also if it is stopped on the way. -/
theorem Steps.hasError_parse (reached : Steps setting {} run) (fails : run.Fails setting) :
    setting.parse.1.marks.hasError = true := by
  obtain ⟨last, there, ⟨reused, finished⟩ | stopped⟩ := parse_cases setting
  · obtain ⟨steps, ends⟩ := there.ends finished
    obtain ⟨fewer, rest⟩ := ends.of_steps reached
    exact reached.hasError_of_fails consistent known offers fails rest
  · rw [stopped]
    exact hasError_giveUp _

end Parse

end Run

/-! ### Any history -/

/-- **The mark of an error is exact, and errors never vanish.**  In each tree of a loaded
language, whatever parses and edits it comes from, the nodes with the mark are those that are
errors or have one below them.  If a parse of the language, from whatever old tree, comes to
where it inserts, wraps or skips something or gives up, then each root that it can end with
from there on has the mark, and the root of the parse has it. -/
theorem Tree.errors_exact {table : Table} {origin : Nat}
    (loaded : table.load origin = .ok language) :
    (∀ tree : Tree, tree.Grown language →
      Throughout (fun node => node.marks.hasError = true ↔ Somewhere Erroneous node) tree.root) ∧
    ∀ (config : Config) (text : Text) (old : Option Tree),
      (∀ tree, old = some tree → tree.language = language → tree.Grown language) →
      ∀ run, Run.Steps (config.setting language text old) {} run →
        run.Fails (config.setting language text old) →
        (∀ root steps, Run.Ends (config.setting language text old) root steps run →
          root.marks.hasError = true) ∧
        (language.parse config text old).1.root.marks.hasError = true := by
  have consistent := Table.consistent_of_load loaded
  constructor
  · intro tree grown
    apply (grown.regular consistent).everywhere
    intro _ node regular
    exact hasError_iff regular
  · intro config text old grown run reached fails
    have known := config.known_old consistent text grown
    have offers := config.flagged_old consistent text grown
    constructor
    · intro root steps ends
      exact reached.hasError_of_fails consistent known offers fails ends
    · exact reached.hasError_parse consistent known offers fails

end Runs

namespace Mishap

/-- Two letters that do not fit, parsed with the tree of the first one. -/
@[irreducible] def spoiled : Tree :=
  (language.parse {} "bb".toList (some doubled)).1

theorem grown_spoiled : spoiled.Grown language := by
  unfold spoiled
  apply Tree.Grown.parse
  intro tree same _
  rw [← Option.some.inj same]
  exact grown_doubled

/-- The first letter is wrapped, and so the root has an error. -/
theorem errors_exact_spoiled :
    spoiled.Grown language ∧
    Throughout (fun node => node.marks.hasError = true ↔ Somewhere Erroneous node) spoiled.root ∧
    Run.Fails (({} : Config).setting language "bb".toList (some doubled)) {} ∧
    spoiled.root.marks.hasError = true := by
  obtain ⟨exactly, stays⟩ := Tree.errors_exact load_encode
  have grown : ∀ tree, some doubled = some tree → tree.language = language →
      tree.Grown language := by
    rintro tree ⟨⟩ -
    exact grown_doubled
  have fails : Run.Fails (({} : Config).setting language "bb".toList (some doubled)) {} := .inl rfl
  have marked := (stays {} "bb".toList (some doubled) grown {} .refl fails).2
  refine ⟨grown_spoiled, exactly spoiled grown_spoiled, fails, ?_⟩
  unfold spoiled
  exact marked

end Mishap

end Reparse
