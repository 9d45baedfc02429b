/-
Reparse/Proofs/Run/Wrong.lean

Errors stay.

A node has an error if one of its children has, and no move takes a subtree
off the stack but to put it into a node.  So an error that is once on the stack
of a parse is one of its root.
-/
import Reparse.Proofs.Run.Repair

namespace Reparse

open Subtree

/-! ### Rows with errors -/

/-- Whether a subtree of a row has an error. -/
def anyError (trees : List Subtree) : Bool :=
  trees.any (·.marks.hasError)

@[simp] theorem anyError_nil : anyError [] = false := rfl

@[simp] theorem anyError_cons (tree : Subtree) (trees : List Subtree) :
    anyError (tree :: trees) = (tree.marks.hasError || anyError trees) := rfl

@[simp] theorem anyError_append (xs ys : List Subtree) :
    anyError (xs ++ ys) = (anyError xs || anyError ys) :=
  List.any_append

@[simp] theorem anyError_map_bare (trees : List Subtree) :
    anyError (trees.map bare) = anyError trees := by
  simp [anyError, List.any_map, Function.comp_def]

theorem hasError_node (language : Language) (symbol : Symbol) (children : List Subtree)
    (state : StateId) :
    (node language symbol children state).marks.hasError =
      ((symbolMarks language symbol).recovery || decide (symbol = errorSymbol) ||
        anyError children) := by
  rw [marks_node]
  rfl

theorem hasError_errorNode (language : Language) (children : List Subtree) (state : StateId) :
    (errorNode language children state).marks.hasError = true := by
  rw [marks_errorNode]

mutual

/-- An error production is an error. -/
theorem hasError_of_firstRepair? {language : Language} (tree : Subtree)
    (intact : Throughout (Intact language) tree) (h : (firstRepair? tree).isSome = true) :
    tree.marks.hasError = true := by
  obtain ⟨head, children⟩ := tree
  rw [intact.self.error]
  rw [firstRepair?] at h
  split at h
  · simp [marks, Subtree.head, *]
  · have below := anyError_of_firstRepairAmong? children (throughout_iff.mp intact).2 h
    rw [show (mk head children).children.any (·.marks.hasError) = anyError children from rfl,
      below, Bool.or_true]

theorem anyError_of_firstRepairAmong? {language : Language} (trees : List Subtree)
    (intact : ∀ tree ∈ trees, Throughout (Intact language) tree)
    (h : (firstRepairAmong? trees).isSome = true) : anyError trees = true := by
  cases trees with
  | nil => simp [firstRepairAmong?] at h
  | cons tree rest =>
    rw [firstRepairAmong?, Option.isSome_or, Bool.or_eq_true] at h
    rw [anyError_cons, Bool.or_eq_true]
    exact h.imp (hasError_of_firstRepair? tree (intact tree (by simp)))
      (anyError_of_firstRepairAmong? rest fun t m => intact t (by simp [m]))

end

/-! ### Steps -/

namespace Run

/-- Whether there is an error on the stack. -/
def wrong (run : Run) : Bool :=
  anyError run.stack.subtrees

@[simp] theorem wrong_bare (run : Run) : run.bare.wrong = run.wrong := by
  simp [wrong]

end Run

variable {language : Language} {setting : Setting} {run : Run}

/-- A reduction keeps errors. -/
theorem anyError_reduce? {stack reduced : Stack} {made : Symbol} {count : UInt8}
    {token : Subtree} (h : stack.reduce? language made count token = some reduced) :
    anyError reduced.subtrees =
      ((symbolMarks language made).recovery || decide (made = errorSymbol) ||
        anyError stack.subtrees) := by
  obtain ⟨children, rest, target, taken, -, rfl⟩ := Stack.reduce?_eq_some_iff.mp h
  rw [subtrees_of_takeOff taken, Stack.subtrees_append, Stack.subtrees_cons,
    Stack.subtrees_moved]
  simp only [anyError_append, anyError_cons, anyError_nil, marks_needing, hasError_node]
  grind

/-- Skipped input is an error. -/
theorem anyError_skip {stack : Stack} {token : Subtree}
    (flagged : ∀ entry ∈ stack, Flagged language entry.subtree) (own : Flagged language token) :
    anyError (stack.skip language token).subtrees = true := by
  have marked {tree : Subtree} (h : Flagged language tree) (error : tree.symbol = errorSymbol) :
      tree.marks.hasError = true := by
    rw [h.error, error]
    simp
  have alone (state : StateId) : (if token.isErrorToken then token
      else errorNode language [token] state).marks.hasError = true := by
    split
    · exact marked own (isErrorToken_iff.mp ‹_›).1
    · exact hasError_errorNode ..
  cases stack with
  | nil => simp [Stack.skip, alone]
  | cons entry below =>
    simp only [Stack.skip]
    split
    · rename_i joins
      simp only [Bool.and_eq_true, decide_eq_true_eq] at joins
      have merged (state : StateId) :
          (Stack.mergeErrors language entry.subtree token state).marks.hasError = true := by
        simp only [Stack.mergeErrors]
        split
        · show entry.subtree.marks.hasError = true
          exact marked (flagged entry (by simp)) joins.1
        · exact hasError_errorNode ..
      simp [merged]
    · simp [alone]

/-- **An error on the stack stays there.** -/
theorem wrong_make (flagged : ∀ entry ∈ run.stack, Flagged setting.language entry.subtree)
    {lookahead : Lookahead} {move : Move} (choice : run.Choice setting lookahead move)
    (token : Flagged setting.language lookahead.token) {next : Run}
    (running : run.make setting move = .running next) (wrong : run.wrong = true) :
    next.wrong = true := by
  simp only [Run.wrong] at wrong
  cases choice with
  | shift action =>
    cases running
    simp [Run.wrong, Run.push, wrong]
  | reduce action reduced =>
    cases running
    simp [Run.wrong, anyError_reduce? reduced, wrong]
  | accept => simp [Run.make] at running
  | reduceByDefault budget default reduced =>
    cases running
    simp [Run.wrong, anyError_reduce? reduced, wrong]
  | insert =>
    cases running
    simp [Run.wrong, wrong]
  | wrap =>
    cases running
    simp [Run.wrong, Run.push, wrong]
  | skip =>
    cases running
    exact anyError_skip flagged token
  | giveUp => simp [Run.make] at running

/-! ### Results -/

theorem hasError_giveUp (token : Subtree) : (run.giveUp setting token).marks.hasError = true := by
  rw [giveUp_eq, hasError_node]
  simp

/-- A complete parse has the errors of its stack and of its last token. -/
theorem hasError_accept {entry : Entry} {rest : Stack} {token : Subtree}
    (below : run.stack.belowExtras = entry :: rest)
    (flagged : Flagged setting.language entry.subtree) :
    (run.accept setting token).marks.hasError = (run.wrong || token.marks.hasError) := by
  have split := run.stack.extras_append_belowExtras
  rw [below] at split
  have own := flagged.error
  have missing := flagged.missing
  rw [flagged.recovery] at own missing
  have middle : ((symbolMarks setting.language entry.subtree.symbol).recovery ||
      decide (entry.subtree.symbol = errorSymbol) ||
      anyError (if entry.subtree.marks.token then [entry.subtree] else entry.subtree.children)) =
        entry.subtree.marks.hasError := by
    rw [own, show entry.subtree.children.any (·.marks.hasError) =
      anyError entry.subtree.children from rfl]
    rcases atom : entry.subtree.marks.token with - | - <;>
      simp only [Bool.false_eq_true, if_false, if_true, anyError_cons, anyError_nil, own,
        show entry.subtree.children.any (·.marks.hasError) =
          anyError entry.subtree.children from rfl] <;>
      grind
  rw [accept_eq below, hasError_node, Run.wrong, ← split, Stack.subtrees_append,
    Stack.subtrees_cons]
  simp only [anyError_append, anyError_cons, anyError_nil, ← middle]
  grind

end Reparse
