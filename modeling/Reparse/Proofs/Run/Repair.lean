/-
Reparse/Proofs/Run/Repair.lean

The first error production on the stack of a parse.

Moves add to the end of the stack or put a row of it into one node, so the
first error production stays the first one as long as no reduction wraps it
into another.  In the end it is the first one of the root.
-/
import Reparse.Proofs.Run.Bare
import Reparse.Proofs.Tree.Sight

namespace Reparse

open Subtree

variable {language : Language}

theorem recovery_errorSymbol : (symbolMarks language errorSymbol).recovery = false := by
  rw [symbolMarks, Language.flags, if_pos rfl]
  decide

namespace Subtree

@[simp] theorem firstRepair?_needing (tree : Subtree) (needed : Nat) :
    firstRepair? (tree.needing needed) = firstRepair? tree := by
  rw [firstRepair?_eq, firstRepair?_eq tree]
  rfl

theorem firstRepair?_node (symbol : Symbol) (children : List Subtree) (state : StateId) :
    firstRepair? (node language symbol children state) =
      if (symbolMarks language symbol).recovery then some symbol
      else firstRepairAmong? children := by
  rw [firstRepair?_eq, marks_node, symbol_node, children_node]

@[simp] theorem firstRepair?_errorNode (children : List Subtree) (state : StateId) :
    firstRepair? (errorNode language children state) = firstRepairAmong? children := by
  rw [firstRepair?_eq, marks_errorNode, symbol_errorNode, children_errorNode,
    recovery_errorSymbol]
  rfl

theorem firstRepair?_missing {symbol : Symbol} (h : (symbolMarks language symbol).recovery = true)
    (state : StateId) : firstRepair? (missing language symbol state) = some symbol := by
  rw [firstRepair?_eq]
  exact if_pos h

/-- Skipped input that is not in parts has no error productions. -/
theorem firstRepair?_errorToken {tree : Subtree} (intact : Intact language tree)
    (h : tree.isErrorToken = true) : firstRepair? tree = none := by
  obtain ⟨error, atom⟩ := isErrorToken_iff.mp h
  rw [firstRepair?_eq, intact.recovery, error, recovery_errorSymbol, intact.atom atom]
  rfl

theorem firstRepair?_extended {tree : Subtree} (intact : Intact language tree)
    (h : tree.isErrorToken = true) (size lookahead : Nat) :
    firstRepair? (tree.extended size lookahead) = none :=
  firstRepair?_errorToken (intact.extended (isErrorToken_iff.mp h).2 size lookahead) h

mutual

/-- Without error productions none of them has consumed input. -/
theorem hasConsumedRecovery_of_firstRepair? (tree : Subtree) (h : firstRepair? tree = none) :
    hasConsumedRecovery tree = false := by
  obtain ⟨head, children⟩ := tree
  rw [firstRepair?] at h
  split at h
  · cases h
  · rename_i plain
    rw [hasConsumedRecovery, anyConsumedRecovery_of_firstRepairAmong? children h]
    simp [plain]

theorem anyConsumedRecovery_of_firstRepairAmong? (trees : List Subtree)
    (h : firstRepairAmong? trees = none) : anyConsumedRecovery trees = false := by
  cases trees with
  | nil => rfl
  | cons tree rest =>
    rw [firstRepairAmong?, Option.or_eq_none_iff] at h
    rw [anyConsumedRecovery, hasConsumedRecovery_of_firstRepair? tree h.1,
      anyConsumedRecovery_of_firstRepairAmong? rest h.2]
    rfl

end

end Subtree

theorem Stack.hasConsumedRecovery_of_firstRepairAmong? {stack : Stack}
    (h : firstRepairAmong? stack.subtrees = none) : stack.hasConsumedRecovery = false := by
  induction stack with
  | nil => rfl
  | cons entry below ih =>
    rw [subtrees_cons, firstRepairAmong?_append, firstRepairAmong?_singleton,
      Option.or_eq_none_iff] at h
    rw [hasConsumedRecovery, List.any_cons, hasConsumedRecovery_of_firstRepair? _ h.2]
    exact ih h.1

theorem firstRepairAmong?_bare (stack : Stack) :
    firstRepairAmong? stack.bare.subtrees = firstRepairAmong? stack.subtrees := by
  rw [Stack.subtrees_bare, ← bares_eq_map, firstRepairAmong?_bares]

/-! ### Skipped input -/

theorem firstRepairAmong?_addSkipped {children : List Subtree} {token : Subtree}
    (hc : ∀ child ∈ children, Intact language child) (ht : Intact language token) :
    firstRepairAmong? (Stack.addSkipped children token) =
      (firstRepairAmong? children).or (firstRepair? token) := by
  fun_induction Stack.addSkipped children token with
  | case1 => simp [firstRepairAmong?]
  | case2 last token joined =>
    simp only [Bool.and_eq_true] at joined
    rw [firstRepairAmong?_singleton, firstRepairAmong?_singleton, joinErrorTokens_eq,
      firstRepair?_extended (hc last (by simp)) joined.1,
      firstRepair?_errorToken (hc last (by simp)) joined.1, firstRepair?_errorToken ht joined.2]
    rfl
  | case3 last token joined => simp [firstRepairAmong?]
  | case4 first second rest token ih =>
    rw [firstRepairAmong?, ih (fun child m => hc child (by simp [m])) ht,
      firstRepairAmong?.eq_2 first, Option.or_assoc]

theorem firstRepair?_mergeErrors {previous token : Subtree}
    (hp : Throughout (Intact language) previous) (error : previous.symbol = errorSymbol)
    (ht : Intact language token) (state : StateId) :
    firstRepair? (Stack.mergeErrors language previous token state) =
      (firstRepair? previous).or (firstRepair? token) := by
  have plain : previous.marks.recovery = false := by
    rw [hp.self.recovery, error, recovery_errorSymbol]
  simp only [Stack.mergeErrors]
  split
  · rename_i joined
    simp only [Bool.and_eq_true] at joined
    rw [joinErrorTokens_eq, firstRepair?_extended hp.self joined.1,
      firstRepair?_errorToken hp.self joined.1, firstRepair?_errorToken ht joined.2]
    rfl
  · rcases atom : previous.marks.token with - | -
    · rw [firstRepair?_errorNode, if_neg (by simp), firstRepairAmong?_addSkipped
        (fun child m => (hp.child m).self) ht, firstRepair?_eq previous, plain]
      rfl
    · rw [firstRepair?_errorNode, if_pos rfl, firstRepairAmong?_addSkipped
        (fun child m => by rw [List.mem_singleton.mp m]; exact hp.self) ht,
        firstRepairAmong?_singleton]

theorem firstRepairAmong?_skip {stack : Stack} {token : Subtree}
    (hs : ∀ entry ∈ stack, Throughout (Intact language) entry.subtree)
    (ht : Intact language token) :
    firstRepairAmong? (stack.skip language token).subtrees =
      (firstRepairAmong? stack.subtrees).or (firstRepair? token) := by
  have alone (state : StateId) : firstRepair? (if token.isErrorToken then token
      else errorNode language [token] state) = firstRepair? token := by
    split
    · rfl
    · simp
  cases stack with
  | nil => simp [Stack.skip, alone, firstRepairAmong?]
  | cons entry below =>
    simp only [Stack.skip]
    split
    · rename_i joins
      simp only [Bool.and_eq_true, decide_eq_true_eq] at joins
      rw [Stack.subtrees_cons, Stack.subtrees_cons, firstRepairAmong?_append,
        firstRepairAmong?_append, firstRepairAmong?_singleton, firstRepairAmong?_singleton,
        firstRepair?_mergeErrors (hs entry (by simp)) joins.1 ht, Option.or_assoc]
    · rw [Stack.subtrees_cons, firstRepairAmong?_append, firstRepairAmong?_singleton, alone]

/-! ### Reductions -/

/-- A reduction changes only what becomes of the row it takes. -/
theorem firstRepairAmong?_reduce? {stack reduced : Stack} {made : Symbol} {count : UInt8}
    {token : Subtree} (h : stack.reduce? language made count token = some reduced) :
    ∃ children rest, Stack.takeOff count.toNat stack.belowExtras [] = (children, rest) ∧
      firstRepairAmong? stack.subtrees =
        ((firstRepairAmong? (Stack.subtrees rest)).or (firstRepairAmong? children)).or
          (firstRepairAmong? stack.extras.subtrees) ∧
      firstRepairAmong? reduced.subtrees =
        ((firstRepairAmong? (Stack.subtrees rest)).or
          (if (symbolMarks language made).recovery then some made
            else firstRepairAmong? children)).or
          (firstRepairAmong? stack.extras.subtrees) := by
  obtain ⟨children, rest, target, taken, -, rfl⟩ := Stack.reduce?_eq_some_iff.mp h
  refine ⟨children, rest, taken, ?_, ?_⟩
  · rw [subtrees_of_takeOff taken, firstRepairAmong?_append, firstRepairAmong?_append]
  · rw [Stack.subtrees_append, Stack.subtrees_cons, Stack.subtrees_moved,
      firstRepairAmong?_append, firstRepairAmong?_append, firstRepairAmong?_singleton,
      firstRepair?_needing, firstRepair?_node]

/-- A reduction of an ordinary production keeps the first error production. -/
theorem firstRepairAmong?_reduce?_plain {stack reduced : Stack} {made : Symbol} {count : UInt8}
    {token : Subtree} (h : stack.reduce? language made count token = some reduced)
    (plain : (symbolMarks language made).recovery = false) :
    firstRepairAmong? reduced.subtrees = firstRepairAmong? stack.subtrees := by
  obtain ⟨children, rest, -, before, after⟩ := firstRepairAmong?_reduce? h
  rw [after, before, plain]
  rfl

/-! ### Results -/

variable {setting : Setting} {run : Run} {token : Subtree}

theorem firstRepair?_giveUp (ht : Intact setting.language token)
    (stop : (symbolMarks setting.language endSymbol).recovery = false) :
    firstRepair? (run.giveUp setting token) =
      (firstRepairAmong? run.stack.subtrees).or (firstRepair? token) := by
  have bare (symbol : Symbol) (h : (symbolMarks setting.language symbol).recovery = false)
      (size : Nat) :
      firstRepair? (Subtree.token setting.language symbol 0 size 0 errorState) = none := by
    rw [firstRepair?_eq]
    simp [Subtree.token, marks, head, Subtree.children, h, firstRepairAmong?]
  rw [giveUp_eq, firstRepair?_node, recovery_errorSymbol, if_neg (by simp),
    firstRepairAmong?_append]
  congr 1
  simp only [Run.tail]
  split
  · simp
  · split
    · rename_i error
      simp [firstRepairAmong?, firstRepair?_extended ht error, firstRepair?_errorToken ht error,
        bare endSymbol stop]
    · split
      · simp [firstRepairAmong?, bare endSymbol stop, bare errorSymbol recovery_errorSymbol]
      · simp [firstRepairAmong?, bare endSymbol stop]

theorem firstRepair?_accept {entry : Entry} {rest : Stack}
    (below : run.stack.belowExtras = entry :: rest)
    (intact : Intact setting.language entry.subtree)
    (plain : (symbolMarks setting.language entry.subtree.symbol).recovery = false) :
    firstRepair? (run.accept setting token) =
      (firstRepairAmong? run.stack.subtrees).or (firstRepair? token) := by
  have middle : firstRepairAmong? (if entry.subtree.marks.token then [entry.subtree]
      else entry.subtree.children) = firstRepair? entry.subtree := by
    split
    · simp
    · rw [firstRepair?_eq entry.subtree, intact.recovery, plain]
      rfl
  rw [accept_eq below, firstRepair?_node, plain, if_neg (by simp)]
  simp only [firstRepairAmong?_append, firstRepairAmong?_singleton, middle]
  conv => rhs; rw [← run.stack.extras_append_belowExtras, below]
  rw [Stack.subtrees_append, Stack.subtrees_cons]
  simp only [firstRepairAmong?_append, firstRepairAmong?_singleton]

end Reparse
