/-
Reparse/Proofs/Run/Consumed.lean

No repair behind an error production that has consumed input.

Reductions bury an error production and other subtrees come to stand behind it,
but no move takes it off the stack without putting it into a node, and the node
has an error then.  So the search for it, which only looks below errors, finds
it until the parse ends, and every further repair is refused: `Steps.consumed`.
As wrapping a token makes such an error production, a parse wraps at most once.

That the search finds all of them, also in what came from an old tree, is owed
to the errors that regular subtrees sum up: `hasConsumedRecovery_iff`.
-/
import Reparse.Proofs.Tree.Grown

namespace Reparse

open Subtree

/-! ### Somewhere in a subtree -/

namespace Subtree

/-- Whether a node of a subtree has a property. -/
inductive Somewhere (P : Subtree → Prop) : Subtree → Prop
  | here {tree : Subtree} (h : P tree) : Somewhere P tree
  | deeper {tree child : Subtree} (within : child ∈ tree.children) (h : Somewhere P child) :
      Somewhere P tree

/-- Whether a node is an error production that was not put in by recovery without width. -/
def Consumed (tree : Subtree) : Prop :=
  tree.marks.recovery = true ∧ tree.marks.missing = false

theorem anyConsumedRecovery_eq_any (trees : List Subtree) :
    anyConsumedRecovery trees = trees.any hasConsumedRecovery := by
  induction trees with
  | nil => rfl
  | cons tree trees ih => rw [anyConsumedRecovery, ih, List.any_cons]

theorem hasConsumedRecovery_iff_below {tree : Subtree} :
    tree.hasConsumedRecovery = true ↔ tree.marks.hasError = true ∧
      (Consumed tree ∨ ∃ child ∈ tree.children, child.hasConsumedRecovery = true) := by
  obtain ⟨head, children⟩ := tree
  rw [hasConsumedRecovery, anyConsumedRecovery_eq_any]
  simp only [Bool.and_eq_true, Bool.or_eq_true, Bool.not_eq_true', List.any_eq_true]
  rfl

mutual

theorem somewhere_of_hasConsumedRecovery (tree : Subtree) (h : tree.hasConsumedRecovery = true) :
    Somewhere Consumed tree := by
  obtain ⟨head, children⟩ := tree
  obtain ⟨-, here | below⟩ := hasConsumedRecovery_iff_below.mp h
  · exact .here here
  · obtain ⟨child, within, found⟩ := somewhere_of_any children below
    exact .deeper within found

theorem somewhere_of_any (trees : List Subtree)
    (h : ∃ tree ∈ trees, tree.hasConsumedRecovery = true) :
    ∃ tree ∈ trees, Somewhere Consumed tree := by
  cases trees with
  | nil => simp at h
  | cons tree trees =>
    obtain ⟨found, within, h⟩ := h
    rcases List.mem_cons.mp within with same | within
    · exact ⟨tree, List.mem_cons_self, somewhere_of_hasConsumedRecovery tree (same ▸ h)⟩
    · obtain ⟨found, within, h⟩ := somewhere_of_any trees ⟨found, within, h⟩
      exact ⟨found, List.mem_cons_of_mem tree within, h⟩

end

/-- **The search finds all error productions that have consumed input**, where errors are
summed up. -/
theorem hasConsumedRecovery_iff {tree : Subtree} (regular : Throughout Regular tree) :
    tree.hasConsumedRecovery = true ↔ Somewhere Consumed tree := by
  refine ⟨somewhere_of_hasConsumedRecovery tree, fun h => ?_⟩
  -- from the error production up: each node above it has an error, so the search goes on below
  induction h with
  | here h =>
    refine hasConsumedRecovery_iff_below.mpr ⟨?_, .inl h⟩
    rw [regular.self.error, h.1]
    rfl
  | deeper within h ih =>
    have found := ih (regular.child within)
    have wrong := (hasConsumedRecovery_iff_below.mp found).1
    refine hasConsumedRecovery_iff_below.mpr ⟨?_, .inr ⟨_, within, found⟩⟩
    rw [regular.self.error, List.any_eq_true.mpr ⟨_, within, wrong⟩, Bool.or_true]

/-! ### Nodes -/

variable {language : Language}

/-- A node buries what is in its children. -/
theorem hasConsumedRecovery_node (symbol : Symbol) {children : List Subtree} {child : Subtree}
    (within : child ∈ children) (h : child.hasConsumedRecovery = true) (state : StateId) :
    (node language symbol children state).hasConsumedRecovery = true := by
  have wrong := (hasConsumedRecovery_iff_below.mp h).1
  refine hasConsumedRecovery_iff_below.mpr ⟨?_, .inr ⟨child, within, h⟩⟩
  have any : children.any (·.marks.hasError) = true :=
    List.any_eq_true.mpr ⟨child, within, wrong⟩
  rw [marks_node]
  simp only [any, Bool.or_true]

/-- A node of an error production is one that has consumed input. -/
theorem hasConsumedRecovery_wrapped {symbol : Symbol}
    (recovery : (symbolMarks language symbol).recovery = true) (children : List Subtree)
    (state : StateId) : (node language symbol children state).hasConsumedRecovery = true := by
  refine hasConsumedRecovery_iff_below.mpr ⟨?_, .inl ⟨?_, ?_⟩⟩
  · rw [marks_node]
    simp only [recovery, Bool.true_or]
  · rw [marks_node]
    exact recovery
  · rw [marks_node]
    rfl

theorem hasConsumedRecovery_needing (tree : Subtree) (needed : Nat) :
    (tree.needing needed).hasConsumedRecovery = tree.hasConsumedRecovery := by
  obtain ⟨head, children⟩ := tree
  rfl

end Subtree

/-! ### Stacks -/

namespace Stack

theorem mem_subtrees {stack : Stack} {tree : Subtree} :
    tree ∈ stack.subtrees ↔ ∃ entry ∈ stack, entry.subtree = tree := by
  simp [subtrees]

/-- What holds throughout the subtrees of a stack holds of those of its entries. -/
theorem entry_of_throughout {P : Subtree → Prop} {stack : Stack}
    (h : ∀ tree ∈ stack.subtrees, Throughout P tree) {entry : Entry} (within : entry ∈ stack) :
    P entry.subtree :=
  (h entry.subtree (mem_subtrees.mpr ⟨entry, within, rfl⟩)).self

theorem hasConsumedRecovery_iff_subtrees {stack : Stack} :
    stack.hasConsumedRecovery = true ↔
      ∃ tree ∈ stack.subtrees, tree.hasConsumedRecovery = true := by
  simp only [hasConsumedRecovery, List.any_eq_true, mem_subtrees]
  constructor
  · rintro ⟨entry, within, found⟩
    exact ⟨entry.subtree, ⟨entry, within, rfl⟩, found⟩
  · rintro ⟨_, ⟨entry, within, rfl⟩, found⟩
    exact ⟨entry, within, found⟩

/-- A reduction takes no error production off the stack. -/
theorem hasConsumedRecovery_reduce? {language : Language} {stack reduced : Stack}
    {symbol : Symbol} {count : UInt8} {token : Subtree}
    (h : stack.reduce? language symbol count token = some reduced)
    (consumed : stack.hasConsumedRecovery = true) : reduced.hasConsumedRecovery = true := by
  obtain ⟨children, rest, target, taken, -, rfl⟩ := reduce?_eq_some_iff.mp h
  obtain ⟨tree, within, found⟩ := hasConsumedRecovery_iff_subtrees.mp consumed
  rw [subtrees_of_takeOff taken, List.mem_append, List.mem_append] at within
  rw [hasConsumedRecovery_iff_subtrees, subtrees_append, subtrees_cons, subtrees_moved]
  rcases within with (below | buried) | above
  · exact ⟨tree, by simp [below], found⟩
  · refine ⟨(node language symbol children rest.top).needing (stack.needed token), by simp, ?_⟩
    rw [hasConsumedRecovery_needing]
    exact hasConsumedRecovery_node symbol buried found rest.top
  · exact ⟨tree, by simp [above], found⟩

theorem hasConsumedRecovery_cons (entry : Entry) {stack : Stack}
    (h : entry.subtree.hasConsumedRecovery = true ∨ stack.hasConsumedRecovery = true) :
    Stack.hasConsumedRecovery (entry :: stack) = true := by
  rw [hasConsumedRecovery, List.any_cons, Bool.or_eq_true]
  exact h

end Stack

/-! ### Moves -/

/-- Whether a move repairs the text: it puts in an error production without width, wraps
the lookahead into one, or skips the lookahead. -/
def Move.isRepair : Move → Bool
  | .insert .. | .wrap .. | .skip .. => true
  | .reuse .. | .shift .. | .reduce .. | .accept .. | .reduceByDefault .. | .giveUp .. => false

def Move.isWrap : Move → Bool
  | .wrap .. => true
  | _ => false

namespace Run

variable {setting : Setting} {run : Run}

/-- A move is the reuse of a subtree or one on the current token. -/
theorem move_cases (setting : Setting) (run : Run) :
    (∃ subtree target, run.move setting = .reuse subtree target) ∨
      run.move setting = run.moveOn setting (run.current setting) := by
  rw [move]
  rcases run.lookahead with - | lookahead
  · rcases run.reusable? setting with - | ⟨subtree, target⟩
    · exact .inr rfl
    · exact .inl ⟨subtree, target, rfl⟩
  · exact .inr rfl

/-- **Behind an error production that has consumed input there is no repair.** -/
theorem isRepair_move (consumed : run.stack.hasConsumedRecovery = true) :
    (run.move setting).isRepair = false := by
  rcases move_cases setting run with ⟨subtree, target, e⟩ | e
  · rw [e]
    rfl
  · have choice := choice_moveOn setting run (run.current setting)
    rw [e]
    generalize run.moveOn setting (run.current setting) = move at choice
    cases choice with
    | shift | reduce | accept | reduceByDefault | giveUp => rfl
    | insert _ _ intact => rw [consumed] at intact; cases intact
    | wrap _ _ _ intact => rw [consumed] at intact; cases intact
    | skip _ _ _ _ intact => rw [consumed] at intact; cases intact

/-- **It stays on the stack**, as it is or in a node. -/
theorem hasConsumedRecovery_step (consumed : run.stack.hasConsumedRecovery = true) {next : Run}
    (running : run.step setting = .running next) : next.stack.hasConsumedRecovery = true := by
  rcases running_cases running with ⟨subtree, target, -, -, rfl⟩ | turned
  · exact Stack.hasConsumedRecovery_cons _ (.inr consumed)
  · obtain ⟨move, choice, running⟩ := exists_choice turned
    cases choice with
    | shift => cases running; exact Stack.hasConsumedRecovery_cons _ (.inr consumed)
    | reduce _ reduced => cases running; exact Stack.hasConsumedRecovery_reduce? reduced consumed
    | reduceByDefault _ _ reduced =>
      cases running
      exact Stack.hasConsumedRecovery_reduce? reduced consumed
    | accept | giveUp => cases running
    | insert _ _ intact => rw [consumed] at intact; cases intact
    | wrap _ _ _ intact => rw [consumed] at intact; cases intact
    | skip _ _ _ _ intact => rw [consumed] at intact; cases intact

theorem Steps.consumed {later : Run} (reached : Steps setting run later)
    (consumed : run.stack.hasConsumedRecovery = true) :
    later.stack.hasConsumedRecovery = true ∧ (later.move setting).isRepair = false := by
  have stays : later.stack.hasConsumedRecovery = true :=
    reached.of_invariant (fun _ _ h running => hasConsumedRecovery_step h running) consumed
  exact ⟨stays, isRepair_move stays⟩

/-! ### Wrapping -/

/-- Wrapping a token makes an error production that has consumed input. -/
theorem step_of_isWrap (consistent : setting.language.Consistent)
    (wraps : (run.move setting).isWrap = true) :
    ∃ next, run.step setting = .running next ∧ next.stack.hasConsumedRecovery = true := by
  rcases move_cases setting run with ⟨subtree, target, e⟩ | e
  · rw [e] at wraps
    cases wraps
  · have choice := choice_moveOn setting run (run.current setting)
    rw [step, e]
    rw [e] at wraps
    generalize run.moveOn setting (run.current setting) = move at choice wraps
    cases choice with
    | wrap _ repair =>
      refine ⟨_, rfl, Stack.hasConsumedRecovery_cons _ (.inl ?_)⟩
      exact hasConsumedRecovery_wrapped (consistent.repairs repair).2.2 _ run.state
    | shift | reduce | accept | reduceByDefault | insert | skip | giveUp => cases wraps

end Run

namespace Progress

variable (setting : Setting)

theorem advance_finished (steps : Nat) (root : Subtree) (reused : Nat) :
    advance setting steps (.finished root reused) = .finished root reused := by
  cases steps <;> rfl

theorem advance_add (first more : Nat) (progress : Progress) :
    advance setting (first + more) progress =
      advance setting more (advance setting first progress) := by
  induction first generalizing progress with
  | zero => rw [Nat.zero_add]; rfl
  | succ first ih =>
    rw [Nat.succ_add]
    cases progress with
    | running run => exact ih (run.step setting)
    | finished root reused => rw [advance_finished, advance_finished, advance_finished]

end Progress

namespace Run

variable {setting : Setting}

/-- After a run that wraps a token there is none that does. -/
theorem not_isWrap_of_lt (consistent : setting.language.Consistent) {i j : Nat} {run : Run}
    {first second : Run} (here : Progress.advance setting i (.running run) = .running first)
    (there : Progress.advance setting j (.running run) = .running second) (before : i < j)
    (wraps : (first.move setting).isWrap = true) : (second.move setting).isWrap = false := by
  obtain ⟨next, running, consumed⟩ := step_of_isWrap consistent wraps
  -- the second run is one that the step behind the first has come to
  obtain ⟨more, rfl⟩ : ∃ more, j = i + (more + 1) := ⟨j - i - 1, by omega⟩
  rw [Progress.advance_add, here, Progress.advance, running] at there
  rcases advance_cases setting more next with ⟨last, reached, e⟩ | ⟨last, root, reused, -, -, e⟩
  · rw [e] at there
    cases there
    have none := (reached.consumed consumed).2
    generalize second.move setting = move at none
    cases move with
    | wrap => cases none
    | reuse | shift | reduce | accept | reduceByDefault | insert | skip | giveUp => rfl
  · rw [e] at there
    cases there

/-! ### Any history -/

/-- **No repair after a consumed error production.**  Wherever a parse of a loaded language
comes to, from whatever old tree, the search on the stack finds exactly the error
productions that were not put in without width.  Once there is one, there is one until the
parse ends, and no later move inserts, wraps or skips.  So at most one step of a parse
wraps its lookahead. -/
theorem repairs_end {language : Language} {table : Table} {origin : Nat}
    (loaded : table.load origin = .ok language) (config : Config) (text : Text)
    {old : Option Tree}
    (grown : ∀ tree, old = some tree → tree.language = language → tree.Grown language) :
    (∀ run, Steps (config.setting language text old) {} run →
      (run.stack.hasConsumedRecovery = true ↔
        ∃ entry ∈ run.stack, Somewhere Consumed entry.subtree) ∧
      (run.stack.hasConsumedRecovery = true →
        ∀ later, Steps (config.setting language text old) run later →
          later.stack.hasConsumedRecovery = true ∧
            (later.move (config.setting language text old)).isRepair = false)) ∧
    (∀ i j first second,
      Progress.advance (config.setting language text old) i (.running {}) = .running first →
      Progress.advance (config.setting language text old) j (.running {}) = .running second →
      (first.move (config.setting language text old)).isWrap = true →
      (second.move (config.setting language text old)).isWrap = true → i = j) := by
  have consistent : (config.setting language text old).language.Consistent :=
    Table.consistent_of_load loaded
  refine ⟨fun run reached => ⟨?_, fun consumed later after => after.consumed consumed⟩, ?_⟩
  · have row := reached.throughout consistent (config.known_old consistent text grown)
      (closed_regular language) (config.regular_old consistent text grown)
    have regular : ∀ entry ∈ run.stack, Throughout Regular entry.subtree := fun entry within =>
      row entry.subtree (Stack.mem_subtrees.mpr ⟨entry, within, rfl⟩)
    rw [Stack.hasConsumedRecovery, List.any_eq_true]
    constructor
    · rintro ⟨entry, within, found⟩
      exact ⟨entry, within, (hasConsumedRecovery_iff (regular entry within)).mp found⟩
    · rintro ⟨entry, within, found⟩
      exact ⟨entry, within, (hasConsumedRecovery_iff (regular entry within)).mpr found⟩
  · intro i j first second here there wraps wraps'
    rcases Nat.lt_trichotomy i j with before | same | behind
    · rw [not_isWrap_of_lt consistent here there before wraps] at wraps'
      cases wraps'
    · exact same
    · rw [not_isWrap_of_lt consistent there here behind wraps'] at wraps
      cases wraps

end Run

namespace Mishap

abbrev letter : Symbol := 1
abbrev other : Symbol := 2
abbrev word : Symbol := 3
abbrev mishap : Symbol := 4

/-- A word of one letter, and an error production in its place. -/
def grammar : Grammar where
  name := "mishap"
  tokenCount := 3
  symbols :=
    [⟨"end", .named⟩, ⟨"a", .visible⟩, ⟨"b", .visible⟩, ⟨"word", .union .visible .named⟩,
     ⟨"mishap", .union .visible .recovery⟩]
  lexStates :=
    [{ atEnd := some (.advance 1)
       transitions := [⟨.one 'a', .advance 2⟩, ⟨.one 'b', .advance 3⟩] },
     { accept := some endSymbol },
     { accept := some letter },
     { accept := some other }]
  parseStates :=
    [{ lexState := 0 },
     { lexState := 0, actions := [(letter, .shift 2)], gotos := [(word, 3), (mishap, 3)] },
     { lexState := 0, actions := [(endSymbol, .reduce word 1)] },
     { lexState := 0, actions := [(endSymbol, .accept)] }]

def language : Language := grammar.toLanguage currentVersion 0

set_option maxRecDepth 4096 in
theorem load_encode : (Table.encode grammar).load 0 = .ok language := rfl

/-- A wrapped letter with another one put in behind it. -/
def doubled : Tree :=
  (language.parse {} "b".toList none).1.edit (.replace 1 1 "b".toList)

theorem grown_doubled : doubled.Grown language :=
  .edit _ _ (.parse _ _ none fun _ e => by cases e)

/-- The first of two letters that do not fit is wrapped, and so the second one is not. -/
theorem repairs_end_doubled :
    doubled.Grown language ∧ ∃ run,
      Run.Steps (({} : Config).setting language "bb".toList (some doubled)) {} run ∧
      (∃ entry ∈ run.stack, Somewhere Consumed entry.subtree) ∧
      ∀ later, Run.Steps (({} : Config).setting language "bb".toList (some doubled)) run later →
        (later.move
          (({} : Config).setting language "bb".toList (some doubled))).isRepair = false := by
  have grown : ∀ tree, some doubled = some tree → tree.language = language →
      tree.Grown language := by
    rintro tree ⟨⟩ -
    exact grown_doubled
  obtain ⟨ends, -⟩ := Run.repairs_end load_encode {} "bb".toList grown
  have reached : ∃ run,
      Run.Steps (({} : Config).setting language "bb".toList (some doubled)) {} run ∧
        run.stack.hasConsumedRecovery = true := ⟨_, .head rfl .refl, rfl⟩
  obtain ⟨run, reached, consumed⟩ := reached
  exact ⟨grown_doubled, run, reached, (ends run reached).1.mp consumed,
    fun later after => ((ends run reached).2 consumed later after).2⟩

end Mishap

end Reparse
