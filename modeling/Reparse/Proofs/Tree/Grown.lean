/-
Reparse/Proofs/Tree/Grown.lean

The trees that there can be of a language.

A tree comes from a parse, which may have used an older tree of the language,
or from an edit of such a tree.  All that stands in it is known to the
language, whatever the texts and the edits were: `Tree.Grown.known`.  So a
parse of a loaded language stays within its tables, from any old tree on:
`Run.guarded_of_load`.  And each node in it sums up its children, behind edits
too: `Tree.Grown.regular`.

A fixed tree that serves as an example is `@[irreducible]`.  Otherwise
elaboration and `decide` would run the parser on its text wherever they meet
the name; a proof that needs the tree itself unfolds it.
-/
import Reparse.Parser
import Reparse.Proofs.Run.Ends
import Reparse.Proofs.Run.Secure
import Reparse.Proofs.Subtree.Regular
import Reparse.Proofs.Word

namespace Reparse

open Subtree

/-- What a parse of a language works on. -/
def Config.setting (config : Config) (language : Language) (text : Text) (old : Option Tree) :
    Setting where
  language := language
  text := text
  maxRecoveries := config.maxRecoveries.toNat
  old := config.reusableRoot? language old

theorem Config.setting_old (config : Config) (language : Language) (text : Text) :
    (config.setting language text none).old = none := by
  simp [Config.setting, Config.reusableRoot?]

theorem Language.parse_fst (language : Language) (config : Config) (text : Text)
    (old : Option Tree) :
    (language.parse config text old).1 = ⟨(config.setting language text old).parse.1, language⟩ :=
  rfl

theorem Language.parse_language (language : Language) (config : Config) (text : Text)
    (old : Option Tree) : (language.parse config text old).1.language = language := by
  rw [parse_fst]

/-- Only a tree of the same language is reused. -/
theorem Config.reusableRoot?_eq_some {config : Config} {language : Language} {old : Option Tree}
    {root : Subtree} (h : config.reusableRoot? language old = some root) :
    ∃ tree, old = some tree ∧ tree.language = language ∧ tree.root = root := by
  simp only [reusableRoot?] at h
  split at h
  · obtain ⟨tree, kept, rfl⟩ := Option.map_eq_some_iff.mp h
    obtain ⟨rfl, same⟩ := Option.filter_eq_some_iff.mp kept
    exact ⟨tree, rfl, by simpa using same, rfl⟩
  · cases h

theorem Config.reusableRoot?_of_language {config : Config} {tree : Tree}
    (incremental : config.incremental = true) :
    config.reusableRoot? tree.language (some tree) = some tree.root := by
  have kept : (some tree).filter (fun other => decide (other.language = tree.language)) =
      some tree := Option.filter_eq_some_iff.mpr ⟨rfl, decide_eq_true rfl⟩
  rw [reusableRoot?, if_pos incremental, kept, Option.map_some]

namespace Tree

/-- The trees of a language: those of its parses, and what edits make of them. -/
inductive Grown (language : Language) : Tree → Prop
  | parse (config : Config) (text : Text) (old : Option Tree)
      (grown : ∀ tree, old = some tree → tree.language = language → Grown language tree) :
      Grown language (language.parse config text old).1
  | edit (tree : Tree) (edit : TextEdit) (grown : Grown language tree) :
      Grown language (tree.edit edit)

end Tree

variable {language : Language}

theorem Tree.Grown.same_language {tree : Tree} (h : tree.Grown language) :
    tree.language = language := by
  induction h with
  | parse config text old => exact language.parse_language config text old
  | edit tree edit _ ih => exact ih

/-- **All that stands in a tree** is known to its language. -/
theorem Tree.Grown.known (consistent : language.Consistent) {tree : Tree}
    (h : tree.Grown language) : Throughout (Known language) tree.root := by
  induction h with
  | parse config text old grown ih =>
    have known : ∀ root, (config.setting language text old).old = some root →
        Throughout (Known language) root := by
      intro root e
      obtain ⟨tree, here, same, rfl⟩ := Config.reusableRoot?_eq_some e
      exact ih tree here same
    exact @Setting.throughout_parse (config.setting language text old) consistent known _
      (closed_known language) (Setting.offers_of_throughout known)
  | edit tree edit grown ih => exact ih.edit (fun edit _ known => known.edit edit) _ _

/-- What an old tree contributes to a parse is known. -/
theorem Config.known_old (config : Config) (consistent : language.Consistent) (text : Text)
    {old : Option Tree}
    (grown : ∀ tree, old = some tree → tree.language = language → tree.Grown language) :
    ∀ root, (config.setting language text old).old = some root →
      Throughout (Known language) root := by
  intro root e
  obtain ⟨tree, here, same, rfl⟩ := Config.reusableRoot?_eq_some e
  exact (grown tree here same).known consistent

/-- What all parses and all edits keep holds throughout a tree. -/
theorem Tree.Grown.throughout {P : Subtree → Prop} (closed : Closed language P)
    (kept : ∀ edit tree, P tree → P (Subtree.edit edit tree)) (consistent : language.Consistent)
    {tree : Tree} (h : tree.Grown language) : Throughout P tree.root := by
  induction h with
  | parse config text old grown ih =>
    refine @Setting.throughout_parse (config.setting language text old) consistent
      (config.known_old consistent text grown) P closed (Setting.offers_of_throughout ?_)
    intro root e
    obtain ⟨tree, here, same, rfl⟩ := Config.reusableRoot?_eq_some e
    exact ih tree here same
  | edit tree edit grown ih => exact ih.edit kept _ _

/-- **Each node in a tree** sums up its children. -/
theorem Tree.Grown.regular (consistent : language.Consistent) {tree : Tree}
    (h : tree.Grown language) : Throughout Regular tree.root :=
  h.throughout (closed_regular language) (fun edit _ regular => regular.edit edit) consistent

/-- So each node is as long as its children. -/
theorem Tree.Grown.measured (consistent : language.Consistent) {tree : Tree}
    (h : tree.Grown language) : Throughout Measured tree.root :=
  (h.regular consistent).mono fun _ _ regular => regular.toMeasured

/-- What an old tree contributes to a parse is regular. -/
theorem Config.regular_old (config : Config) (consistent : language.Consistent) (text : Text)
    {old : Option Tree}
    (grown : ∀ tree, old = some tree → tree.language = language → tree.Grown language) :
    (config.setting language text old).Offers Regular := by
  refine Setting.offers_of_throughout fun root e => ?_
  obtain ⟨tree, here, same, rfl⟩ := Config.reusableRoot?_eq_some e
  exact (grown tree here same).regular consistent

namespace Run

/-- **A loaded language never leads outside of its tables.**  Wherever a parse
comes to, from whatever old tree, all states on the stack are states of the
table; each is the one that shift, goto or error production lead to from the
state below, or that state again in front of an extra; all symbols are the
error symbol or in the symbol table; and look-ups that fail outside of their
table or row lead to the same move. -/
theorem guarded_of_load {table : Table} {origin : Nat} (loaded : table.load origin = .ok language)
    (config : Config) (text : Text) {old : Option Tree}
    (grown : ∀ tree, old = some tree → tree.language = language → tree.Grown language) {run : Run}
    (reached : Steps (config.setting language text old) {} run) :
    (∀ entry ∈ run.stack, entry.state.toNat < language.stateCount) ∧
    run.stack.Along language.Leads (fun _ => True) ∧
    (∀ entry ∈ run.stack, entry.subtree.symbol = errorSymbol ∨
      entry.subtree.symbol.toNat < language.symbolCount) ∧
    (∀ lookahead, run.lookahead = some lookahead ∨
        lookahead = run.current (config.setting language text old) →
      lookahead.token.symbol = errorSymbol ∨
        lookahead.token.symbol.toNat < language.symbolCount) ∧
    Guarded.move? (config.setting language text old) run =
      some (run.move (config.setting language text old)) := by
  have consistent : (config.setting language text old).language.Consistent :=
    Table.consistent_of_load loaded
  have known := config.known_old consistent text grown
  have secure : run.Secure (config.setting language text old) :=
    reached.of_invariant (fun _ _ secure running => secure.step consistent known running)
      secure_start
  refine ⟨fun entry m => ?_, secure.founded, fun entry m => ?_, ?_,
    secure.move?_eq consistent known⟩
  · obtain ⟨above, below, e⟩ := List.append_of_mem m
    exact secure.states consistent (entry :: below) (e ▸ List.suffix_append ..)
  · exact (secure.known entry.subtree (by simpa [Stack.subtrees] using ⟨entry, m, rfl⟩)).self.symbol
  · rintro lookahead (kept | rfl)
    · obtain ⟨state, inside, rfl⟩ := secure.reads lookahead kept
      exact (consistent.known_lookahead inside ..).symbol
    · exact (secure.throughout_current consistent).self.symbol

/-- A letter with blanks behind it, of which one was put in. -/
def stretched : Tree :=
  (Word.language.parse {} "a  ".toList none).1.edit (.replace 3 3 " ".toList)

theorem steps_stretched : ∃ run,
    Steps (({} : Config).setting Word.language "a   ".toList (some stretched)) {} run ∧
      run.reused = 1 := by
  refine ⟨_, .head rfl .refl, ?_⟩
  rfl

/-- A run that has taken its letter from an edited tree. -/
theorem guarded_of_load_stretched : stretched.Grown Word.language ∧ ∃ run,
    Steps (({} : Config).setting Word.language "a   ".toList (some stretched)) {} run ∧
      run.reused = 1 ∧ run.stack.Along Word.language.Leads (fun _ => True) ∧
      Guarded.move? (({} : Config).setting Word.language "a   ".toList (some stretched)) run =
        some (run.move
          (({} : Config).setting Word.language "a   ".toList (some stretched))) := by
  have grown : stretched.Grown Word.language := .edit _ _ (.parse _ _ none fun _ e => by cases e)
  obtain ⟨run, reached, reused⟩ := steps_stretched
  obtain ⟨-, founded, -, -, guarded⟩ := guarded_of_load Word.load_encode {} "a   ".toList
    (fun tree e _ => by cases e; exact grown) reached
  exact ⟨grown, run, reached, reused, founded, guarded⟩

end Run

end Reparse
