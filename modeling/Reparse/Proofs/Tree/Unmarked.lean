/-
Reparse/Proofs/Tree/Unmarked.lean

What a parse takes over from an old tree, and what it leaves behind.

A parse looks only at a candidate itself, not at what is below it.  That is
enough: in every tree of a language a node without a mark is as a parse made
it, with all that is below (`Tree.Grown.pristine`), and if it has no error,
none of those has.  So what is taken from an old tree is clean throughout, and
no mark gets into the tree of a parse, however often the old one was edited.

Main result: `Language.unmarked_parse`.
-/
import Reparse.Proofs.Run.Consumed
import Reparse.Proofs.Subtree.Sound
import Reparse.Proofs.Tree.Grown

namespace Reparse

open Subtree

variable {language : Language} {setting : Setting} {run : Run}

/-! ### What is taken over -/

/-- A candidate that fits has no mark and no error. -/
theorem Run.right_of_fits {state : StateId} {candidate : Subtree}
    (h : fits language state candidate = true) :
    candidate.Unmarked ∧ candidate.marks.hasError = false := by
  simp only [fits] at h
  split at h
  · cases h
  · rename_i fine
    simp only [Bool.or_eq_true, decide_eq_true_eq, not_or, Bool.not_eq_true] at fine
    exact ⟨fine.1.1.1.1.1, fine.1.1.1.1.2⟩

/-- All that a parse may take from a pristine tree is as a parse made it. -/
theorem Setting.offers_sound
    (pristine : ∀ root, setting.old = some root → Throughout (Pristine setting.language) root) :
    setting.Offers (Sound setting.language) := by
  intro root here position state candidate found fits
  apply throughout_sound
  · exact (pristine root here).startingAt found
  · exact (Run.right_of_fits fits).1

/-- A parse reuses nothing but what the search on the old tree has found. -/
theorem Run.reusable?_of_move {subtree : Subtree} {target : StateId}
    (taken : run.move setting = .reuse subtree target) :
    run.reusable? setting = some (subtree, target) := by
  -- on a current token there is nothing to reuse
  have other (lookahead : Lookahead) :
      run.moveOn setting lookahead ≠ .reuse subtree target := by
    intro e
    have choice := choice_moveOn setting run lookahead
    rw [e] at choice
    cases choice
  rw [move] at taken
  rcases front : run.lookahead with - | lookahead
  · rcases found : run.reusable? setting with - | ⟨candidate, state⟩
    · rw [front, found] at taken
      exact absurd taken (other _)
    · rw [front, found] at taken
      cases taken
      rfl
  · rw [front] at taken
    exact absurd taken (other _)

/-- **What a parse reuses of a pristine tree is clean**, all of it. -/
theorem Run.throughout_clean_of_reusable?
    (pristine : ∀ root, setting.old = some root → Throughout (Pristine setting.language) root)
    {subtree : Subtree} {target : StateId}
    (found : run.reusable? setting = some (subtree, target)) : Throughout Clean subtree := by
  obtain ⟨root, here, listed, fits, -⟩ := reusable?_eq_some found
  obtain ⟨unmarked, right⟩ := right_of_fits fits
  exact throughout_clean (throughout_sound ((pristine root here).startingAt listed) unmarked) right

/-! ### Any history -/

/-- **In every tree of a language** what has no mark is as a parse made it. -/
theorem Tree.Grown.pristine (consistent : language.Consistent) {tree : Tree}
    (h : tree.Grown language) : Throughout (Pristine language) tree.root := by
  -- along the history: a parse takes over only what is sound, an edit marks what it touches
  induction h with
  | parse config text old grown ih =>
    have known := config.known_old consistent text grown
    have offers : (config.setting language text old).Offers (Sound language) := by
      refine Setting.offers_sound fun root e => ?_
      obtain ⟨tree, here, same, rfl⟩ := Config.reusableRoot?_eq_some e
      exact ih tree here same
    exact throughout_pristine (Setting.throughout_parse consistent known (closed_sound language)
      offers)
  | edit tree edit grown ih => exact ih.edit (fun edit _ _ => Pristine.edit edit) _ _

/-- What an old tree contributes to a parse is pristine. -/
theorem Config.pristine_old (config : Config) (consistent : language.Consistent) (text : Text)
    {old : Option Tree}
    (grown : ∀ tree, old = some tree → tree.language = language → tree.Grown language) :
    ∀ root, (config.setting language text old).old = some root →
      Throughout (Pristine language) root := by
  intro root e
  obtain ⟨tree, here, same, rfl⟩ := Config.reusableRoot?_eq_some e
  exact (grown tree here same).pristine consistent

/-- **Every parse makes a tree that is sound throughout**, whatever it takes over. -/
theorem Language.sound_roots (consistent : language.Consistent) (config : Config) (text : Text)
    {old : Option Tree}
    (grown : ∀ tree, old = some tree → tree.language = language → tree.Grown language) :
    (∀ steps root reused, Progress.advance (config.setting language text old) steps (.running {}) =
        .finished root reused → Throughout (Sound language) root) ∧
      Throughout (Sound language) (language.parse config text old).1.root :=
  @Setting.throughout_roots (config.setting language text old) consistent
    (config.known_old consistent text grown) _ (closed_sound language)
    (Setting.offers_sound (config.pristine_old consistent text grown))

/-- **The tree of a parse carries no marks.**  Whatever parses and edits the old tree comes from:
no node of a root that a parse of a loaded language ends with has the mark of an edit, at any
depth; nor has one of the tree that it gives.  And all that the parse takes over from the old
tree on its way is clean: there is no mark in it, no error, nothing put in and no extra. -/
theorem Language.unmarked_parse {table : Table} {origin : Nat}
    (loaded : table.load origin = .ok language) (config : Config) (text : Text)
    {old : Option Tree}
    (grown : ∀ tree, old = some tree → tree.language = language → tree.Grown language) :
    (∀ steps root reused, Progress.advance (config.setting language text old) steps (.running {}) =
        .finished root reused → Throughout Unmarked root) ∧
    Throughout Unmarked (language.parse config text old).1.root ∧
    ∀ run, Run.Steps (config.setting language text old) {} run →
      ∀ subtree target, run.move (config.setting language text old) = .reuse subtree target →
        Throughout Clean subtree := by
  have consistent := Table.consistent_of_load loaded
  have unmarked {root : Subtree} (h : Throughout (Sound language) root) :
      Throughout Unmarked root := h.mono fun _ _ node => node.unmarked
  obtain ⟨ends, parsed⟩ := sound_roots consistent config text grown
  refine ⟨?_, unmarked parsed, ?_⟩
  · intro steps root reused done
    exact unmarked (ends steps root reused done)
  · intro run _ subtree target taken
    exact Run.throughout_clean_of_reusable? (config.pristine_old consistent text grown)
      (Run.reusable?_of_move taken)

namespace Run

/-- The marks on a tree that has got a blank are gone when it is parsed again, and the letter
that comes from it is clean. -/
theorem unmarked_parse_stretched :
    stretched.root.marks.hasChanges = true ∧
    Throughout Unmarked (Word.language.parse {} "a   ".toList (some stretched)).1.root ∧
    ∃ letter target,
      move (({} : Config).setting Word.language "a   ".toList (some stretched)) {} =
        .reuse letter target ∧ Throughout Clean letter := by
  have grown : ∀ tree, some stretched = some tree → tree.language = Word.language →
      tree.Grown Word.language := by
    rintro tree ⟨⟩ -
    exact .edit _ _ (.parse _ _ none fun _ none => by cases none)
  obtain ⟨-, parsed, clean⟩ := Language.unmarked_parse Word.load_encode {} "a   ".toList grown
  have taken : ∃ letter target,
      move (({} : Config).setting Word.language "a   ".toList (some stretched)) {} =
        .reuse letter target := ⟨_, _, rfl⟩
  obtain ⟨letter, target, taken⟩ := taken
  exact ⟨rfl, parsed, letter, target, taken, clean {} .refl letter target taken⟩

end Run

end Reparse
