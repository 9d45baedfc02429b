/-
Reparse/Proofs/Verdict.lean

When a reparse behind an edit gives what a fresh parse gives.

With the header grammar it always does, as long as there are recoveries for all
bytes (`verifyReparse_header`).  With any grammar it does where it takes no
subtree from the old tree, for it then makes the moves of a fresh parse
(`verifyReparse_of_reused`).  A subtree that it takes may part it from one:
what an attempt to lex has looked at in vain is not part of the lookahead of the
token that the fallback mode then finds, so an edit there leaves that token
unmarked, although its text may now begin another one
(`Outdone.verifyReparse_parts`).
-/
import Reparse.Proofs.Header.Session
import Reparse.Table.Malformed
import Reparse.Verdict.Check

namespace Reparse

open Subtree

/-! ### Dumps -/

namespace Outline

mutual

theorem dump_bare (source : Text) (depth : Nat) (outline : Outline) :
    dump source depth outline.bare = dump source depth outline := by
  obtain ⟨⟨⟨head, below⟩, start, language⟩, children⟩ := outline
  rw [bare, dump, dump, dumps_bares source (depth + 1) children, bares_eq_map, List.isEmpty_map]
  rfl

theorem dumps_bares (source : Text) (depth : Nat) (outlines : List Outline) :
    dumps source depth (bares outlines) = dumps source depth outlines := by
  cases outlines with
  | nil => rfl
  | cons outline rest =>
    rw [bares, dumps, dumps, dump_bare source depth outline, dumps_bares source depth rest]

end

end Outline

/-- The dump of a tree depends on the bare form of its root. -/
theorem Tree.dump_congr {a b : Tree} (language : a.language = b.language)
    (root : a.root.bare = b.root.bare) (source : Text) : a.dump source = b.dump source := by
  have key (tree : Tree) : tree.dump source = Tree.dump ⟨tree.root.bare, tree.language⟩ source := by
    rw [Tree.dump, Tree.dump, outline_bare, Outline.dump_bare]
  rw [key a, key b, language, root]

/-! ### The header grammar -/

namespace Header

/-- **A reparse with the header grammar is verified**, for texts that leave
recoveries enough. -/
theorem verifyReparse_header (source edited new : Text) (start stop : Nat)
    (replaced : source.replace? start stop new = some edited)
    (enough : source.size + 15 ≤ 256) (enough' : edited.size + 15 ≤ 256) :
    Table.header.verifyReparse source start stop new = .passed := by
  obtain ⟨front, slice, back, rfl, rfl, rfl, rfl⟩ := Text.replace?_eq_some_iff.mp replaced
  have limit : ({} : Config).maxRecoveries.toNat = 256 := rfl
  rw [← limit] at enough enough'
  have settled := (@parseText_settles {} _ enough none (fun _ e => by cases e) (usable_none _)).1
  rw [DocumentParser.settled_parseText] at settled
  have usable := settled.usable rfl enough enough'
  have look := parse_look enough' usable
  rw [Text.size_append] at look
  rw [Table.verifyReparse, load_header]
  simp only [replaced]
  exact if_pos (Tree.dump_congr ((Language.parse_language ..).trans (Language.parse_language ..).symm) look _)

end Header

/-! ### Any grammar -/

/-- The setting without an old tree. -/
def Setting.fresh (setting : Setting) : Setting := { setting with old := none }

theorem Config.fresh_setting (config : Config) (language : Language) (text : Text)
    (old : Option Tree) :
    (config.setting language text old).fresh = config.setting language text none := by
  simp [Setting.fresh, Config.setting, Config.reusableRoot?]

variable {setting : Setting}

namespace Run

/-- A step on the current token takes none. -/
theorem reused_turn {run next : Run} (running : run.turn setting = .running next) :
    next.reused = run.reused := by
  obtain ⟨move, choice, running⟩ := exists_choice running
  cases choice with
  | accept | giveUp => cases running
  | _ => cases running; rfl

end Run

namespace Progress

/-- How many subtrees have been taken from the old tree so far. -/
def reused : Progress → Nat
  | .running run => run.reused
  | .finished _ reused => reused

theorem reused_le_step (setting : Setting) (run : Run) :
    run.reused ≤ (run.step setting).reused := by
  rcases Run.step_cases setting run with ⟨subtree, target, -, -, taken⟩ | turn
  · rw [taken]
    exact Nat.le_succ run.reused
  · rcases e : run.turn setting with next | ⟨root, reused⟩
    · rw [turn, e]
      exact Nat.le_of_eq (Run.reused_turn e).symm
    · rw [turn, e]
      exact Nat.le_of_eq (Run.finished_cases (turn.trans e)).1.symm

theorem reused_le_advance (setting : Setting) (steps : Nat) (progress : Progress) :
    progress.reused ≤ (progress.advance setting steps).reused := by
  induction steps generalizing progress with
  | zero => exact Nat.le_refl _
  | succ steps ih =>
    cases progress with
    | running run => exact Nat.le_trans (reused_le_step setting run) (ih _)
    | finished root reused => exact Nat.le_refl _

/-- **Steps that take nothing from the old tree** are those of a fresh parse. -/
theorem advance_fresh {steps : Nat} {progress : Progress}
    (idle : (progress.advance setting steps).reused = progress.reused) :
    progress.advance setting steps = progress.advance setting.fresh steps := by
  induction steps generalizing progress with
  | zero => rfl
  | succ steps ih =>
    cases progress with
    | finished root reused => rfl
    | running run =>
      rw [advance] at idle ⊢
      have later := reused_le_advance setting steps (run.step setting)
      rcases Run.step_cases setting run with ⟨subtree, target, -, -, taken⟩ | turn
      · -- what is taken is never given back
        rw [idle, taken] at later
        exact absurd later (Nat.not_succ_le_self run.reused)
      · have fresh : run.step setting.fresh = run.turn setting :=
          @Run.step_of_fresh setting.fresh rfl run
        rw [advance, fresh, ← turn]
        refine ih (Nat.le_antisymm ?_ later)
        rw [idle]
        exact reused_le_step setting run

end Progress

/-- **A parse that takes nothing from the old tree is a fresh parse.** -/
theorem Setting.parse_idle (idle : setting.parse.2 = 0) : setting.parse = setting.fresh.parse := by
  have all : (Progress.advance setting stepLimit (.running {})).reused = setting.parse.2 := by
    rw [parse]
    cases Progress.advance setting stepLimit (.running {}) <;> rfl
  have same := Progress.advance_fresh (all.trans idle)
  rw [parse, parse, same]
  rfl

theorem Language.parse_of_reused {language : Language} {config : Config} {text : Text}
    {old : Option Tree} (idle : (language.parse config text old).2 = 0) :
    (language.parse config text old).1 = (language.parse config text none).1 := by
  have same := @Setting.parse_idle (config.setting language text old) idle
  rw [parse_fst, parse_fst, same, Config.fresh_setting]

/-- **A reparse that takes nothing from the old tree is verified**, whatever the
grammar, the text and the edit. -/
theorem Table.verifyReparse_of_reused (table : Table) (source edited new : Text) (start stop : Nat)
    (language : Language) (loaded : table.load 0 = .ok language)
    (replaced : source.replace? start stop new = some edited)
    (idle : (language.parse {} edited
      (some ((language.parse {} source none).1.edit (.replace start stop new)))).2 = 0) :
    table.verifyReparse source start stop new = .passed := by
  rw [verifyReparse, loaded]
  simp only [replaced]
  rw [Language.parse_of_reused idle]
  exact if_pos rfl

/-! ### A token that is outdone -/

namespace Outdone

abbrev long : Symbol := 1
abbrev short : Symbol := 2
abbrev other : Symbol := 3
abbrev root : Symbol := 4

/-- A grammar with a token for its start state and a shorter one, with the same
first letter, for its fallback mode. -/
def grammar : Grammar where
  name := "outdone"
  tokenCount := 4
  symbols :=
    [⟨"end", .named⟩, ⟨"abcd", .union .visible .named⟩, ⟨"a", .union .visible .named⟩,
     ⟨"other", .union .visible .named⟩, ⟨"root", .union .visible .named⟩]
  lexStates :=
    [{ atEnd := some (.advance 1)
       transitions := [⟨.one 'a', .advance 2⟩, ⟨.of ['b', 'c', 'd'], .advance 3⟩] },
     { accept := some endSymbol },
     { accept := some short },
     { accept := some other },
     { transitions := [⟨.one 'a', .advance 5⟩] },
     { transitions := [⟨.one 'b', .advance 6⟩] },
     { transitions := [⟨.one 'c', .advance 7⟩] },
     { transitions := [⟨.one 'd', .advance 8⟩] },
     { accept := some long }]
  parseStates :=
    [{ lexState := 0 },
     { lexState := 4, actions := [(long, .shift 2), (short, .shift 2)], gotos := [(root, 3)] },
     { lexState := 0, actions := [(endSymbol, .reduce root 1)] },
     { lexState := 0, actions := [(endSymbol, .accept)] }]

/-- A letter that completes the long token leaves the short one unmarked, and
the reparse takes it from the old tree. -/
theorem verifyReparse_parts :
    (Table.encode grammar).verifyLoads = .passed ∧
      (Table.encode grammar).verifyReparse "abcx".toList 3 4 "d".toList =
        .failed reparseFailure := by
  decide +kernel

end Outdone

end Reparse
