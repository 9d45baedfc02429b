/-
Reparse/Proofs/Subtree/Sound.lean

Subtrees that no edit has touched.

A parse makes `Sound` subtrees: they are intact, only skipped input is an
extra, and what was put in without width is empty and neither a token nor an
extra.  An edit marks each node it touches, and a node above a mark has one
itself.  So a subtree without a mark is `Pristine`: there is none in it, and it
is as a parse made it (`throughout_sound`).  And if it has no error, there is
none in it, nothing put in and nothing skipped (`throughout_clean`).
-/
import Reparse.Proofs.Run.Closed

namespace Reparse.Subtree

variable {language : Language} {tree : Subtree}

/-! ### Properties that are handed down -/

/-- What every node passes on to its children holds throughout a subtree that has it. -/
theorem Throughout.handedDown {P : Subtree → Prop}
    (down : Throughout (fun node => P node → ∀ child ∈ node.children, P child) tree)
    (own : P tree) : Throughout P tree := by
  induction tree using inductionOn with
  | mk head children ih =>
    refine throughout_iff.mpr ⟨own, ?_⟩
    intro child within
    exact ih child within (down.child within) (down.self own child within)

/-! ### What a parse makes -/

/-- Whether a subtree is as a parse makes it, also in how its marks go together. -/
structure Sound (language : Language) (tree : Subtree) : Prop extends Intact language tree where
  /-- Only skipped input is an extra. -/
  skipped : tree.marks.extra = true → tree.symbol = errorSymbol
  empty : tree.marks.missing = true → tree.children = [] ∧ tree.padding = 0 ∧ tree.size = 0
  plain : tree.marks.missing = true → tree.marks.extra = false ∧ tree.marks.token = false

theorem sound_token (symbol : Symbol) (padding size lookahead : Nat) (state : StateId) :
    Sound language (token language symbol padding size lookahead state) where
  toIntact := intact_token symbol padding size lookahead state
  skipped extra := of_decide_eq_true extra
  empty none := by cases none
  plain none := by cases none

theorem sound_node (symbol : Symbol) (children : List Subtree) (state : StateId) :
    Sound language (node language symbol children state) where
  toIntact := intact_node symbol children state
  skipped none := by simp [marks_node, symbolMarks] at none
  empty none := by simp [marks_node, symbolMarks] at none
  plain none := by simp [marks_node, symbolMarks] at none

/-- **However a parse makes a subtree**, it is sound. -/
theorem closed_sound (language : Language) : Closed language (Sound language) where
  token _ := sound_token ..
  node _ _ := sound_node ..
  missing _ recovery :=
    { toIntact := intact_missing recovery _
      skipped := fun none => by cases none
      empty := fun _ => ⟨rfl, rfl, rfl⟩
      plain := fun _ => ⟨rfl, rfl⟩ }
  errorNode {children state} _ _ :=
    { toIntact := intact_errorNode children state
      skipped := fun _ => symbol_errorNode children state
      empty := fun none => by simp [marks_errorNode, symbolMarks] at none
      plain := fun none => by simp [marks_errorNode, symbolMarks] at none }
  needing h needed :=
    { toIntact := h.toIntact.needing needed
      skipped := h.skipped
      empty := h.empty
      plain := h.plain }
  extended {tree} h error size lookahead := by
    have atom := (isErrorToken_iff.mp error).2
    exact
      { toIntact := h.toIntact.extended atom size lookahead
        skipped := h.skipped
        -- a token was not put in
        empty := fun missing => by
          have := (h.plain missing).2
          rw [atom] at this
          cases this
        plain := h.plain }

/-! ### What edits leave of it -/

/-- Whether no edit has touched a node since it was parsed. -/
def Unmarked (tree : Subtree) : Prop := tree.marks.hasChanges = false

/-- Whether a node is as a parse made it, unless there is a mark on it. -/
structure Pristine (language : Language) (tree : Subtree) : Prop where
  sound : tree.Unmarked → Sound language tree
  below : tree.Unmarked → ∀ child ∈ tree.children, child.Unmarked

theorem throughout_pristine (h : Throughout (Sound language) tree) :
    Throughout (Pristine language) tree := by
  induction tree using inductionOn with
  | mk head children ih =>
    have below := (throughout_iff.mp h).2
    refine throughout_iff.mpr ⟨⟨fun _ => h.self, ?_⟩, fun child within => ih child within ?_⟩
    · intro _ child within
      exact (below child within).self.unmarked
    · exact below child within

/-- **An edit keeps a subtree pristine**, as it marks what it touches. -/
theorem Pristine.edit (edit : TextEdit) : Pristine language (tree.edit edit) := by
  have marked : ¬ (tree.edit edit).Unmarked := by
    rw [Unmarked, marks_edit]
    exact Bool.noConfusion
  exact ⟨fun unmarked => absurd unmarked marked, fun unmarked => absurd unmarked marked⟩

/-- **A pristine subtree without a mark** is as a parse made it, with all that is in it. -/
theorem throughout_sound (pristine : Throughout (Pristine language) tree)
    (unmarked : tree.Unmarked) : Throughout (Sound language) tree := by
  have down : Throughout Unmarked tree :=
    Throughout.handedDown (pristine.mono fun _ _ node => node.below) unmarked
  exact (pristine.and down).mono fun _ _ node => node.1.sound node.2

/-! ### Subtrees without errors -/

/-- Whether nothing about a node speaks of an error or of an edit. -/
structure Clean (tree : Subtree) : Prop where
  unmarked : tree.Unmarked
  hasError : tree.marks.hasError = false
  symbol : tree.symbol ≠ errorSymbol
  recovery : tree.marks.recovery = false
  missing : tree.marks.missing = false
  extra : tree.marks.extra = false

/-- What the mark of an error adds up. -/
theorem Sound.right (h : Sound language tree) (right : tree.marks.hasError = false) :
    tree.marks.recovery = false ∧ tree.symbol ≠ errorSymbol ∧ tree.marks.missing = false ∧
      ∀ child ∈ tree.children, child.marks.hasError = false := by
  have sum := h.error
  rw [right] at sum
  simpa [and_assoc] using sum.symm

/-- **A sound subtree without an error** has nothing in it that speaks of one. -/
theorem throughout_clean (sound : Throughout (Sound language) tree)
    (right : tree.marks.hasError = false) : Throughout Clean tree := by
  have down : Throughout (fun node => node.marks.hasError = false) tree :=
    Throughout.handedDown (sound.mono fun _ _ node right => (node.right right).2.2.2) right
  refine (sound.and down).mono ?_
  rintro _ node ⟨sound, right⟩
  obtain ⟨recovery, symbol, missing, -⟩ := sound.right right
  have extra : node.marks.extra ≠ true := fun extra => symbol (sound.skipped extra)
  exact ⟨sound.unmarked, right, symbol, recovery, missing, eq_false_of_ne_true extra⟩

end Reparse.Subtree
