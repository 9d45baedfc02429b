/-
Reparse/Proofs/Subtree/Known.lean

Subtrees that a language can deal with.

A subtree is `Known` if its symbol and its parse state are ones of the
language.  That is all a parser looks up about a subtree that it finds in an
old tree.  Edits change neither, so what is known stays known.
-/
import Reparse.Proofs.Subtree.Share

namespace Reparse.Subtree

/-- Whether the symbol and the state of a subtree are ones of the language. -/
structure Known (language : Language) (tree : Subtree) : Prop where
  symbol : tree.symbol = errorSymbol ∨ tree.symbol.toNat < language.symbolCount
  state : tree.parseState.toNat < language.stateCount

theorem Known.congr {language : Language} {a b : Subtree} (symbol : b.symbol = a.symbol)
    (state : b.parseState = a.parseState) (h : Known language a) : Known language b where
  symbol := symbol ▸ h.symbol
  state := state ▸ h.state

@[simp] theorem symbol_edit (edit : TextEdit) (tree : Subtree) :
    (tree.edit edit).symbol = tree.symbol := by
  obtain ⟨head, children⟩ := tree
  simp only [Subtree.edit]
  split
  · simp only [symbol, Subtree.head, Head.resize]
    split
    · rfl
    · split
      · rfl
      · split <;> rfl
  · rcases editChildren edit (decide (edit.oldEnd = edit.start)) true 0 children with
      - | ⟨a, as⟩ <;> rfl

@[simp] theorem parseState_edit (edit : TextEdit) (tree : Subtree) :
    (tree.edit edit).parseState = tree.parseState := by
  obtain ⟨head, children⟩ := tree
  simp only [Subtree.edit]
  split
  · simp only [parseState, Subtree.head, Head.resize]
    split
    · rfl
    · split
      · rfl
      · split <;> rfl
  · rcases editChildren edit (decide (edit.oldEnd = edit.start)) true 0 children with
      - | ⟨a, as⟩ <;> rfl

/-- Edits change neither symbols nor states. -/
theorem Known.edit {language : Language} (edit : TextEdit) {tree : Subtree}
    (h : Known language tree) : Known language (tree.edit edit) :=
  h.congr (symbol_edit ..) (parseState_edit ..)

/-! ### Below a subtree -/

mutual

/-- What holds throughout a subtree holds throughout all that is found in it. -/
theorem Throughout.startingAt {P : Subtree → Prop} {position start : Nat} {tree found : Subtree}
    (h : Throughout P tree) (hf : found ∈ tree.startingAt position start) : Throughout P found := by
  obtain ⟨head, children⟩ := tree
  exact throughout_startingAmong (throughout_iff.mp h).2 hf

theorem throughout_startingAmong {P : Subtree → Prop} {position start : Nat}
    {trees : List Subtree} {found : Subtree} (h : ∀ tree ∈ trees, Throughout P tree)
    (hf : found ∈ startingAmong position start trees) : Throughout P found := by
  cases trees with
  | nil => simp [startingAmong] at hf
  | cons tree rest =>
    have here := h tree (by simp)
    rw [startingAmong] at hf
    split at hf
    · simp at hf
    · split at hf
      · split at hf
        · rcases List.mem_cons.mp hf with rfl | hf
          · exact here
          · exact Throughout.startingAt here hf
        · exact Throughout.startingAt here hf
      · exact throughout_startingAmong (fun t m => h t (by simp [m])) hf

end

end Reparse.Subtree
