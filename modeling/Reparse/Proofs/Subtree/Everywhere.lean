/-
Reparse/Proofs/Subtree/Everywhere.lean

Properties of all nodes of a subtree and of the places they stand at.

A subtree knows no positions, so a property of a node and its place is a
property of the walk down from a start: `Everywhere P start tree` says `P` of
every node together with the position of its padding.  `Throughout` is the
same for properties that do not ask for the place.

`startingAt` finds nodes at their places only: `mem_startingAmong`.
-/
import Reparse.Subtree.Starting

namespace Reparse.Subtree

mutual

/-- Whether all nodes of a subtree at `start` have a property at their places. -/
def Everywhere (P : Nat → Subtree → Prop) (start : Nat) : Subtree → Prop
  | mk head children => P start (mk head children) ∧ EverywhereAmong P start children

/-- The same of a row of subtrees. -/
def EverywhereAmong (P : Nat → Subtree → Prop) (start : Nat) : List Subtree → Prop
  | [] => True
  | tree :: trees => Everywhere P start tree ∧ EverywhereAmong P (start + tree.totalSize) trees

end

variable {P Q : Nat → Subtree → Prop} {start : Nat}

theorem everywhere_iff {tree : Subtree} :
    Everywhere P start tree ↔ P start tree ∧ EverywhereAmong P start tree.children := by
  cases tree; rfl

@[simp] theorem everywhereAmong_nil : EverywhereAmong P start [] := trivial

theorem everywhereAmong_cons {tree : Subtree} {trees : List Subtree} :
    EverywhereAmong P start (tree :: trees) ↔
      Everywhere P start tree ∧ EverywhereAmong P (start + tree.totalSize) trees :=
  Iff.rfl

theorem everywhereAmong_append {xs ys : List Subtree} :
    EverywhereAmong P start (xs ++ ys) ↔
      EverywhereAmong P start xs ∧ EverywhereAmong P (start + totalSizes xs) ys := by
  induction xs generalizing start with
  | nil => simp [totalSizes]
  | cons x xs ih =>
    simp only [List.cons_append, everywhereAmong_cons, ih, totalSizes, and_assoc, Nat.add_assoc]

theorem everywhereAmong_singleton {tree : Subtree} :
    EverywhereAmong P start [tree] ↔ Everywhere P start tree := by
  simp [everywhereAmong_cons]

/-! ### Other places, other properties -/

mutual

/-- A property of nodes at one place becomes one of the same nodes at another. -/
theorem Everywhere.move {a b : Nat} (h : ∀ offset n, P (a + offset) n → Q (b + offset) n)
    {tree : Subtree} (ht : Everywhere P a tree) : Everywhere Q b tree := by
  obtain ⟨head, children⟩ := tree
  exact ⟨h 0 _ ht.1, EverywhereAmong.move h ht.2⟩

theorem EverywhereAmong.move {a b : Nat} (h : ∀ offset n, P (a + offset) n → Q (b + offset) n)
    {trees : List Subtree} (ht : EverywhereAmong P a trees) : EverywhereAmong Q b trees := by
  cases trees with
  | nil => trivial
  | cons tree trees =>
    refine ⟨Everywhere.move h ht.1, EverywhereAmong.move (fun offset n hn => ?_) ht.2⟩
    have := h (tree.totalSize + offset) n
    simp only [← Nat.add_assoc] at this
    exact this hn

end

theorem Everywhere.mono (h : ∀ p n, P p n → Q p n) {tree : Subtree}
    (ht : Everywhere P start tree) : Everywhere Q start tree :=
  ht.move fun offset n => h (start + offset) n

theorem EverywhereAmong.mono (h : ∀ p n, P p n → Q p n) {trees : List Subtree}
    (ht : EverywhereAmong P start trees) : EverywhereAmong Q start trees :=
  ht.move fun offset n => h (start + offset) n

mutual

theorem Everywhere.and {start : Nat} {tree : Subtree} (hp : Everywhere P start tree)
    (hq : Everywhere Q start tree) : Everywhere (fun p n => P p n ∧ Q p n) start tree := by
  obtain ⟨head, children⟩ := tree
  exact ⟨⟨hp.1, hq.1⟩, EverywhereAmong.and hp.2 hq.2⟩

theorem EverywhereAmong.and {start : Nat} {trees : List Subtree} (hp : EverywhereAmong P start trees)
    (hq : EverywhereAmong Q start trees) :
    EverywhereAmong (fun p n => P p n ∧ Q p n) start trees := by
  cases trees with
  | nil => trivial
  | cons tree trees => exact ⟨Everywhere.and hp.1 hq.1, EverywhereAmong.and hp.2 hq.2⟩

end

/-! ### Properties that do not ask for the place -/

/-- Whether all nodes of a subtree have a property. -/
def Throughout (P : Subtree → Prop) (tree : Subtree) : Prop :=
  Everywhere (fun _ => P) 0 tree

theorem everywhere_const {P : Subtree → Prop} {tree : Subtree} :
    Everywhere (fun _ => P) start tree ↔ Throughout P tree :=
  ⟨fun h => Everywhere.move (Q := fun _ => P) (fun _ _ hn => hn) h,
    fun h => Everywhere.move (P := fun _ => P) (fun _ _ hn => hn) h⟩

theorem everywhereAmong_const {P : Subtree → Prop} {trees : List Subtree} :
    EverywhereAmong (fun _ => P) start trees ↔ ∀ tree ∈ trees, Throughout P tree := by
  induction trees generalizing start with
  | nil => simp
  | cons tree trees ih => simp [everywhereAmong_cons, everywhere_const, ih]

theorem throughout_iff {P : Subtree → Prop} {tree : Subtree} :
    Throughout P tree ↔ P tree ∧ ∀ child ∈ tree.children, Throughout P child := by
  rw [Throughout, everywhere_iff, everywhereAmong_const]

theorem Throughout.self {P : Subtree → Prop} {tree : Subtree} (h : Throughout P tree) : P tree :=
  (throughout_iff.mp h).1

theorem Throughout.child {P : Subtree → Prop} {tree child : Subtree} (h : Throughout P tree)
    (hc : child ∈ tree.children) : Throughout P child :=
  (throughout_iff.mp h).2 child hc

mutual

/-- What follows from a property that holds throughout a subtree, at any place, holds
everywhere in it. -/
theorem Throughout.everywhere {P : Subtree → Prop}
    (place : ∀ start tree, Throughout P tree → Q start tree) (start : Nat) (tree : Subtree)
    (h : Throughout P tree) : Everywhere Q start tree := by
  have here := place start tree h
  obtain ⟨head, children⟩ := tree
  exact ⟨here, everywhereAmong_of_throughout place start children (throughout_iff.mp h).2⟩

theorem everywhereAmong_of_throughout {P : Subtree → Prop}
    (place : ∀ start tree, Throughout P tree → Q start tree) (start : Nat) (trees : List Subtree)
    (h : ∀ tree ∈ trees, Throughout P tree) : EverywhereAmong Q start trees := by
  cases trees with
  | nil => trivial
  | cons tree rest =>
    exact ⟨Throughout.everywhere place start tree (h tree (by simp)),
      everywhereAmong_of_throughout place _ rest fun t m => h t (by simp [m])⟩

end

/-! ### Nodes found at a position -/

mutual

theorem mem_startingAt {position start : Nat} {tree found : Subtree}
    (h : EverywhereAmong P start tree.children) (hf : found ∈ startingAt position start tree) :
    P position found := by
  obtain ⟨head, children⟩ := tree
  exact mem_startingAmong h hf

/-- What is found at a position has the properties of nodes at that position. -/
theorem mem_startingAmong {position start : Nat} {trees : List Subtree} {found : Subtree}
    (h : EverywhereAmong P start trees) (hf : found ∈ startingAmong position start trees) :
    P position found := by
  cases trees with
  | nil => simp [startingAmong] at hf
  | cons tree rest =>
    rw [startingAmong] at hf
    have inside (hf : found ∈ startingAt position start tree) : P position found :=
      mem_startingAt (everywhere_iff.mp h.1).2 hf
    split at hf
    · simp at hf
    · split at hf
      · split at hf
        · rename_i here
          rcases List.mem_cons.mp hf with rfl | hf
          · exact here ▸ (everywhere_iff.mp h.1).1
          · exact inside hf
        · exact inside hf
      · exact mem_startingAmong h.2 hf

end

end Reparse.Subtree
