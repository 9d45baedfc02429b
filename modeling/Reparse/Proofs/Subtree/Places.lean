/-
Reparse/Proofs/Subtree/Places.lean

The list of all nodes of a subtree.

`places` lists the nodes in preorder, each with the place it stands at.  What
holds everywhere holds of all that is listed (`forall_places_iff`), and what is
listed is what paths lead to (`mem_places_iff`).  In a subtree that is as long
as its children, no node reaches outside of it: `within_places`.
-/
import Reparse.Proofs.Subtree.Descent

namespace Reparse.Subtree

mutual

/-- The nodes of a subtree at `start`, each with the position of its padding, and in front of
those below it. -/
def places (start : Nat) : Subtree → List (Nat × Subtree)
  | mk head children => (start, mk head children) :: placesAmong start children

/-- The nodes of a row of subtrees. -/
def placesAmong (start : Nat) : List Subtree → List (Nat × Subtree)
  | [] => []
  | tree :: rest => places start tree ++ placesAmong (start + tree.totalSize) rest

end

variable {P : Nat → Subtree → Prop} {start position : Nat} {tree found : Subtree}

theorem places_eq (start : Nat) (tree : Subtree) :
    places start tree = (start, tree) :: placesAmong start tree.children := by
  cases tree
  rfl

@[simp] theorem placesAmong_nil (start : Nat) : placesAmong start [] = [] := rfl

theorem placesAmong_cons (start : Nat) (tree : Subtree) (rest : List Subtree) :
    placesAmong start (tree :: rest) =
      places start tree ++ placesAmong (start + tree.totalSize) rest := rfl

@[simp] theorem placesAmong_singleton (start : Nat) (tree : Subtree) :
    placesAmong start [tree] = places start tree := by
  rw [placesAmong_cons, placesAmong_nil, List.append_nil]

theorem placesAmong_append (start : Nat) (xs ys : List Subtree) :
    placesAmong start (xs ++ ys) =
      placesAmong start xs ++ placesAmong (start + totalSizes xs) ys := by
  induction xs generalizing start with
  | nil => rfl
  | cons x xs ih =>
    rw [List.cons_append, placesAmong_cons, ih, placesAmong_cons, totalSizes, List.append_assoc,
      Nat.add_assoc]

/-! ### What is listed -/

mutual

/-- What holds of all nodes that are listed holds everywhere. -/
theorem forall_places_iff {start : Nat} {tree : Subtree} :
    (∀ place ∈ places start tree, P place.1 place.2) ↔ Everywhere P start tree := by
  obtain ⟨head, children⟩ := tree
  rw [places, List.forall_mem_cons, forall_placesAmong_iff]
  rfl

theorem forall_placesAmong_iff {start : Nat} {trees : List Subtree} :
    (∀ place ∈ placesAmong start trees, P place.1 place.2) ↔ EverywhereAmong P start trees := by
  cases trees with
  | nil => exact ⟨fun _ => trivial, fun _ _ none => by cases none⟩
  | cons tree rest =>
    rw [placesAmong, List.forall_mem_append, forall_places_iff, forall_placesAmong_iff]
    rfl

end

/-- What is listed is what paths lead to. -/
theorem mem_places_iff : (position, found) ∈ places start tree ↔
    ∃ path offset, tree.descend? path = some (offset, found) ∧ position = start + offset := by
  constructor
  · intro listed
    have ways : Everywhere (fun p n => ∃ path offset,
        tree.descend? path = some (offset, n) ∧ p = start + offset) start tree :=
      everywhere_iff_descend?.mpr fun path offset _ there => ⟨path, offset, there, rfl⟩
    exact forall_places_iff.mpr ways _ listed
  · rintro ⟨path, offset, there, rfl⟩
    have listed : Everywhere (fun p n => (p, n) ∈ places start tree) start tree :=
      forall_places_iff.mp fun _ listed => listed
    exact everywhere_iff_descend?.mp listed path offset found there

/-- Below a subtree it is what paths of at least one step lead to. -/
theorem mem_placesAmong_children_iff : (position, found) ∈ placesAmong start tree.children ↔
    ∃ index path offset, tree.descend? (index :: path) = some (offset, found) ∧
      position = start + offset := by
  constructor
  · intro listed
    have ways : EverywhereAmong (fun p n => ∃ index path offset,
        tree.descend? (index :: path) = some (offset, n) ∧ p = start + offset) start
        tree.children :=
      everywhereAmong_children_iff_descend?.mpr fun index path offset _ there =>
        ⟨index, path, offset, there, rfl⟩
    exact forall_placesAmong_iff.mpr ways _ listed
  · rintro ⟨index, path, offset, there, rfl⟩
    have listed : EverywhereAmong (fun p n => (p, n) ∈ placesAmong start tree.children) start
        tree.children :=
      forall_placesAmong_iff.mp fun _ listed => listed
    exact everywhereAmong_children_iff_descend?.mp listed index path offset found there

/-! ### Where the nodes are -/

/-- No node stands in front of the row that it is in. -/
theorem le_of_mem_placesAmong {trees : List Subtree}
    (listed : (position, found) ∈ placesAmong start trees) : start ≤ position := by
  have behind : EverywhereAmong (fun p _ => start ≤ p) start trees := by
    rw [everywhereAmong_iff_getElem?]
    intro index child here
    rw [everywhere_iff_descend?]
    intro path offset node there
    omega
  exact forall_placesAmong_iff.mpr behind _ listed

/-- No node of a subtree that is as long as its children ends behind it. -/
theorem within_places (measured : Throughout Measured tree)
    (listed : (position, found) ∈ places start tree) :
    position + found.totalSize ≤ start + tree.totalSize := by
  obtain ⟨path, offset, there, rfl⟩ := mem_places_iff.mp listed
  have inside := le_totalSize_of_descend? measured there
  omega

end Reparse.Subtree
