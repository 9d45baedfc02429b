/-
Reparse/Proofs/Subtree/Paths.lean

The paths to the nodes of a subtree, in order.

Nodes that have lost all of their text stand at one place, and two of them may
be alike in all else.  What tells them apart is the path of child indices that
leads to each.  `paths` lists the paths in preorder: none twice, since each
stands in front of the next (`pairwise_paths`), and each where `places` has the
node that it leads to (`map_locate?_paths`).
-/
import Reparse.Proofs.Subtree.Places

namespace Reparse.Subtree

/-- Whether a path stands in front of another one: the other goes on from it, or turns to a
later child where they part. -/
def InFront (first second : List Nat) : Prop :=
  List.Lex (· < ·) first second

namespace InFront

variable {first second : List Nat}

/-- No path stands in front of those that stand in front of it. -/
theorem asymm (h : InFront first second) : ¬ InFront second first :=
  List.lex_asymm Nat.lt_asymm h

theorem ne (h : InFront first second) : first ≠ second := by
  rintro rfl
  exact h.asymm h

theorem nil (index : Nat) (path : List Nat) : InFront [] (index :: path) :=
  List.Lex.nil

theorem of_lt {index later : Nat} (h : index < later) (first second : List Nat) :
    InFront (index :: first) (later :: second) :=
  List.Lex.rel h

theorem cons (index : Nat) (h : InFront first second) :
    InFront (index :: first) (index :: second) :=
  List.Lex.cons h

end InFront

/-! ### All paths -/

mutual

/-- The paths to the nodes of a subtree, each in front of those that go on from it. -/
def paths : Subtree → List (List Nat)
  | mk _ children => [] :: pathsAmong 0 children

/-- The paths to the nodes of a row of subtrees, of which the first has the given index. -/
def pathsAmong (index : Nat) : List Subtree → List (List Nat)
  | [] => []
  | tree :: rest => (paths tree).map (index :: ·) ++ pathsAmong (index + 1) rest

end

variable {start index : Nat} {path : List Nat}

theorem paths_eq (tree : Subtree) : paths tree = [] :: pathsAmong 0 tree.children := by
  cases tree
  rfl

theorem pathsAmong_cons (index : Nat) (tree : Subtree) (rest : List Subtree) :
    pathsAmong index (tree :: rest) =
      (paths tree).map (index :: ·) ++ pathsAmong (index + 1) rest := rfl

/-- A path into a row begins with the index of one of its subtrees. -/
theorem exists_cons_of_mem_pathsAmong {trees : List Subtree}
    (listed : path ∈ pathsAmong index trees) :
    ∃ turn rest, path = turn :: rest ∧ index ≤ turn := by
  induction trees generalizing index with
  | nil => cases listed
  | cons tree rest ih =>
    rw [pathsAmong_cons, List.mem_append, List.mem_map] at listed
    rcases listed with ⟨inner, -, rfl⟩ | later
    · exact ⟨index, inner, rfl, Nat.le_refl _⟩
    · obtain ⟨turn, inner, rfl, behind⟩ := ih later
      exact ⟨turn, inner, rfl, Nat.le_of_succ_le behind⟩

/-! ### Their order -/

mutual

/-- **The paths ascend.** -/
theorem pairwise_paths (tree : Subtree) : (paths tree).Pairwise InFront := by
  obtain ⟨head, children⟩ := tree
  refine List.pairwise_cons.mpr ⟨fun path listed => ?_, pairwise_pathsAmong 0 children⟩
  obtain ⟨turn, rest, rfl, -⟩ := exists_cons_of_mem_pathsAmong listed
  exact InFront.nil turn rest

theorem pairwise_pathsAmong (index : Nat) (trees : List Subtree) :
    (pathsAmong index trees).Pairwise InFront := by
  cases trees with
  | nil => exact .nil
  | cons tree rest =>
    refine List.pairwise_append.mpr ⟨?_, pairwise_pathsAmong (index + 1) rest, ?_⟩
    · exact (pairwise_paths tree).map _ fun _ _ ordered => ordered.cons index
    · -- the paths into this subtree turn to an earlier child than those behind it
      intro first here second later
      obtain ⟨inner, -, rfl⟩ := List.mem_map.mp here
      obtain ⟨turn, other, rfl, behind⟩ := exists_cons_of_mem_pathsAmong later
      exact InFront.of_lt behind inner other

end

/-! ### Their ends -/

/-- The node that a path leads to in a subtree at `start`, with its place. -/
def locate? (start : Nat) (tree : Subtree) (path : List Nat) : Option (Nat × Subtree) :=
  (tree.descend? path).map fun place => (start + place.1, place.2)

theorem locate?_nil (start : Nat) (tree : Subtree) : tree.locate? start [] = some (start, tree) := rfl

/-- Behind some of the children the path goes on in the next one. -/
theorem locate?_cons {tree child : Subtree} {front rest : List Subtree}
    (row : tree.children = front ++ child :: rest) (start : Nat) (path : List Nat) :
    tree.locate? start (front.length :: path) = child.locate? (start + totalSizes front) path := by
  have here : tree.children[front.length]? = some child := by
    rw [row, List.getElem?_append_right (Nat.le_refl _), Nat.sub_self]
    rfl
  have before : tree.children.take front.length = front := by
    rw [row, List.take_left]
  rw [locate?, locate?, Subtree.descend?, here, before, Option.bind_some, Option.map_map]
  congr 1
  funext place
  show (start + (totalSizes front + place.1), place.2) =
    (start + totalSizes front + place.1, place.2)
  rw [Nat.add_assoc]

mutual

/-- **Each path leads to the node** that stands at its index in the list of all places. -/
theorem map_locate?_paths (start : Nat) (tree : Subtree) :
    (paths tree).map (tree.locate? start) = (places start tree).map some := by
  obtain ⟨head, children⟩ := tree
  rw [paths, places, List.map_cons, List.map_cons, locate?_nil]
  exact congrArg _ (map_locate?_pathsAmong start (mk head children) [] children rfl)

theorem map_locate?_pathsAmong (start : Nat) (tree : Subtree) (front trees : List Subtree)
    (row : tree.children = front ++ trees) :
    (pathsAmong front.length trees).map (tree.locate? start) =
      (placesAmong (start + totalSizes front) trees).map some := by
  cases trees with
  | nil => rfl
  | cons child rest =>
    have here := map_locate?_paths (start + totalSizes front) child
    have later := map_locate?_pathsAmong start tree (front ++ [child]) rest (by simp [row])
    rw [List.length_append, totalSizes_append, ← Nat.add_assoc] at later
    have inside : ((paths child).map (front.length :: ·)).map (tree.locate? start) =
        (places (start + totalSizes front) child).map some := by
      rw [List.map_map, ← here]
      exact List.map_congr_left fun path _ => locate?_cons row start path
    rw [pathsAmong_cons, placesAmong_cons, List.map_append, List.map_append, inside]
    exact congrArg _ later

end

/-- So do those that lead below the subtree. -/
theorem map_locate?_below (start : Nat) (tree : Subtree) :
    (pathsAmong 0 tree.children).map (tree.locate? start) =
      (placesAmong start tree.children).map some :=
  map_locate?_pathsAmong start tree [] tree.children rfl

theorem mem_pathsAmong_of_getElem? {trees : List Subtree} {turn : Nat} {child : Subtree}
    (here : trees[turn]? = some child) (inner : path ∈ paths child) (index : Nat) :
    (index + turn) :: path ∈ pathsAmong index trees := by
  induction trees generalizing index turn with
  | nil => cases here
  | cons tree rest ih =>
    rw [pathsAmong_cons, List.mem_append]
    cases turn with
    | zero =>
      obtain rfl : tree = child := Option.some.inj here
      exact .inl (List.mem_map_of_mem inner)
    | succ turn =>
      have later := ih here (index + 1)
      rw [Nat.succ_add_eq_add_succ] at later
      exact .inr later

/-- No path that leads somewhere is left out. -/
theorem mem_paths_of_descend? {tree : Subtree} {place : Nat × Subtree}
    (there : tree.descend? path = some place) : path ∈ paths tree := by
  rw [paths_eq]
  induction path generalizing tree place with
  | nil => exact List.mem_cons_self
  | cons turn rest ih =>
    obtain ⟨child, within, here, further, -⟩ := descend?_cons.mp there
    have inner : rest ∈ paths child := by
      rw [paths_eq]
      exact ih further
    have listed := mem_pathsAmong_of_getElem? here inner 0
    rw [Nat.zero_add] at listed
    exact List.mem_cons_of_mem _ listed

end Reparse.Subtree
