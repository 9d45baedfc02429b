/-
Reparse/Proofs/Tree/Preorder.lean

The walk through a tree visits its nodes in preorder.

The walk takes the children of a node from the back and keeps a stack of its
own; the outline of a tree is a recursion on subtrees.  They agree wherever
nodes are as long as their children, since the back end of a cursor finds the
places of the children from the end of their parent.

What is seen of a row of subtrees is among all nodes in it, in their order
(`sublist_seenAmong`); where tokens have no parts it is the visible ones
(`seenAmong_eq_filter`).  One call of a walk gives the topmost node and leaves
its children in its place (`Walk.next_cons`), so that a walk gives one family
after the other until it has none left (`Walk.collects_families`).

Main result: `descendants_eq`.
-/
import Reparse.Proofs.Subtree.Edited
import Reparse.Proofs.Subtree.Places
import Reparse.Tree.Outline
import Reparse.Tree.Walk

namespace Reparse

open Subtree

/-! ### Children from the back -/

namespace Subtree

theorem visibleAmong_append (start : Nat) (xs ys : List Subtree) :
    visibleAmong start (xs ++ ys) =
      visibleAmong start xs ++ visibleAmong (start + totalSizes xs) ys := by
  induction xs generalizing start with
  | nil => simp [visibleAmong, totalSizes]
  | cons x xs ih => simp [visibleAmong, ih, totalSizes, Nat.add_assoc]

theorem visibleChildren_eq (start : Nat) (tree : Subtree) :
    visibleChildren start tree = visibleAmong start tree.children := by
  cases tree
  rfl

mutual

theorem visibleCount_eq_length (start : Nat) (tree : Subtree) :
    visibleCount tree = (visibleChildren start tree).length := by
  obtain ⟨head, children⟩ := tree
  exact visibleCounts_eq_length start children

theorem visibleCounts_eq_length (start : Nat) (trees : List Subtree) :
    visibleCounts trees = (visibleAmong start trees).length := by
  cases trees with
  | nil => rfl
  | cons tree rest =>
    rw [visibleCounts, visibleAmong, List.length_append,
      visibleCounts_eq_length (start + tree.totalSize) rest]
    congr 1
    split
    · rfl
    · split
      · rfl
      · exact visibleCount_eq_length start tree

end

end Subtree

namespace Frame

/-- What is seen of a frame from the back, the last subtree first. -/
def seenBack (frame : Frame) : List (Subtree × Nat) :=
  (visibleAmong (frame.offset - totalSizes frame.ahead) frame.ahead.reverse).reverse

/-- A frame whose subtrees fit between the start of the text and its offset. -/
def Fits (frame : Frame) : Prop :=
  totalSizes frame.ahead ≤ frame.offset ∧ ∀ tree ∈ frame.ahead, Throughout Measured tree

theorem totalSizes_reverse (trees : List Subtree) :
    totalSizes trees.reverse = totalSizes trees := by
  induction trees with
  | nil => rfl
  | cons tree rest ih => simp [totalSizes, ih, Nat.add_comm]

/-- So do the subtrees in front of one that ends at the offset. -/
theorem Fits.ahead {tree : Subtree} {ahead : List Subtree} {offset : Nat}
    (h : Fits ⟨tree :: ahead, offset⟩) : Fits ⟨ahead, offset - tree.totalSize⟩ := by
  obtain ⟨room, measured⟩ := h
  constructor
  · simp only [totalSizes] at room
    show totalSizes ahead ≤ offset - tree.totalSize
    omega
  · intro other within
    exact measured other (List.mem_cons_of_mem tree within)

theorem seenBack_cons {tree : Subtree} {ahead : List Subtree} {offset : Nat}
    (h : Fits ⟨tree :: ahead, offset⟩) :
    seenBack ⟨tree :: ahead, offset⟩ =
      (visibleAmong (offset - tree.totalSize) [tree]).reverse ++
        seenBack ⟨ahead, offset - tree.totalSize⟩ := by
  have hs : offset - totalSizes (tree :: ahead) =
      offset - tree.totalSize - totalSizes ahead := by
    simp only [totalSizes]
    omega
  have hn : offset - tree.totalSize - totalSizes ahead + totalSizes ahead.reverse =
      offset - tree.totalSize := by
    have := h.1
    simp only [totalSizes, totalSizes_reverse] at this ⊢
    omega
  simp only [seenBack, List.reverse_cons, visibleAmong_append, List.reverse_append, hs, hn]

/-- The frames that are left behind a subtree. -/
theorem fits_behind {tree : Subtree} {ahead : List Subtree} {offset : Nat} {rest : List Frame}
    (fits : ∀ frame ∈ (⟨tree :: ahead, offset⟩ : Frame) :: rest, Fits frame) :
    ∀ frame ∈ (⟨ahead, offset - tree.totalSize⟩ : Frame) :: rest, Fits frame := by
  rw [List.forall_mem_cons] at fits ⊢
  exact ⟨fits.1.ahead, fits.2⟩

/-- The children of a subtree that ends somewhere, as a frame from the back. -/
theorem fits_children {tree : Subtree} {stop : Nat} (measured : Throughout Measured tree)
    (room : tree.totalSize ≤ stop) : Fits ⟨tree.children.reverse, stop⟩ := by
  constructor
  · show totalSizes tree.children.reverse ≤ stop
    rw [totalSizes_reverse]
    by_cases none : tree.children = []
    · rw [none]
      exact Nat.zero_le stop
    · rwa [← measured.self.span none]
  · intro child within
    exact measured.child (List.mem_reverse.mp within)

/-- The frames while the children of a subtree are gone through. -/
theorem fits_inside {tree : Subtree} {ahead : List Subtree} {offset : Nat} {rest : List Frame}
    (fits : ∀ frame ∈ (⟨tree :: ahead, offset⟩ : Frame) :: rest, Fits frame) :
    ∀ frame ∈ (⟨tree.children.reverse, offset⟩ : Frame) ::
      ⟨ahead, offset - tree.totalSize⟩ :: rest, Fits frame := by
  obtain ⟨room, measured⟩ := (List.forall_mem_cons.mp fits).1
  simp only [totalSizes] at room
  refine List.forall_mem_cons.mpr ⟨fits_children (measured tree List.mem_cons_self) ?_,
    fits_behind fits⟩
  omega

theorem seenBack_children {tree : Subtree} (measured : Measured tree) (stop : Nat) :
    seenBack ⟨tree.children.reverse, stop⟩ =
      (visibleChildren (stop - tree.totalSize) tree).reverse := by
  simp only [seenBack, List.reverse_reverse, totalSizes_reverse, visibleChildren_eq]
  by_cases none : tree.children = []
  · rw [none]
    rfl
  · rw [measured.span none]

/-- The back end gives what is seen of its frames from the back. -/
theorem nextBack_eq (frames : List Frame) (fits : ∀ frame ∈ frames, Fits frame) :
    (nextBack frames).1 = (frames.flatMap seenBack).head? ∧
      (nextBack frames).2.flatMap seenBack = (frames.flatMap seenBack).tail ∧
      ∀ frame ∈ (nextBack frames).2, Fits frame := by
  fun_induction nextBack frames with
  | case1 => simp
  | case2 offset rest ih =>
    simpa [seenBack, visibleAmong] using ih (List.forall_mem_cons.mp fits).2
  | case3 tree ahead offset rest start behind visible =>
    -- a visible subtree is what is seen next
    have here := fits ⟨tree :: ahead, offset⟩ (by simp)
    refine ⟨?_, ?_, fits_behind fits⟩
    · simp [seenBack_cons here, visibleAmong, visible, start]
    · simp [seenBack_cons here, visibleAmong, visible, start, behind]
  | case4 tree ahead offset rest start behind hidden atom ih =>
    -- a hidden token is passed over
    have here := fits ⟨tree :: ahead, offset⟩ (by simp)
    simpa [seenBack_cons here, visibleAmong, hidden, atom, behind, start] using
      ih (fits_behind fits)
  | case5 tree ahead offset rest start behind hidden inner ih =>
    -- the children of a hidden node take its place
    have here := fits ⟨tree :: ahead, offset⟩ (by simp)
    have inside := seenBack_children (here.2 tree (by simp)).self offset
    simpa [seenBack_cons here, visibleAmong, hidden, inner, behind, start, inside] using
      ih (fits_inside fits)

/-- One step of the back end, where there is something to be seen. -/
theorem nextBack_of_seen {frames : List Frame} (fits : ∀ frame ∈ frames, Fits frame)
    {place : Subtree × Nat} {places : List (Subtree × Nat)}
    (row : frames.flatMap seenBack = place :: places) :
    ∃ rest, nextBack frames = (some place, rest) ∧ rest.flatMap seenBack = places ∧
      ∀ frame ∈ rest, Fits frame := by
  obtain ⟨first, others, fits⟩ := nextBack_eq frames fits
  rw [row] at first others
  exact ⟨(nextBack frames).2, Prod.ext first rfl, others, fits⟩

end Frame

theorem Cursor.takeBack_eq (cursor : Cursor) (fits : ∀ frame ∈ cursor.back, frame.Fits) :
    Cursor.takeBack cursor.remaining cursor =
      ((cursor.back.flatMap Frame.seenBack).take cursor.remaining).map fun (subtree, start) =>
        ⟨subtree, start, cursor.language⟩ := by
  obtain ⟨language, front, back, remaining⟩ := cursor
  simp only at fits
  induction remaining generalizing back with
  | zero => simp [takeBack]
  | succ remaining ih =>
    rcases row : back.flatMap Frame.seenBack with - | ⟨⟨subtree, start⟩, places⟩
    · have none := (Frame.nextBack_eq back fits).1
      rw [row] at none
      rcases e : Frame.nextBack back with ⟨found, behind⟩
      rw [e] at none
      obtain rfl : found = _ := none
      simp [takeBack, nextBack, e]
    · obtain ⟨behind, e, rfl, fits'⟩ := Frame.nextBack_of_seen fits row
      have := ih behind fits'
      simp only [takeBack, nextBack, e, List.take_succ_cons, List.map_cons]
      simpa using this

/-- The back end of a new cursor has all children before it. -/
theorem Node.fits_cursor {node : Node} (measured : Throughout Measured node.subtree) :
    ∀ frame ∈ node.cursor.back, frame.Fits :=
  List.forall_mem_singleton.mpr (Frame.fits_children measured (Nat.le_add_left ..))

theorem Node.seenBack_cursor {node : Node} (measured : Throughout Measured node.subtree) :
    node.cursor.back.flatMap Frame.seenBack =
      (visibleChildren node.start node.subtree).reverse := by
  rw [cursor, List.flatMap_singleton, Frame.seenBack_children measured.self, Nat.add_sub_cancel]

theorem Node.childCount_eq (node : Node) : node.childCount = node.children.length := by
  rw [children, List.length_map]
  exact visibleCount_eq_length node.start node.subtree

/-- The cursor gives the visible children from the last to the first. -/
theorem Node.childrenFromBack_eq (node : Node) (h : Throughout Measured node.subtree) :
    node.childrenFromBack = node.children.reverse := by
  have taken := node.cursor.takeBack_eq (fits_cursor h)
  rw [seenBack_cursor h, List.map_take, List.map_reverse] at taken
  rw [childrenFromBack]
  refine taken.trans (List.take_of_length_le ?_)
  rw [List.length_reverse]
  exact Nat.le_of_eq node.childCount_eq.symm

/-! ### Outlines -/

namespace Subtree

mutual

/-- The outlines of a subtree are those of its visible children. -/
theorem outlines_eq_map (language : Language) (start : Nat) (tree : Subtree) :
    outlines language start tree =
      (visibleChildren start tree).map fun (subtree, start) =>
        Node.outline ⟨subtree, start, language⟩ := by
  obtain ⟨head, children⟩ := tree
  exact outlinesAmong_eq_map language start children

theorem outlinesAmong_eq_map (language : Language) (start : Nat) (trees : List Subtree) :
    outlinesAmong language start trees =
      (visibleAmong start trees).map fun (subtree, start) =>
        Node.outline ⟨subtree, start, language⟩ := by
  cases trees with
  | nil => rfl
  | cons tree rest =>
    rw [outlinesAmong, visibleAmong, List.map_append, outlinesAmong_eq_map]
    congr 1
    split
    · rfl
    · split
      · rfl
      · exact outlines_eq_map language start tree

end

end Subtree

theorem Node.outline_eq (node : Node) :
    node.outline = .mk node (node.children.map Node.outline) := by
  rw [outline, outlines_eq_map, children]
  simp

theorem Outline.preorders_eq_flatMap (depth : Nat) (outlines : List Outline) :
    preorders depth outlines = outlines.flatMap (preorder depth) := by
  induction outlines with
  | nil => rfl
  | cons outline rest ih => simp [preorders, ih]

/-! ### What is seen -/

namespace Outline

mutual

/-- Which nodes there are does not depend on the depth that one counts from. -/
theorem nodes_preorder (a b : Nat) (outline : Outline) :
    (outline.preorder a).map (·.2) = (outline.preorder b).map (·.2) := by
  obtain ⟨node, children⟩ := outline
  rw [preorder, preorder, List.map_cons, List.map_cons, nodes_preorders (a + 1) (b + 1) children]

theorem nodes_preorders (a b : Nat) (outlines : List Outline) :
    (preorders a outlines).map (·.2) = (preorders b outlines).map (·.2) := by
  cases outlines with
  | nil => rfl
  | cons outline rest =>
    rw [preorders, preorders, List.map_append, List.map_append, nodes_preorder a b outline,
      nodes_preorders a b rest]

end

end Outline

/-- The nodes seen below a node, itself included, in preorder. -/
def Node.family (node : Node) : List Node :=
  (node.outline.preorder 0).map (·.2)

theorem Node.family_eq (node : Node) :
    node.family = node :: node.children.flatMap Node.family := by
  have each (child : Node) : (child.outline.preorder 1).map (·.2) = child.family :=
    Outline.nodes_preorder 1 0 child.outline
  rw [family, outline_eq, Outline.preorder, Outline.preorders_eq_flatMap]
  simp only [List.map_cons, List.map_flatMap, List.flatMap_map, each]

namespace Subtree

/-- The nodes seen of a row of subtrees, in preorder. -/
def seenAmong (language : Language) (start : Nat) (trees : List Subtree) : List Node :=
  (Outline.preorders 0 (outlinesAmong language start trees)).map (·.2)

@[simp] theorem seenAmong_nil (language : Language) (start : Nat) :
    seenAmong language start [] = [] := rfl

/-- What is seen of a subtree comes in front of what is seen of those behind it. -/
theorem seenAmong_cons (language : Language) (start : Nat) (tree : Subtree)
    (rest : List Subtree) :
    seenAmong language start (tree :: rest) =
      (if tree.marks.visible then ⟨tree, start, language⟩ :: seenAmong language start tree.children
        else if tree.marks.token then []
        else seenAmong language start tree.children) ++
        seenAmong language (start + tree.totalSize) rest := by
  have below (depth : Nat) :
      (Outline.preorders depth (outlines language start tree)).map (·.2) =
        seenAmong language start tree.children := by
    obtain ⟨head, children⟩ := tree
    exact Outline.nodes_preorders depth 0 _
  rw [seenAmong, outlinesAmong, Outline.preorders_eq_flatMap, List.flatMap_append, List.map_append,
    ← Outline.preorders_eq_flatMap, ← Outline.preorders_eq_flatMap]
  congr 1
  split
  · rw [Outline.preorders, Outline.preorders, List.append_nil, Outline.preorder, List.map_cons,
      below 1]
  · split
    · rfl
    · exact below 0

end Subtree

theorem Node.family_eq_cons (node : Node) :
    node.family = node :: seenAmong node.language node.start node.subtree.children := by
  obtain ⟨⟨head, children⟩, start, language⟩ := node
  rw [family, outline, Outline.preorder, List.map_cons]
  exact congrArg _ (Outline.nodes_preorders 1 0 _)

/-! ### Among all nodes -/

namespace Subtree

/-- The node at a place. -/
def nodeAt (language : Language) (place : Nat × Subtree) : Node :=
  ⟨place.2, place.1, language⟩

/-- What is seen is among all nodes, in their order. -/
theorem sublist_seenAmong (language : Language) (start : Nat) (trees : List Subtree) :
    (seenAmong language start trees).Sublist
      ((placesAmong start trees).map (nodeAt language)) := by
  induction trees using inductionOnRow generalizing start with
  | nil => exact List.nil_sublist _
  | cons tree rest below behind =>
    rw [seenAmong_cons, placesAmong_cons, List.map_append, places_eq, List.map_cons]
    refine List.Sublist.append ?_ (behind _)
    split
    · exact (below start).cons_cons _
    · split
      · exact List.nil_sublist _
      · exact (below start).cons _

/-- Whether the node at a place is visible. -/
def isSeen (place : Nat × Subtree) : Bool :=
  place.2.marks.visible

/-- **Where tokens have no parts**, what is seen is the visible ones among all nodes. -/
theorem seenAmong_eq_filter (language : Language) (start : Nat) (trees : List Subtree)
    (atoms : ∀ tree ∈ trees,
      Throughout (fun node => node.marks.token = true → node.children = []) tree) :
    seenAmong language start trees =
      ((placesAmong start trees).filter isSeen).map (nodeAt language) := by
  induction trees using inductionOnRow generalizing start with
  | nil => rfl
  | cons tree rest below behind =>
    obtain ⟨here, later⟩ := List.forall_mem_cons.mp atoms
    have below := below start (throughout_iff.mp here).2
    rw [seenAmong_cons, placesAmong_cons, List.filter_append, List.map_append, places_eq,
      behind _ later]
    congr 1
    split
    · rename_i visible
      have kept : isSeen (start, tree) = true := visible
      rw [List.filter_cons_of_pos kept, List.map_cons, below]
      rfl
    · rename_i hidden
      have dropped : ¬ isSeen (start, tree) = true := hidden
      rw [List.filter_cons_of_neg dropped]
      split
      · rename_i token
        rw [here.self token]
        rfl
      · exact below

mutual

theorem length_places (start : Nat) (tree : Subtree) :
    (places start tree).length = count tree := by
  obtain ⟨head, children⟩ := tree
  rw [places, count, List.length_cons, length_placesAmong start children]

theorem length_placesAmong (start : Nat) (trees : List Subtree) :
    (placesAmong start trees).length = counts trees := by
  cases trees with
  | nil => rfl
  | cons tree rest =>
    rw [placesAmong, counts, List.length_append, length_places start tree,
      length_placesAmong _ rest]

end

end Subtree

namespace Node

theorem family_sublist (node : Node) :
    node.family.Sublist ((places node.start node.subtree).map (nodeAt node.language)) := by
  rw [node.family_eq_cons, places_eq, List.map_cons]
  exact (sublist_seenAmong node.language node.start node.subtree.children).cons_cons node

/-- Properties of subtrees hold of all that is seen. -/
theorem throughout_family {P : Subtree → Prop} (node : Node) {found : Node}
    (h : Throughout P node.subtree) (hf : found ∈ node.family) :
    Throughout P found.subtree ∧ found.language = node.language := by
  obtain ⟨place, listed, rfl⟩ := List.mem_map.mp (node.family_sublist.subset hf)
  obtain ⟨path, offset, there, -⟩ := mem_places_iff.mp listed
  exact ⟨h.descend? there, rfl⟩

theorem throughout_children {P : Subtree → Prop} {node : Node}
    (h : Throughout P node.subtree) : ∀ child ∈ node.children, Throughout P child.subtree := by
  intro child within
  have self : child ∈ child.family := by
    rw [child.family_eq]
    exact List.mem_cons_self
  have seen : child ∈ node.family := by
    rw [node.family_eq]
    exact List.mem_cons_of_mem node (List.mem_flatMap.mpr ⟨child, within, self⟩)
  exact (node.throughout_family h seen).1

/-- No more nodes are seen of a node than there are subtrees in it. -/
theorem length_family_le (node : Node) : node.family.length ≤ node.subtree.count := by
  have listed := node.family_sublist.length_le
  rwa [List.length_map, length_places] at listed

end Node

/-! ### Walks -/

namespace Walk

/-- One call of a walk gives the topmost node and leaves its children in its place. -/
theorem next_cons {node : Node} (measured : Throughout Measured node.subtree) (rest : Walk) :
    next (node :: rest) = some (node, node.children ++ rest) := by
  have pushed : node.childrenFromBack.foldl (fun walk child => child :: walk) rest =
      node.children ++ rest := by
    rw [node.childrenFromBack_eq measured, List.foldl_reverse]
    exact List.foldr_cons_eq_append'
  rw [next, pushed]

/-- The nodes that a walk gives until it has none left. -/
inductive Collects : Walk → List Node → Prop
  | finished {walk : Walk} (none : next walk = none) : Collects walk []
  | found {walk rest : Walk} {node : Node} {nodes : List Node}
      (next : next walk = some (node, rest)) (more : Collects rest nodes) :
      Collects walk (node :: nodes)

/-- There is only one way to go on. -/
theorem Collects.unique {walk : Walk} {nodes others : List Node} (first : Collects walk nodes)
    (second : Collects walk others) : nodes = others := by
  induction first generalizing others with
  | finished none =>
    cases second with
    | finished => rfl
    | found next =>
      rw [none] at next
      cases next
  | found next more ih =>
    cases second with
    | finished none =>
      rw [next] at none
      cases none
    | found again rest =>
      rw [next] at again
      obtain ⟨rfl, rfl⟩ := Prod.mk.inj (Option.some.inj again)
      rw [ih rest]

/-- A bounded number of calls gives as many of them. -/
theorem Collects.take_eq {walk : Walk} {nodes : List Node} (collected : Collects walk nodes)
    (count : Nat) : take count walk = nodes.take count := by
  induction collected generalizing count with
  | finished none =>
    cases count with
    | zero => rfl
    | succ count => rw [take, none, List.take_nil]
  | found next more ih =>
    cases count with
    | zero => rfl
    | succ count => rw [take, next, List.take_succ_cons, ← ih count]

/-- **A walk gives its nodes**, each with everything below it. -/
theorem collects_families {walk : Walk} (h : ∀ node ∈ walk, Throughout Measured node.subtree) :
    Collects walk (walk.flatMap Node.family) := by
  -- each call takes the first node off that list, and the walk that is left has the rest of it
  generalize e : walk.flatMap Node.family = nodes
  induction nodes generalizing walk with
  | nil =>
    cases walk with
    | nil => exact .finished rfl
    | cons node rest =>
      rw [List.flatMap_cons, node.family_eq] at e
      cases e
  | cons found nodes ih =>
    cases walk with
    | nil => cases e
    | cons node rest =>
      obtain ⟨here, later⟩ := List.forall_mem_cons.mp h
      rw [List.flatMap_cons, node.family_eq, List.cons_append, ← List.flatMap_append] at e
      obtain ⟨rfl, remaining⟩ := List.cons.inj e
      refine .found (next_cons here rest) (ih (fun child within => ?_) remaining)
      rcases List.mem_append.mp within with below | behind
      · exact Node.throughout_children here child below
      · exact later child behind

end Walk

/-- Until a walk through a node has none left, it gives all that is seen of it. -/
theorem Node.collects_family (node : Node) (h : Throughout Measured node.subtree) :
    Walk.Collects [node] node.family := by
  have collected := Walk.collects_families (List.forall_mem_singleton.mpr h)
  rwa [List.flatMap_singleton] at collected

/-- **A walk visits the nodes in preorder.** -/
theorem Node.descendants_eq (node : Node) (h : Throughout Measured node.subtree) :
    node.descendants = node.family := by
  rw [descendants, (node.collects_family h).take_eq]
  exact List.take_of_length_le node.length_family_le

end Reparse
