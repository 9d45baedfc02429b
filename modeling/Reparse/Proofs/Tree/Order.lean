/-
Reparse/Proofs/Tree/Order.lean

The order in which a walk comes to the nodes of a tree.

A walk shows a node and then, for each of its visible children in turn, all
that is seen of that child.  In a tree whose tokens have no parts those are the
visible ones among all nodes, as preorder has them (`Node.family_eq_filter`),
so that they can be told without a walk: they are at the ends of the paths that
lead to something visible, in the order of the paths (`Node.lists_family`).

A search in the walk finds what it looks for where no path in front of it leads
to the like (`Node.Lists.find?_eq_some_iff`).  The error that is reported for
a tree is found by two such searches.

Main result: `Tree.Grown.descendants_ordered`.
-/
import Reparse.Proofs.Header.Table
import Reparse.Proofs.Subtree.Paths
import Reparse.Proofs.Tree.Grown
import Reparse.Proofs.Tree.Sight

namespace Reparse

open Subtree

/-- What is seen of a node is the node itself and all visible nodes below it. -/
theorem Node.family_eq_filter (node : Node) (regular : Throughout Regular node.subtree) :
    node.family = node ::
      ((placesAmong node.start node.subtree.children).filter isSeen).map
        (nodeAt node.language) := by
  have atoms : ∀ child ∈ node.subtree.children,
      Throughout (fun part => part.marks.token = true → part.children = []) child := by
    intro child within
    exact (regular.child within).mono fun _ _ regular => regular.atom
  rw [family_eq_cons, seenAmong_eq_filter node.language node.start _ atoms]

/-! ### Paths to what is seen -/

namespace Node

variable {node found : Node} {path : List Nat}

/-- The node that a path of child indices leads to, hidden nodes on the way included. -/
def locate? (node : Node) (path : List Nat) : Option Node :=
  (node.subtree.locate? node.start path).map (nodeAt node.language)

/-- Whether a path leads to something that is seen of a node: a visible node or the node
itself. -/
def Sees (node : Node) (path : List Nat) (found : Node) : Prop :=
  node.locate? path = some found ∧ (path = [] ∨ found.subtree.marks.visible = true)

/-- Whether a row of nodes has the end of each path to what is seen, once and in the order of the
paths. -/
def Lists (node : Node) (nodes : List Node) : Prop :=
  ∃ ways : List (List Nat), ways.Pairwise InFront ∧
    (∀ way, way ∈ ways ↔ ∃ found, node.Sees way found) ∧
    ways.map node.locate? = nodes.map some

theorem mem_paths_of_locate? (there : node.locate? path = some found) :
    path ∈ paths node.subtree := by
  obtain ⟨place, located, -⟩ := Option.map_eq_some_iff.mp there
  obtain ⟨inner, further, -⟩ := Option.map_eq_some_iff.mp located
  exact mem_paths_of_descend? further

/-- Whether a path leads to a visible node. -/
def leadsToVisible (node : Node) (path : List Nat) : Bool :=
  (node.locate? path).any (·.subtree.marks.visible)

theorem leadsToVisible_iff : node.leadsToVisible path = true ↔
    ∃ found, node.locate? path = some found ∧ found.subtree.marks.visible = true :=
  Option.any_eq_true ..

/-- The paths below a node lead to what is listed there. -/
theorem map_locate?_below (node : Node) :
    (pathsAmong 0 node.subtree.children).map node.locate? =
      ((placesAmong node.start node.subtree.children).map (nodeAt node.language)).map some := by
  have located := Subtree.map_locate?_below node.start node.subtree
  calc (pathsAmong 0 node.subtree.children).map node.locate?
      = ((pathsAmong 0 node.subtree.children).map (node.subtree.locate? node.start)).map
          (Option.map (nodeAt node.language)) := by rw [List.map_map]; rfl
    _ = ((placesAmong node.start node.subtree.children).map some).map
          (Option.map (nodeAt node.language)) := by rw [located]
    _ = ((placesAmong node.start node.subtree.children).map (nodeAt node.language)).map some := by
      rw [List.map_map, List.map_map]; rfl

/-- **What is seen of a node** is at the ends of the paths that lead to something visible, in the
order of the paths. -/
theorem lists_family (regular : Throughout Regular node.subtree) : node.Lists node.family := by
  have listed := node.map_locate?_below
  have ordered := pairwise_paths node.subtree
  rw [paths_eq] at ordered
  refine ⟨[] :: (pathsAmong 0 node.subtree.children).filter node.leadsToVisible, ?_, ?_, ?_⟩
  · exact ordered.sublist (List.filter_sublist.cons_cons [])
  · intro way
    rw [List.mem_cons, List.mem_filter, leadsToVisible_iff]
    constructor
    · rintro (rfl | ⟨-, found, there, visible⟩)
      · exact ⟨node, rfl, .inl rfl⟩
      · exact ⟨found, there, .inr visible⟩
    · rintro ⟨found, there, rfl | visible⟩
      · exact .inl rfl
      · have inside := mem_paths_of_locate? there
        rw [paths_eq, List.mem_cons] at inside
        exact inside.imp_right fun below => ⟨below, found, there, visible⟩
  · have visible : ((pathsAmong 0 node.subtree.children).filter node.leadsToVisible).map
        node.locate? =
          (((placesAmong node.start node.subtree.children).filter isSeen).map
            (nodeAt node.language)).map some := by
      -- the filter goes from the paths to the ends of the paths
      have ends := congrArg (List.filter (Option.any (·.subtree.marks.visible))) listed
      rw [List.filter_map, List.filter_map, List.filter_map] at ends
      exact ends
    rw [node.family_eq_filter regular, List.map_cons, List.map_cons, visible]
    rfl

/-! ### Searches -/

/-- Whether a node is the first of those seen that have a property: no path in front of the one
to it leads to another. -/
def Earliest (node : Node) (p : Node → Bool) (found : Node) : Prop :=
  ∃ way, node.Sees way found ∧ p found = true ∧
    ∀ earlier other, InFront earlier way → node.Sees earlier other → p other = false

end Node

/-- A search along the ends of ascending paths stops at the first of them. -/
theorem find?_eq_some_iff_of_ways {p : Node → Bool} {endOf : List Nat → Option Node}
    {ways : List (List Nat)} {nodes : List Node} {found : Node} (ordered : ways.Pairwise InFront)
    (ends : ways.map endOf = nodes.map some) :
    nodes.find? p = some found ↔
      ∃ way ∈ ways, endOf way = some found ∧ p found = true ∧
        ∀ earlier ∈ ways, InFront earlier way →
          ∀ other, endOf earlier = some other → p other = false := by
  induction ways generalizing nodes with
  | nil =>
    obtain rfl : nodes = [] := List.map_eq_nil_iff.mp ends.symm
    simp
  | cons way ways ih =>
    cases nodes with
    | nil => cases ends
    | cons node nodes =>
      obtain ⟨here, ends⟩ := List.cons.inj ends
      obtain ⟨first, ordered⟩ := List.pairwise_cons.mp ordered
      rw [List.find?_cons]
      rcases fits : p node with - | -
      · -- the first one is passed over
        show nodes.find? p = some found ↔ _
        rw [ih ordered ends]
        constructor
        · rintro ⟨other, later, there, hit, none⟩
          refine ⟨other, List.mem_cons_of_mem way later, there, hit, ?_⟩
          intro earlier listed before passed reached
          rcases List.mem_cons.mp listed with rfl | listed
          · rw [← Option.some.inj (here.symm.trans reached)]
            exact fits
          · exact none earlier listed before passed reached
        · rintro ⟨other, listed, there, hit, none⟩
          rcases List.mem_cons.mp listed with rfl | later
          · rw [← Option.some.inj (here.symm.trans there), fits] at hit
            cases hit
          · exact ⟨other, later, there, hit, fun earlier listed =>
              none earlier (List.mem_cons_of_mem way listed)⟩
      · -- the first one is found, and all others are behind it
        show some node = some found ↔ _
        constructor
        · rintro ⟨⟩
          refine ⟨way, List.mem_cons_self, here, fits, ?_⟩
          intro earlier listed before
          rcases List.mem_cons.mp listed with rfl | later
          · exact absurd rfl before.ne
          · exact absurd before (first earlier later).asymm
        · rintro ⟨other, listed, there, -, none⟩
          rcases List.mem_cons.mp listed with rfl | later
          · exact here.symm.trans there
          · have := none way List.mem_cons_self (first other later) node here
            rw [fits] at this
            cases this

namespace Node

variable {node found : Node} {nodes : List Node} {p : Node → Bool}

/-- All that is seen is listed, and nothing else. -/
theorem Lists.mem_iff (h : node.Lists nodes) : found ∈ nodes ↔ ∃ way, node.Sees way found := by
  obtain ⟨ways, -, all, ends⟩ := h
  constructor
  · intro listed
    have image : some found ∈ ways.map node.locate? := ends ▸ List.mem_map_of_mem listed
    obtain ⟨way, inside, there⟩ := List.mem_map.mp image
    obtain ⟨other, sees⟩ := (all way).mp inside
    obtain rfl : other = found := Option.some.inj (sees.1.symm.trans there)
    exact ⟨way, sees⟩
  · rintro ⟨way, sees⟩
    have image : some found ∈ nodes.map some :=
      ends ▸ List.mem_map.mpr ⟨way, (all way).mpr ⟨found, sees⟩, sees.1⟩
    obtain ⟨other, listed, same⟩ := List.mem_map.mp image
    exact Option.some.inj same ▸ listed

/-- **A search finds the earliest node** of those that have the property. -/
theorem Lists.find?_eq_some_iff (h : node.Lists nodes) :
    nodes.find? p = some found ↔ node.Earliest p found := by
  obtain ⟨ways, ordered, all, ends⟩ := h
  rw [find?_eq_some_iff_of_ways ordered ends]
  constructor
  · rintro ⟨way, inside, there, hit, none⟩
    obtain ⟨other, sees⟩ := (all way).mp inside
    obtain rfl : other = found := Option.some.inj (sees.1.symm.trans there)
    refine ⟨way, sees, hit, ?_⟩
    intro earlier passed before seen
    exact none earlier ((all earlier).mpr ⟨passed, seen⟩) before passed seen.1
  · rintro ⟨way, sees, hit, none⟩
    refine ⟨way, (all way).mpr ⟨found, sees⟩, sees.1, hit, ?_⟩
    intro earlier inside before passed there
    obtain ⟨other, seen⟩ := (all earlier).mp inside
    obtain rfl : other = passed := Option.some.inj (seen.1.symm.trans there)
    exact none earlier other before seen

theorem Lists.find?_eq_none_iff (h : node.Lists nodes) :
    nodes.find? p = none ↔ ∀ way other, node.Sees way other → p other = false := by
  rw [List.find?_eq_none]
  constructor
  · intro none way other sees
    exact Bool.eq_false_iff.mpr (none other (h.mem_iff.mpr ⟨way, sees⟩))
  · intro none other listed hit
    obtain ⟨way, sees⟩ := h.mem_iff.mp listed
    rw [none way other sees] at hit
    cases hit

/-! ### The order of a walk -/

/-- A node that a walk goes through in order. -/
structure Ordered (node : Node) : Prop where
  /-- Calls of a walk give the nodes of the list until there is none left, and no others. -/
  collected : ∀ nodes, Walk.Collects [node] nodes ↔ nodes = node.descendants
  /-- The node itself comes first, and then all that there is of each child in turn. -/
  recursive : node.descendants = node :: node.children.flatMap Node.descendants
  /-- Each visible node is listed once, where its path stands among all paths. -/
  listed : node.Lists node.descendants
  /-- The error that is reported is the earliest error production, or else the earliest skipped
  or missing node. -/
  error : ∀ found, node.firstError? = some found ↔ node.hasError = true ∧
    (node.Earliest (·.isRecovery) found ∨
      (∀ way other, node.Sees way other → other.isRecovery = false) ∧
        node.Earliest (fun other => other.isError || other.isMissing) found)
  /-- None is reported where there is none to be seen. -/
  flawless : node.firstError? = none ↔ node.hasError = false ∨
    ∀ way other, node.Sees way other → other.isFaulty = false

theorem Lists.firstError?_eq_some_iff (h : node.Lists node.descendants) :
    node.firstError? = some found ↔ node.hasError = true ∧
      (node.Earliest (·.isRecovery) found ∨
        (∀ way other, node.Sees way other → other.isRecovery = false) ∧
          node.Earliest (fun other => other.isError || other.isMissing) found) := by
  rw [firstError?]
  split
  · rename_i error
    rw [Option.or_eq_some_iff, h.find?_eq_some_iff, h.find?_eq_none_iff, h.find?_eq_some_iff,
      and_iff_right error]
  · rename_i clean
    constructor
    · intro found
      cases found
    · intro found
      exact absurd found.1 clean

theorem Lists.firstError?_eq_none_iff (h : node.Lists node.descendants) :
    node.firstError? = none ↔ node.hasError = false ∨
      ∀ way other, node.Sees way other → other.isFaulty = false := by
  rw [firstError?]
  split
  · rename_i error
    rw [Option.or_eq_none_iff, h.find?_eq_none_iff, h.find?_eq_none_iff]
    constructor
    · rintro ⟨plain, whole⟩
      right
      intro way other sees
      rw [isFaulty, Bool.or_assoc, plain way other sees, whole way other sees]
      rfl
    · rintro (clean | none)
      · rw [error] at clean
        cases clean
      · have parts {way : List Nat} {other : Node} (sees : node.Sees way other) :
            other.isRecovery = false ∧ (other.isError || other.isMissing) = false := by
          have fine := none way other sees
          rw [isFaulty, Bool.or_assoc] at fine
          exact Bool.or_eq_false_iff.mp fine
        exact ⟨fun _ _ sees => (parts sees).1, fun _ _ sees => (parts sees).2⟩
  · rename_i clean
    exact ⟨fun _ => .inl (Bool.eq_false_iff.mpr clean), fun _ => rfl⟩

/-- **A walk goes through a node in order**, where tokens have no parts and nodes are as long as
their children. -/
theorem ordered_of_regular (regular : Throughout Regular node.subtree) : node.Ordered := by
  have measured : Throughout Measured node.subtree := regular.mono fun _ _ h => h.toMeasured
  have walked := node.descendants_eq measured
  have lists : node.Lists node.descendants := walked ▸ lists_family regular
  have collects : Walk.Collects [node] node.descendants := walked ▸ node.collects_family measured
  refine ⟨?_, ?_, lists, fun _ => lists.firstError?_eq_some_iff, lists.firstError?_eq_none_iff⟩
  · intro nodes
    constructor
    · intro collected
      exact collected.unique collects
    · rintro rfl
      exact collects
  · have each : node.children.map Node.family = node.children.map Node.descendants := by
      apply List.map_congr_left
      intro child within
      exact (child.descendants_eq (throughout_children measured child within)).symm
    rw [walked, node.family_eq, List.flatMap_def, List.flatMap_def, each]

end Node

/-! ### Any history -/

/-- **Walks are in preorder.**  In each tree of a loaded language, whatever parses and edits it
comes from, a walk from any node gives the node and then what it gives from each visible child in
turn.  So it comes to each visible node below it once, at its place, and in the order of the
paths; and the error that is reported is the earliest of its sort in that order. -/
theorem Tree.Grown.descendants_ordered {language : Language} {table : Table} {origin : Nat}
    (loaded : table.load origin = .ok language) {tree : Tree} (grown : tree.Grown language) :
    Everywhere (fun start subtree => Node.Ordered ⟨subtree, start, tree.language⟩) 0 tree.root := by
  have regular := grown.regular (Table.consistent_of_load loaded)
  apply regular.everywhere
  intro start subtree regular
  exact @Node.ordered_of_regular ⟨subtree, start, tree.language⟩ regular

namespace Header

/-- A header without its second bracket that has lost both newlines. -/
@[irreducible] def shrunk : Tree :=
  (language.parse {} "[DOCUMENT\n\n\x00".toList none).1.edit ⟨9, 11, 9⟩

/-- The bracket that was put in, both newlines and the end of the text stand at one place, and yet
a walk comes to each of them.  The bracket is the error that is reported. -/
theorem descendants_ordered_shrunk :
    shrunk.Grown language ∧
    shrunk.rootNode.descendants.map (fun node => (node.symbol, node.start)) =
      [(topNode, 0), (document, 0), (leftBracket, 0), (documentLiteral, 1),
        (rightBracketError, 9), (newlineCharacter, 9), (newlineCharacter, 9), (eof, 9)] ∧
    Everywhere (fun start subtree => Node.Ordered ⟨subtree, start, shrunk.language⟩) 0
      shrunk.root ∧
    ∃ found, shrunk.rootNode.firstError? = some found ∧ found.symbol = rightBracketError ∧
      shrunk.rootNode.Earliest (·.isRecovery) found := by
  have grown : shrunk.Grown language := by
    unfold shrunk
    exact .edit _ _ (.parse _ _ none fun _ none => by cases none)
  have walked : shrunk.rootNode.descendants = shrunk.rootNode.family :=
    Node.descendants_eq _ (grown.measured (Table.consistent_of_load load_header))
  have ordered := Tree.Grown.descendants_ordered load_header grown
  have root : shrunk.rootNode.Ordered := (everywhere_iff.mp ordered).1
  obtain ⟨found, reported, same⟩ := Option.map_eq_some_iff.mp
    (show shrunk.rootNode.firstError?.map (fun node => (node.symbol, node.isRecovery)) =
      some (rightBracketError, true) by
        rw [Node.firstError?, walked]
        decide +kernel)
  obtain ⟨symbol, recovery⟩ := Prod.mk.inj same
  refine ⟨grown, ?_, ordered, found, reported, symbol, ?_⟩
  · rw [walked]
    decide +kernel
  · obtain ⟨-, first | ⟨none, way, sees, -⟩⟩ := (root.error found).mp reported
    · exact first
    · rw [none way found sees] at recovery
      cases recovery

end Header

end Reparse
