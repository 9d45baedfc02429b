/-
Reparse/Proofs/Tree/Nested.lean

Trees are well nested, whatever their history.

A node that sums up its children starts where the first of them starts and ends
where the last one ends.  The nodes that are seen below it are found on the way
down through such nodes, so they stand one behind the other inside of it:
`Node.nested_of_regular`.  Parses and edits keep all nodes regular.  So what
can be wrong with the places in a tree is that its root ends elsewhere than
the text, and with the header grammar not even that: `Tree.Grown.nodes_nested`.
-/
import Reparse.Proofs.Tree.Tiles
import Reparse.Proofs.Verdict

namespace Reparse

open Subtree

/-! ### Visible subtrees and their places -/

namespace Subtree

/-- Subtrees at places from `start` up to `stop`, one behind the other. -/
structure Spread (start stop : Nat) (row : List (Subtree × Nat)) : Prop where
  le : start ≤ stop
  within : ∀ place ∈ row, start ≤ place.2 ∧ place.2 + place.1.totalSize ≤ stop
  ordered : row.Pairwise fun a b => a.2 + a.1.totalSize ≤ b.2

theorem spread_nil {start stop : Nat} (le : start ≤ stop) : Spread start stop [] where
  le := le
  within _ none := by cases none
  ordered := .nil

theorem spread_singleton (tree : Subtree) (start : Nat) :
    Spread start (start + tree.totalSize) [(tree, start)] where
  le := Nat.le_add_right start tree.totalSize
  within := List.forall_mem_singleton.mpr ⟨Nat.le_refl _, Nat.le_refl _⟩
  ordered := List.pairwise_singleton ..

theorem Spread.append {start middle stop : Nat} {xs ys : List (Subtree × Nat)}
    (h : Spread start middle xs) (h' : Spread middle stop ys) : Spread start stop (xs ++ ys) where
  le := Nat.le_trans h.le h'.le
  within place m := by
    have := h.le
    have := h'.le
    rcases List.mem_append.mp m with first | second
    · have := h.within place first
      omega
    · have := h'.within place second
      omega
  ordered := by
    refine List.pairwise_append.mpr ⟨h.ordered, h'.ordered, fun a first b second => ?_⟩
    exact Nat.le_trans (h.within a first).2 (h'.within b second).1

mutual

/-- What is seen of a subtree is spread over its extent. -/
theorem spread_visibleChildren (start : Nat) (tree : Subtree) (regular : Throughout Regular tree) :
    Spread start (start + tree.totalSize) (visibleChildren start tree) := by
  have span := regular.self.span
  obtain ⟨head, children⟩ := tree
  have row := spread_visibleAmong start children (throughout_iff.mp regular).2
  cases children with
  | nil => exact spread_nil (Nat.le_add_right ..)
  | cons first rest =>
    rw [span (List.cons_ne_nil first rest)]
    exact row

theorem spread_visibleAmong (start : Nat) (trees : List Subtree)
    (regular : ∀ tree ∈ trees, Throughout Regular tree) :
    Spread start (start + totalSizes trees) (visibleAmong start trees) := by
  cases trees with
  | nil => exact spread_nil (Nat.le_add_right ..)
  | cons tree rest =>
    obtain ⟨ht, hr⟩ := List.forall_mem_cons.mp regular
    have behind := spread_visibleAmong (start + tree.totalSize) rest hr
    rw [visibleAmong, totalSizes, ← Nat.add_assoc]
    refine Spread.append ?_ behind
    -- a hidden node stands for what is seen of it, a hidden token for nothing
    split
    · exact spread_singleton tree start
    · split
      · exact spread_nil (Nat.le_add_right ..)
      · exact spread_visibleChildren start tree ht

end

mutual

/-- What is seen of a subtree starts behind its padding. -/
theorem padding_le_visibleChildren (start : Nat) (tree : Subtree)
    (regular : Throughout Regular tree) :
    ∀ place ∈ visibleChildren start tree,
      start + tree.padding ≤ place.2 + place.1.padding := by
  have front := regular.self.front
  obtain ⟨head, children⟩ := tree
  have row := padding_le_visibleAmong start children (throughout_iff.mp regular).2
  cases children with
  | nil => exact fun _ none => by cases none
  | cons first rest =>
    rw [front first rfl]
    exact row first rfl

theorem padding_le_visibleAmong (start : Nat) (trees : List Subtree)
    (regular : ∀ tree ∈ trees, Throughout Regular tree) :
    ∀ first ∈ trees.head?, ∀ place ∈ visibleAmong start trees,
      start + first.padding ≤ place.2 + place.1.padding := by
  cases trees with
  | nil => exact fun _ none => by cases none
  | cons tree rest =>
    obtain ⟨ht, hr⟩ := List.forall_mem_cons.mp regular
    have behind := spread_visibleAmong (start + tree.totalSize) rest hr
    rintro first ⟨⟩ place m
    rw [visibleAmong, List.mem_append] at m
    rcases m with here | later
    · split at here
      · rw [List.mem_singleton.mp here]
      · split at here
        · cases here
        · exact padding_le_visibleChildren start tree ht place here
    · -- what comes later lies behind all of the first subtree
      have := (behind.within place later).1
      rw [totalSize] at this
      omega

end

end Subtree

/-! ### Nodes -/

/-- Whether the visible children of a node stand in it, one behind the other. -/
structure Node.Nested (node : Node) : Prop where
  ordered : node.children.Pairwise fun a b => a.endByte ≤ b.startByte
  behind : ∀ child ∈ node.children, node.startByte ≤ child.startByte
  within : ∀ child ∈ node.children, node.span.encloses child.span = true

/-- **A regular node is well nested.** -/
theorem Node.nested_of_regular (node : Node) (regular : Throughout Regular node.subtree) :
    node.Nested := by
  obtain ⟨subtree, start, language⟩ := node
  have spread := spread_visibleChildren start subtree regular
  have behind : ∀ child ∈ Node.children ⟨subtree, start, language⟩,
      start + subtree.padding ≤ child.startByte := by
    simp only [children, List.forall_mem_map]
    exact padding_le_visibleChildren start subtree regular
  refine ⟨?_, behind, fun child m => ?_⟩
  · rw [children, List.pairwise_map]
    exact spread.ordered.imp fun ordered => Nat.le_trans ordered (Nat.le_add_right ..)
  · have ends : ∀ child ∈ Node.children ⟨subtree, start, language⟩,
        child.endByte ≤ start + subtree.totalSize := by
      simp only [children, List.forall_mem_map]
      exact fun place m => (spread.within place m).2
    exact Bool.and_eq_true_iff.mpr ⟨decide_eq_true (behind child m), decide_eq_true (ends child m)⟩

/-- In a row of nodes that stand one behind the other in their parent none is misplaced. -/
theorem Node.misplacedChild?_eq_none (parent : Node) (previous : Nat) (row : List Node)
    (ordered : row.Pairwise fun a b => a.endByte ≤ b.startByte)
    (behind : ∀ child ∈ row, previous ≤ child.startByte)
    (within : ∀ child ∈ row, parent.span.encloses child.span = true) :
    parent.misplacedChild? previous row = none := by
  induction row generalizing previous with
  | nil => rfl
  | cons child rest ih =>
    obtain ⟨later, ordered⟩ := List.pairwise_cons.mp ordered
    obtain ⟨here, -⟩ := List.forall_mem_cons.mp behind
    obtain ⟨inside, within⟩ := List.forall_mem_cons.mp within
    rw [misplacedChild?, if_neg (Nat.not_lt.mpr here), inside]
    exact ih child.endByte ordered later within

/-- **What can be wrong with the places below a regular node** is where it ends itself. -/
theorem Node.misplacement?_eq (node : Node) (regular : Throughout Regular node.subtree)
    (size : Nat) :
    node.misplacement? size =
      if node.endByte ≠ size then some (.rootEnd node.endByte size) else none := by
  have measured : Throughout Measured node.subtree := regular.mono fun _ _ h => h.toMeasured
  have nested : (node.descendants.findSome? fun found =>
      found.misplacedChild? found.startByte found.children) = none := by
    rw [node.descendants_eq measured, List.findSome?_eq_none_iff]
    intro found m
    have h := found.nested_of_regular (node.throughout_family regular m).1
    exact found.misplacedChild?_eq_none _ _ h.ordered h.behind h.within
  rw [misplacement?, nested]

/-! ### Checks -/

/-- A fresh parse of a loaded language gives a regular root. -/
theorem Language.regular_parse {language : Language} {table : Table} {origin : Nat}
    (loaded : table.load origin = .ok language) (config : Config) (source : Text) :
    Throughout Regular (language.parse config source none).1.root :=
  (Tree.Grown.parse config source none fun _ e => by cases e).regular
    (Table.consistent_of_load loaded)

/-- A text is verified if its tree has no error and ends where the text does. -/
theorem Table.verifyParses_eq {table : Table} {language : Language}
    (loaded : table.load 0 = .ok language) (source : Text) :
    table.verifyParses source =
      let root := (language.parse {} source none).1.rootNode
      if root.hasError then .failed parseFailure
      else if root.endByte ≠ source.size then
        .failed ("Malformed syntax tree: " ++
          (Misplacement.rootEnd root.endByte source.size).message)
      else .passed := by
  have check := Node.misplacement?_eq (language.parse {} source none).1.rootNode
    (Language.regular_parse loaded {} source) source.size
  rw [verifyParses, loaded]
  simp only [check]
  split
  · rfl
  · by_cases elsewhere : (language.parse {} source none).1.rootNode.endByte ≠ source.size
    · rw [if_pos elsewhere, if_pos elsewhere]
    · rw [if_neg elsewhere, if_neg elsewhere]

/-- Whatever the table, a malformed tree is one whose root ends elsewhere than the text. -/
theorem Table.message_of_verifyParses (table : Table) (source : Text) (message : String)
    (failed : table.verifyParses source = .failed message) :
    message = loadFailure ∨ message = parseFailure ∨ ∃ stop, stop ≠ source.size ∧
      message = "Malformed syntax tree: " ++ (Misplacement.rootEnd stop source.size).message := by
  rcases loaded : table.load 0 with error | language
  · rw [verifyParses, loaded] at failed
    cases failed
    exact .inl rfl
  · rw [verifyParses_eq loaded] at failed
    dsimp only at failed
    split at failed
    · cases failed
      exact .inr (.inl rfl)
    · split at failed
      · rename_i elsewhere
        cases failed
        exact .inr (.inr ⟨_, elsewhere, rfl⟩)
      · cases failed

/-- The root of a header ends where a text below four gigabytes does. -/
theorem Header.verifyParses_header (source : Text) (small : source.size < UInt32.size) :
    Table.header.verifyParses source = .passed ∨
      Table.header.verifyParses source = .failed parseFailure := by
  obtain ⟨-, root⟩ := @evenRoot_parse (({} : Config).setting language source none)
    (Config.setting_old {} language source) (Table.consistent_of_load load_header)
  have stop : (language.parse {} source none).1.rootNode.endByte = source.size :=
    (Nat.zero_add _).trans (root.size small (endsText_header small))
  rw [Table.verifyParses_eq load_header]
  dsimp only
  split
  · exact .inr rfl
  · exact .inl (if_neg (not_not_intro stop))

/-! ### Any history -/

/-- **Every tree of a loaded language is well nested**, whatever parses and edits it comes
from: wherever a node stands in it, its visible children stand in it one behind the other.
So all that a check of the places can find is that the root ends elsewhere than the text,
and with the header grammar it finds nothing in a text below four gigabytes. -/
theorem Tree.Grown.nodes_nested {language : Language} {table : Table} {origin : Nat}
    (loaded : table.load origin = .ok language) {tree : Tree} (grown : tree.Grown language) :
    Everywhere (fun start subtree => Node.Nested ⟨subtree, start, tree.language⟩) 0 tree.root ∧
    (∀ size, tree.rootNode.misplacement? size =
      if tree.rootNode.endByte ≠ size then some (.rootEnd tree.rootNode.endByte size) else none) ∧
    (∀ (other : Table) (source : Text) (message : String),
      other.verifyParses source = .failed message →
      message = loadFailure ∨ message = parseFailure ∨ ∃ stop, stop ≠ source.size ∧
        message = "Malformed syntax tree: " ++ (Misplacement.rootEnd stop source.size).message) ∧
    ∀ source : Text, source.size < UInt32.size →
      Table.header.verifyParses source = .passed ∨
        Table.header.verifyParses source = .failed parseFailure := by
  have regular := grown.regular (Table.consistent_of_load loaded)
  refine ⟨regular.everywhere ?_ 0 tree.root, ?_, ?_, ?_⟩
  · exact fun start subtree regular => Node.nested_of_regular ⟨subtree, start, _⟩ regular
  · exact tree.rootNode.misplacement?_eq regular
  · exact Table.message_of_verifyParses
  · exact Header.verifyParses_header

namespace Word

/-- Two letters, of which the second is to move. -/
def parted : Tree :=
  (language.parse {} " a   a".toList none).1.edit ⟨4, 6, 5⟩

/-- The reparse of another text, with the first letter taken from the tree before, and an edit
that reaches far behind the end of it. -/
@[irreducible] def mangled : Tree :=
  (language.parse {} " a  xa".toList (some parted)).1.edit ⟨3, 100, 40⟩

theorem grown_mangled : mangled.Grown language := by
  have grown : parted.Grown language := .edit _ _ (.parse _ _ none fun _ e => by cases e)
  unfold mangled
  apply Tree.Grown.edit
  apply Tree.Grown.parse
  intro tree same _
  rw [← Option.some.inj same]
  exact grown

theorem nodes_nested_mangled :
    mangled.Grown language ∧ mangled.rootNode.children.length = 2 ∧
      Everywhere (fun start subtree => Node.Nested ⟨subtree, start, mangled.language⟩) 0
        mangled.root ∧
      mangled.rootNode.misplacement? mangled.rootNode.endByte = none := by
  obtain ⟨nested, places, -⟩ := Tree.Grown.nodes_nested load_encode grown_mangled
  have row : mangled.rootNode.children.length = 2 := by decide +kernel
  have whole := places mangled.rootNode.endByte
  rw [if_neg (not_not_intro rfl)] at whole
  exact ⟨grown_mangled, row, nested, whole⟩

end Word

end Reparse
