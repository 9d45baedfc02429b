/-
Reparse/Proofs/Tree/Sight.lean

What a reader of a tree gets to see.

`Tree.sights` lists the visible nodes in preorder, each with all that can be
asked of it.  The list depends on the bare form of the root only, and so does
the error that is reported for the tree.  That error is the first error
production of the root in preorder, hidden nodes included: `firstRepair?` finds
it by a recursion on subtrees.
-/
import Reparse.Document
import Reparse.Proofs.Run.OnStack
import Reparse.Proofs.Subtree.Bare
import Reparse.Proofs.Tree.Preorder

namespace Reparse

open Subtree

/-- All that can be asked of a node at some depth of a tree. -/
structure Sight where
  depth : Nat
  kind : String
  start : Nat
  stop : Nat
  isNamed : Bool
  isError : Bool
  isMissing : Bool
  isExtra : Bool
  isRecovery : Bool
  hasError : Bool
  hasChanges : Bool
deriving DecidableEq

def Node.sight (depth : Nat) (node : Node) : Sight where
  depth := depth
  kind := node.kind
  start := node.startByte
  stop := node.endByte
  isNamed := node.isNamed
  isError := node.isError
  isMissing := node.isMissing
  isExtra := node.isExtra
  isRecovery := node.isRecovery
  hasError := node.hasError
  hasChanges := node.hasChanges

/-- The visible nodes of a tree in preorder. -/
def Tree.sights (tree : Tree) : List Sight :=
  (tree.rootNode.outline.preorder 0).map fun (depth, node) => node.sight depth

/-! ### Bare trees -/

namespace Outline

mutual

/-- An outline of bare nodes. -/
def bare : Outline → Outline
  | mk node children => mk { node with subtree := node.subtree.bare } (bares children)

/-- The same for a row of outlines. -/
def bares : List Outline → List Outline
  | [] => []
  | outline :: rest => bare outline :: bares rest

end

theorem bares_eq_map (outlines : List Outline) : bares outlines = outlines.map bare := by
  induction outlines with
  | nil => rfl
  | cons outline rest ih => rw [bares, ih, List.map_cons]

mutual

theorem sights_bare (depth : Nat) (outline : Outline) :
    (preorder depth outline.bare).map (fun found => found.2.sight found.1) =
      (preorder depth outline).map (fun found => found.2.sight found.1) := by
  obtain ⟨⟨⟨head, below⟩, start, language⟩, children⟩ := outline
  rw [bare, preorder, preorder, List.map_cons, List.map_cons, sights_bares (depth + 1) children]
  rfl

theorem sights_bares (depth : Nat) (outlines : List Outline) :
    (preorders depth (bares outlines)).map (fun found => found.2.sight found.1) =
      (preorders depth outlines).map (fun found => found.2.sight found.1) := by
  cases outlines with
  | nil => rfl
  | cons outline rest =>
    rw [bares, preorders, preorders, List.map_append, List.map_append, sights_bare depth outline,
      sights_bares depth rest]

end

end Outline

namespace Subtree

mutual

/-- A bare tree has the outlines of the tree, with bare nodes. -/
theorem outlines_bare (language : Language) (start : Nat) (tree : Subtree) :
    outlines language start tree.bare = Outline.bares (outlines language start tree) := by
  obtain ⟨head, children⟩ := tree
  exact outlinesAmong_bares language start children

theorem outlinesAmong_bares (language : Language) (start : Nat) (trees : List Subtree) :
    outlinesAmong language start (bares trees) =
      Outline.bares (outlinesAmong language start trees) := by
  cases trees with
  | nil => rfl
  | cons tree rest =>
    rw [bares, outlinesAmong, outlinesAmong, bare_marks, bare_totalSize,
      outlinesAmong_bares language (start + tree.totalSize) rest, outlines_bare language start tree,
      Outline.bares_eq_map, Outline.bares_eq_map, Outline.bares_eq_map, List.map_append]
    split
    · rw [List.map_singleton, Outline.bare, Outline.bares_eq_map]
    · split <;> rfl

end

end Subtree

theorem Tree.outline_bare (tree : Tree) :
    (Tree.mk tree.root.bare tree.language).rootNode.outline = tree.rootNode.outline.bare := by
  rw [Node.outline, Node.outline, Outline.bare, Tree.rootNode, Tree.rootNode, outlines_bare]

/-- What is seen of a tree depends on the bare form of its root. -/
theorem Tree.sights_congr {a b : Tree} (language : a.language = b.language)
    (root : a.root.bare = b.root.bare) : a.sights = b.sights := by
  have key (tree : Tree) : tree.sights = Tree.sights ⟨tree.root.bare, tree.language⟩ := by
    rw [Tree.sights, Tree.sights, outline_bare]
    exact (Outline.sights_bare 0 _).symm
  rw [key a, key b, language, root]

/-! ### Reported errors -/

/-- Kind and span of the error that is reported for a tree. -/
def Tree.complaint? (tree : Tree) : Option (String × Span) :=
  tree.rootNode.firstError?.map fun node => (node.kind, node.span)

theorem Tree.find?_descendants {tree : Tree} (measured : Throughout Measured tree.root)
    (p : Node → Bool) (q : Sight → Bool) (h : ∀ depth node, q (node.sight depth) = p node) :
    (tree.rootNode.descendants.find? p).map (fun node => (node.kind, node.span)) =
      (tree.sights.find? q).map fun seen => (seen.kind, Span.mk seen.start seen.stop) := by
  have hf : q ∘ (fun found : Nat × Node => found.2.sight found.1) = p ∘ (·.2) := by
    funext found
    exact h ..
  rw [Node.descendants_eq _ measured, Node.family, Tree.sights, List.find?_map, List.find?_map, hf,
    Option.map_map, Option.map_map]
  congr 1

/-- The reported error is read off what is seen. -/
theorem Tree.complaint?_eq {tree : Tree} (measured : Throughout Measured tree.root) :
    tree.complaint? =
      if tree.root.marks.hasError then
        ((tree.sights.find? (·.isRecovery)).or
          (tree.sights.find? fun seen => seen.isError || seen.isMissing)).map fun seen =>
            (seen.kind, Span.mk seen.start seen.stop)
      else none := by
  have hr := tree.find?_descendants measured (·.isRecovery) (·.isRecovery) fun _ _ => rfl
  have he := tree.find?_descendants measured (fun node => node.isError || node.isMissing)
    (fun seen => seen.isError || seen.isMissing) fun _ _ => rfl
  simp only [Tree.complaint?, Node.firstError?]
  rw [show tree.rootNode.hasError = tree.root.marks.hasError from rfl]
  split
  · rw [Option.map_or, Option.map_or, hr, he]
  · rfl

/-- Trees that are seen alike have the same error reported. -/
theorem Tree.complaint?_congr {a b : Tree} (language : a.language = b.language)
    (root : a.root.bare = b.root.bare) (ha : Throughout Measured a.root)
    (hb : Throughout Measured b.root) : a.complaint? = b.complaint? := by
  have marks := congrArg Subtree.marks root
  rw [bare_marks, bare_marks] at marks
  rw [complaint?_eq ha, complaint?_eq hb, sights_congr language root, marks]

/-! ### The first error production -/

namespace Subtree

mutual

/-- The symbol of the first error production in preorder. -/
def firstRepair? : Subtree → Option Symbol
  | mk head children =>
    if head.marks.recovery then some head.symbol else firstRepairAmong? children

/-- The same of a row of subtrees. -/
def firstRepairAmong? : List Subtree → Option Symbol
  | [] => none
  | tree :: rest => (firstRepair? tree).or (firstRepairAmong? rest)

end

theorem firstRepairAmong?_append (xs ys : List Subtree) :
    firstRepairAmong? (xs ++ ys) = (firstRepairAmong? xs).or (firstRepairAmong? ys) := by
  induction xs with
  | nil => rfl
  | cons x xs ih => simp [firstRepairAmong?, ih, Option.or_assoc]

@[simp] theorem firstRepairAmong?_singleton (tree : Subtree) :
    firstRepairAmong? [tree] = firstRepair? tree := by
  simp [firstRepairAmong?]

theorem firstRepair?_eq (tree : Subtree) :
    firstRepair? tree =
      if tree.marks.recovery then some tree.symbol else firstRepairAmong? tree.children := by
  cases tree
  rfl

mutual

@[simp] theorem firstRepair?_bare (tree : Subtree) : firstRepair? tree.bare = firstRepair? tree := by
  obtain ⟨head, children⟩ := tree
  simp only [bare, firstRepair?, firstRepairAmong?_bares]

theorem firstRepairAmong?_bares (trees : List Subtree) :
    firstRepairAmong? (bares trees) = firstRepairAmong? trees := by
  cases trees with
  | nil => rfl
  | cons tree rest => simp only [bares, firstRepairAmong?, firstRepair?_bare,
      firstRepairAmong?_bares]

end

/-- An error production is visible, and a token has nothing below it that could be one. -/
structure ShowsFaults (tree : Subtree) : Prop where
  atom : tree.marks.token = true → tree.children = []
  seen : tree.marks.recovery = true → tree.marks.visible = true

theorem Intact.showsFaults {language : Language} (shows : language.ShowsRepairs) {tree : Subtree}
    (h : Intact language tree) : ShowsFaults tree where
  atom := h.atom
  seen e := h.visible.trans (shows.visible (h.recovery.symm.trans e))

end Subtree

/-- A node that is an error by itself. -/
def Node.isFaulty (node : Node) : Bool :=
  node.isRecovery || node.isError || node.isMissing

/-- An error that comes from no part of a subtree is one by itself, and seen. -/
theorem Subtree.Intact.faulty {language : Language} (shows : language.ShowsRepairs) {tree : Subtree}
    (h : Intact language tree) (error : tree.marks.hasError = true)
    (clean : tree.children.any (·.marks.hasError) = false) (start : Nat) :
    tree.marks.visible = true ∧ Node.isFaulty ⟨tree, start, language⟩ = true := by
  have he := h.error
  rw [error, clean] at he
  by_cases recovery : tree.marks.recovery = true
  · exact ⟨(h.showsFaults shows).seen recovery, by simp [Node.isFaulty, Node.isRecovery, recovery]⟩
  · by_cases skipped : tree.symbol = errorSymbol
    · refine ⟨?_, by simp [Node.isFaulty, Node.isError, Node.symbol, skipped]⟩
      rw [h.visible, skipped, symbolMarks, Language.flags, if_pos rfl]
      decide
    · by_cases missing : tree.marks.missing = true
      · exact absurd (h.missing missing) recovery
      · simp [recovery, skipped, missing] at he

/-- An error in a row of subtrees can be seen. -/
theorem exists_faulty_seenAmong {language : Language} (shows : language.ShowsRepairs) (start : Nat)
    (trees : List Subtree) (intact : ∀ tree ∈ trees, Throughout (Intact language) tree)
    (error : trees.any (·.marks.hasError) = true) :
    ∃ found ∈ seenAmong language start trees, found.isFaulty = true := by
  induction trees using inductionOnRow generalizing start with
  | nil => cases error
  | cons tree rest below behind =>
    obtain ⟨here, later⟩ := List.forall_mem_cons.mp intact
    rw [seenAmong_cons]
    rw [List.any_cons, Bool.or_eq_true] at error
    rcases error with error | error
    · rcases parts : tree.children.any (·.marks.hasError) with - | -
      · -- the error is the subtree itself
        obtain ⟨visible, faulty⟩ := here.self.faulty shows error parts start
        rw [if_pos visible]
        exact ⟨_, List.mem_append_left _ List.mem_cons_self, faulty⟩
      · obtain ⟨found, within, faulty⟩ := below start (throughout_iff.mp here).2 parts
        refine ⟨found, List.mem_append_left _ ?_, faulty⟩
        split
        · exact List.mem_cons_of_mem _ within
        · split
          · rename_i token
            rw [here.self.atom token] at parts
            cases parts
          · exact within
    · obtain ⟨found, within, faulty⟩ := behind _ later error
      exact ⟨found, List.mem_append_right _ within, faulty⟩

/-- **An error is reported exactly when there is one in the root.** -/
theorem Tree.complaint?_isSome {tree : Tree} (shows : tree.language.ShowsRepairs)
    (intact : Throughout (Intact tree.language) tree.root) :
    tree.complaint?.isSome = tree.root.marks.hasError := by
  have measured : Throughout Measured tree.root := intact.mono fun _ _ h => h.measured
  have shown : tree.root.marks.hasError = true →
      ∃ node ∈ tree.rootNode.descendants, node.isFaulty = true := by
    intro error
    rw [Node.descendants_eq _ measured, Node.family_eq_cons]
    rcases parts : tree.root.children.any (·.marks.hasError) with - | -
    · exact ⟨tree.rootNode, List.mem_cons_self, (intact.self.faulty shows error parts 0).2⟩
    · obtain ⟨found, within, faulty⟩ :=
        exists_faulty_seenAmong shows 0 tree.root.children (throughout_iff.mp intact).2 parts
      exact ⟨found, List.mem_cons_of_mem _ within, faulty⟩
  rw [Tree.complaint?, Option.isSome_map, Node.firstError?,
    show tree.rootNode.hasError = tree.root.marks.hasError from rfl]
  split
  · rename_i error
    obtain ⟨node, hn, faulty⟩ := shown error
    rw [error, Option.isSome_or, Bool.or_eq_true, List.find?_isSome, List.find?_isSome]
    simp only [Node.isFaulty, Bool.or_eq_true, or_assoc] at faulty
    rcases faulty with recovery | skipped
    · exact .inl ⟨node, hn, recovery⟩
    · exact .inr ⟨node, hn, by simpa using skipped⟩
  · rename_i error
    simpa using error

end Reparse
