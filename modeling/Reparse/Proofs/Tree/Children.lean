/-
Reparse/Proofs/Tree/Children.lean

The ways to the visible children of a node agree.

There are three: a cursor that moves from both ends, a count, and a search for
an index.  Both ends of a cursor look along the same row of children, and
neither sees how far the other has come.  They are kept apart by the number of
children that are left, so that number has to be right behind every call:
`Between` says which children each end has before it, and which of them are
left.

A subtree has its end at its start and its length, and a frame from the back
takes the lengths off again.  Where nodes are as long as their children the
differences are never below zero, whatever edits have made of the lengths
(`Guarded.nextBack?_eq`).

Main result: `Tree.Grown.children_agree`.
-/
import Reparse.Proofs.Header.Table
import Reparse.Proofs.Subtree.Guarded
import Reparse.Proofs.Tree.Grown
import Reparse.Proofs.Tree.Preorder

namespace Reparse

open Subtree

/-! ### Rows with two ends -/

/-- An end of a row. -/
inductive Side where
  | front
  | back
deriving DecidableEq

namespace Side

variable {α : Type}

/-- What a row has at one of its ends, and what is left without it. -/
def take : Side → List α → Option α × List α
  | front, row => (row.head?, row.tail)
  | back, row => (row.getLast?, row.dropLast)

/-- What is taken from one end of a row after the other, each time with the number of elements
that are left. -/
def takes : List Side → List α → List (Option α × Nat)
  | [], _ => []
  | side :: sides, row =>
    ((side.take row).1, (side.take row).2.length) :: takes sides (side.take row).2

end Side

/-! ### Calls of a cursor -/

namespace Cursor

/-- The child at one of the ends of those that are left. -/
def call (cursor : Cursor) : Side → Option Node × Cursor
  | .front => cursor.next
  | .back => cursor.nextBack

/-- What a cursor answers to a sequence of calls, each time with the number of children that are
left. -/
def answers : List Side → Cursor → List (Option Node × Nat)
  | [], _ => []
  | side :: sides, cursor =>
    ((cursor.call side).1, (cursor.call side).2.remaining) :: answers sides (cursor.call side).2

end Cursor

namespace Guarded

/-- The next visible subtree from the back, if no position on the way is below zero. -/
def nextBack? : List Frame → Option (Option (Subtree × Nat) × List Frame)
  | [] => some (none, [])
  | ⟨[], _⟩ :: rest => nextBack? rest
  | ⟨tree :: ahead, offset⟩ :: rest => do
    let start ← minus? offset tree.totalSize
    let behind : List Frame := ⟨ahead, start⟩ :: rest
    if tree.marks.visible then some (some (tree, start), behind)
    else if tree.marks.token then nextBack? behind
    else nextBack? (⟨tree.children.reverse, offset⟩ :: behind)
termination_by frames => Frame.weights frames
decreasing_by
  all_goals simp [Frame.weights, weights, weight_eq, weights_reverse]
  all_goals omega

/-- A call of a cursor, if no position and no number of children on the way is below zero. -/
def call? (cursor : Cursor) : Side → Option (Option Node × Cursor)
  | .front =>
    if cursor.remaining = 0 then some (none, cursor)
    else
      match Frame.next cursor.front with
      | (none, front) => some (none, { cursor with front })
      | (some (subtree, start), front) => do
        let remaining ← minus? cursor.remaining 1
        some (some ⟨subtree, start, cursor.language⟩, { cursor with front, remaining })
  | .back =>
    if cursor.remaining = 0 then some (none, cursor)
    else do
      match ← nextBack? cursor.back with
      | (none, back) => some (none, { cursor with back })
      | (some (subtree, start), back) =>
        let remaining ← minus? cursor.remaining 1
        some (some ⟨subtree, start, cursor.language⟩, { cursor with back, remaining })

/-- The answers to a sequence of calls, if there is nothing below zero in any of them. -/
def answers? : List Side → Cursor → Option (List (Option Node × Nat))
  | [], _ => some []
  | side :: sides, cursor => do
    let called ← call? cursor side
    let more ← answers? sides called.2
    some ((called.1, called.2.remaining) :: more)

end Guarded

/-! ### What an end has before it -/

namespace Frame

/-- What is seen of a frame from the front. -/
def seen (frame : Frame) : List (Subtree × Nat) :=
  visibleAmong frame.offset frame.ahead

/-- The front end gives what is seen of its frames. -/
theorem next_eq (frames : List Frame) :
    (next frames).1 = (frames.flatMap seen).head? ∧
      (next frames).2.flatMap seen = (frames.flatMap seen).tail := by
  fun_induction next frames with
  | case1 => simp
  | case2 offset rest ih => simpa [seen, visibleAmong] using ih
  | case3 tree ahead offset rest behind visible =>
    -- a visible subtree is what is seen next
    simp [seen, visibleAmong, visible, behind]
  | case4 tree ahead offset rest behind hidden atom ih =>
    -- a hidden token is passed over
    simpa [seen, visibleAmong, hidden, atom, behind] using ih
  | case5 tree ahead offset rest behind hidden inner ih =>
    -- the children of a hidden node take its place
    simpa [seen, visibleAmong, visibleChildren_eq, hidden, inner, behind] using ih

/-- One step of the front end, where there is something to be seen. -/
theorem next_of_seen {frames : List Frame} {place : Subtree × Nat}
    {places : List (Subtree × Nat)} (row : frames.flatMap seen = place :: places) :
    ∃ rest, next frames = (some place, rest) ∧ rest.flatMap seen = places := by
  obtain ⟨first, others⟩ := next_eq frames
  rw [row] at first others
  exact ⟨(next frames).2, Prod.ext first rfl, others⟩

end Frame

/-- **No position is below zero** on the way from the back. -/
theorem Guarded.nextBack?_eq (frames : List Frame) (fits : ∀ frame ∈ frames, frame.Fits) :
    nextBack? frames = some (Frame.nextBack frames) := by
  have room {tree : Subtree} {ahead : List Subtree} {offset : Nat} {rest : List Frame}
      (fits : ∀ frame ∈ (⟨tree :: ahead, offset⟩ : Frame) :: rest, frame.Fits) :
      tree.totalSize ≤ offset :=
    Nat.le_trans (Nat.le_add_right ..) (List.forall_mem_cons.mp fits).1.1
  fun_induction Frame.nextBack frames with
  | case1 => rw [nextBack?]
  | case2 offset rest ih =>
    rw [nextBack?]
    exact ih (List.forall_mem_cons.mp fits).2
  | case3 tree ahead offset rest start behind visible =>
    rw [nextBack?, minus?_eq (room fits), Option.bind_eq_bind, Option.bind_some, if_pos visible]
  | case4 tree ahead offset rest start behind hidden atom ih =>
    rw [nextBack?, minus?_eq (room fits), Option.bind_eq_bind, Option.bind_some, if_neg hidden,
      if_pos atom]
    exact ih (Frame.fits_behind fits)
  | case5 tree ahead offset rest start behind hidden inner ih =>
    rw [nextBack?, minus?_eq (room fits), Option.bind_eq_bind, Option.bind_some, if_neg hidden,
      if_neg inner]
    exact ih (Frame.fits_inside fits)

namespace Cursor

/-- The node at a place. -/
def node (cursor : Cursor) (place : Subtree × Nat) : Node :=
  ⟨place.1, place.2, cursor.language⟩

/-- All that the front end has before it, the first node first. -/
def fromFront (cursor : Cursor) : List Node :=
  (cursor.front.flatMap Frame.seen).map cursor.node

/-- All that the back end has before it, the last node first. -/
def fromBack (cursor : Cursor) : List Node :=
  (cursor.back.flatMap Frame.seenBack).map cursor.node

/-- A cursor that has given the nodes `given` from the front and the nodes `behind` from the back,
and none of those between them, which are `left`. -/
structure Between (given left behind : List Node) (cursor : Cursor) : Prop where
  front : cursor.fromFront = left ++ behind
  back : cursor.fromBack = (given ++ left).reverse
  fits : ∀ frame ∈ cursor.back, frame.Fits
  remaining : cursor.remaining = left.length

/-- A new cursor has given none. -/
theorem between_cursor {node : Node} (measured : Throughout Measured node.subtree) :
    Between [] node.children [] node.cursor where
  front := by
    rw [fromFront, Node.cursor, List.flatMap_singleton, List.append_nil, Node.children,
      visibleChildren_eq]
    rfl
  back := by
    rw [fromBack, Node.seenBack_cursor measured, List.map_reverse, List.nil_append]
    rfl
  fits := Node.fits_cursor measured
  remaining := node.childCount_eq

variable {given left behind : List Node} {node : Node} {cursor : Cursor}

/-! ### One call -/

theorem Between.next_nil (h : Between given [] behind cursor) : cursor.next = (none, cursor) :=
  if_pos h.remaining

theorem Between.nextBack_nil (h : Between given [] behind cursor) :
    cursor.nextBack = (none, cursor) :=
  if_pos h.remaining

/-- The front end gives the first node that is left. -/
theorem Between.next_cons (h : Between given (node :: left) behind cursor) :
    cursor.next.1 = some node ∧ Between (given ++ [node]) left behind cursor.next.2 := by
  -- the row that the front end has before it begins with the first node that is left
  obtain ⟨⟨subtree, start⟩, places, row, rfl, others⟩ := List.map_eq_cons_iff.mp h.front
  obtain ⟨front, found, rfl⟩ := Frame.next_of_seen row
  have some : cursor.remaining ≠ 0 := by
    rw [h.remaining]
    exact Nat.succ_ne_zero _
  rw [next, if_neg some, found]
  refine ⟨rfl, others, ?_, h.fits, ?_⟩
  · rw [List.append_assoc]
    exact h.back
  · show cursor.remaining - 1 = left.length
    rw [h.remaining]
    rfl

/-- The back end gives the last node that is left. -/
theorem Between.nextBack_concat (h : Between given (left ++ [node]) behind cursor) :
    cursor.nextBack.1 = some node ∧ Between given left (node :: behind) cursor.nextBack.2 := by
  -- that of the back end begins with the last one
  have back := h.back
  rw [← List.append_assoc, List.reverse_append] at back
  obtain ⟨⟨subtree, start⟩, places, row, rfl, others⟩ := List.map_eq_cons_iff.mp back
  obtain ⟨back, found, rfl, fits⟩ := Frame.nextBack_of_seen h.fits row
  have some : cursor.remaining ≠ 0 := by
    rw [h.remaining, List.length_append]
    exact Nat.succ_ne_zero _
  rw [nextBack, if_neg some, found]
  refine ⟨rfl, ?_, others, fits, ?_⟩
  · have front := h.front
    rw [List.append_assoc] at front
    exact front
  · show cursor.remaining - 1 = left.length
    rw [h.remaining, List.length_append]
    rfl

/-- **A call takes from the row of those that are left**, at the end that was asked for. -/
theorem Between.call (h : Between given left behind cursor) (side : Side) :
    (cursor.call side).1 = (side.take left).1 ∧
      ∃ given behind, Between given (side.take left).2 behind (cursor.call side).2 := by
  cases side with
  | front =>
    rw [Cursor.call]
    cases left with
    | nil =>
      -- the end stays where it is, although it may have more nodes before it
      rw [h.next_nil]
      exact ⟨rfl, given, behind, h⟩
    | cons node left => exact ⟨h.next_cons.1, _, _, h.next_cons.2⟩
  | back =>
    rw [Cursor.call]
    rcases List.eq_nil_or_concat left with rfl | ⟨left, node, rfl⟩
    · rw [h.nextBack_nil]
      exact ⟨rfl, given, behind, h⟩
    · rw [List.concat_eq_append] at h ⊢
      rw [Side.take, List.getLast?_concat, List.dropLast_concat]
      exact ⟨h.nextBack_concat.1, _, _, h.nextBack_concat.2⟩

/-- Nothing is below zero in a call. -/
theorem Between.call?_eq (h : Between given left behind cursor) (side : Side) :
    Guarded.call? cursor side = some (cursor.call side) := by
  cases side with
  | front =>
    rw [Guarded.call?, Cursor.call, Cursor.next]
    split
    · rfl
    · rename_i some
      rw [Guarded.minus?_eq (Nat.one_le_iff_ne_zero.mpr some)]
      rcases Frame.next cursor.front with ⟨- | ⟨subtree, start⟩, front⟩ <;> rfl
  | back =>
    rw [Guarded.call?, Cursor.call, Cursor.nextBack]
    split
    · rfl
    · rename_i some
      rw [Guarded.nextBack?_eq cursor.back h.fits, Option.bind_eq_bind, Option.bind_some,
        Guarded.minus?_eq (Nat.one_le_iff_ne_zero.mpr some)]
      rcases Frame.nextBack cursor.back with ⟨- | ⟨subtree, start⟩, back⟩ <;> rfl

/-! ### Runs of calls -/

/-- **A cursor answers like a row of those that are left**, whatever the calls. -/
theorem Between.answers_eq (h : Between given left behind cursor) (sides : List Side) :
    cursor.answers sides = Side.takes sides left := by
  -- each call leaves the cursor between its ends, with other nodes given
  induction sides generalizing given left behind cursor with
  | nil => rfl
  | cons side sides ih =>
    obtain ⟨same, given', behind', h'⟩ := h.call side
    rw [answers, Side.takes, same, h'.remaining, ih h']

/-- Nothing is below zero in any of them. -/
theorem Between.answers?_eq (h : Between given left behind cursor) (sides : List Side) :
    Guarded.answers? sides cursor = some (cursor.answers sides) := by
  induction sides generalizing given left behind cursor with
  | nil => rfl
  | cons side sides ih =>
    obtain ⟨-, given', behind', h'⟩ := h.call side
    rw [Guarded.answers?, h.call?_eq side, Option.bind_eq_bind, Option.bind_some, ih h']
    rfl

end Cursor

/-! ### The child at an index -/

namespace Subtree

/-- The element of a row at an index, or else by how much the index is past the row. -/
def pick {α : Type} : List α → Nat → Except Nat α
  | [], index => .error index
  | first :: _, 0 => .ok first
  | _ :: rest, index + 1 => pick rest index

theorem pick_append {α : Type} (xs ys : List α) (index : Nat) :
    pick (xs ++ ys) index =
      match pick xs index with
      | .ok found => .ok found
      | .error index => pick ys index := by
  induction xs generalizing index with
  | nil => rfl
  | cons first rest ih =>
    cases index with
    | zero => rfl
    | succ index => exact ih index

theorem getElem?_eq_pick {α : Type} (row : List α) (index : Nat) :
    row[index]? = match pick row index with
      | .ok found => some found
      | .error _ => none := by
  induction row generalizing index with
  | nil => rfl
  | cons first rest ih =>
    cases index with
    | zero => rfl
    | succ index => exact ih index

mutual

/-- The search for an index finds what is there in the row of visible children. -/
theorem visibleChild_eq (start index : Nat) (tree : Subtree) :
    visibleChild start index tree = pick (visibleChildren start tree) index := by
  obtain ⟨head, children⟩ := tree
  exact visibleOf_eq start index children

theorem visibleOf_eq (start index : Nat) (trees : List Subtree) :
    visibleOf start index trees = pick (visibleAmong start trees) index := by
  cases trees with
  | nil => rfl
  | cons tree rest =>
    rw [visibleOf.eq_def, visibleAmong]
    dsimp only
    split
    · -- a visible subtree is one child
      cases index with
      | zero => rfl
      | succ index => exact visibleOf_eq (start + tree.totalSize) index rest
    · split
      · exact visibleOf_eq (start + tree.totalSize) index rest
      · -- what a hidden node leaves of the index is looked for behind it
        rw [pick_append, visibleChild_eq start index tree]
        rcases pick (visibleChildren start tree) index with past | found
        · exact visibleOf_eq (start + tree.totalSize) past rest
        · rfl

end

end Subtree

theorem Node.child?_eq (node : Node) (index : Nat) :
    node.child? index = node.children[index]? := by
  rw [child?, visibleChild_eq, children, List.getElem?_map, getElem?_eq_pick]
  rcases pick (visibleChildren node.start node.subtree) index with past | ⟨subtree, start⟩
  · rfl
  · rfl

/-! ### All ways -/

/-- A node whose visible children are the same whichever way one asks for them. -/
structure Node.Agrees (node : Node) : Prop where
  /-- Calls of one cursor give what there is at the ends of the row of children, and the number
  of those that are left. -/
  answers : ∀ sides, node.cursor.answers sides = Side.takes sides node.children
  /-- No position is below zero on the way. -/
  guarded : ∀ sides, Guarded.answers? sides node.cursor = some (node.cursor.answers sides)
  remaining : node.cursor.remaining = node.children.length
  count : node.childCount = node.children.length
  child : ∀ index, node.child? index = node.children[index]?

theorem Node.agrees {node : Node} (measured : Throughout Measured node.subtree) : node.Agrees where
  answers := (Cursor.between_cursor measured).answers_eq
  guarded := (Cursor.between_cursor measured).answers?_eq
  remaining := (Cursor.between_cursor measured).remaining
  count := node.childCount_eq
  child := node.child?_eq

/-- **The ways to the children of a node agree**, wherever it stands in a tree of a loaded
language, whatever parses and edits the tree comes from. -/
theorem Tree.Grown.children_agree {language : Language} {table : Table} {origin : Nat}
    (loaded : table.load origin = .ok language) {tree : Tree} (grown : tree.Grown language) :
    Everywhere (fun start subtree => Node.Agrees ⟨subtree, start, tree.language⟩) 0 tree.root := by
  have measured := grown.measured (Table.consistent_of_load loaded)
  apply measured.everywhere
  intro start subtree measured
  exact @Node.agrees ⟨subtree, start, tree.language⟩ measured

namespace Header

/-- A header whose first newline has become longer. -/
@[irreducible] def lengthened : Tree :=
  (language.parse {} "[DOCUMENT]\n\n\x00".toList none).1.edit ⟨10, 11, 14⟩

/-- The document has its five children in a hidden node. -/
theorem children_agree_lengthened :
    lengthened.Grown language ∧ ∃ document,
      lengthened.root.descend? [0] = some (0, document) ∧
      (Node.mk document 0 lengthened.language).children.map Node.start = [0, 1, 9, 10, 14] ∧
      (Node.mk document 0 lengthened.language).Agrees := by
  have grown : lengthened.Grown language := by
    unfold lengthened
    exact .edit _ _ (.parse _ _ none fun _ e => by cases e)
  obtain ⟨⟨_, document⟩, there, same⟩ := Option.map_eq_some_iff.mp
    (show (lengthened.root.descend? [0]).map (fun node =>
      (node.1, (Node.mk node.2 node.1 lengthened.language).children.map Node.start)) =
        some (0, [0, 1, 9, 10, 14]) by decide +kernel)
  obtain ⟨rfl, row⟩ := Prod.mk.inj same
  have everywhere := Tree.Grown.children_agree load_header grown
  exact ⟨grown, document, there, row, everywhere_iff_descend?.mp everywhere [0] 0 document there⟩

end Header

end Reparse
