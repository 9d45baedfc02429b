/-
Reparse/Proofs/Subtree/Apart.lean

Edits apart from each other.

Of two edits that do not touch, either may come first, if the one behind
follows the text that the other one moves: `edit_comm`.  They meet in leaves
and in the marks and extents of the nodes above.  A leaf is cut into padding
and content, and both cuts move with the text, so that only the text has to
commute.  A row of children is dealt with child by child.

Children that only one of the edits touches are where the two ways differ.
The other edit may then still find the child within its reach, because the
first has made it shorter.  But what it does there is done already: an edit
behind all that a node depends on is the same as none but for the mark and the
new summary of the node (`edit_beyond`), and both are there.
-/
import Reparse.Proofs.Subtree.Descent

namespace Reparse

/-! ### Two edits -/

namespace TextEdit

/-- The edit in the text that an edit in front of it has made. -/
def behind (edit front : TextEdit) : TextEdit :=
  ⟨edit.start - front.oldEnd + front.newEnd, edit.oldEnd - front.oldEnd + front.newEnd,
    edit.newEnd - front.oldEnd + front.newEnd⟩

/-- Whether two edits are apart, one in front of the other. -/
structure Apart (front back : TextEdit) : Prop where
  frontOld : front.start ≤ front.oldEnd
  frontNew : front.start ≤ front.newEnd
  between : front.oldEnd < back.start
  backOld : back.start ≤ back.oldEnd
  backNew : back.start ≤ back.newEnd

variable {front back : TextEdit} {first : Bool} {left : Nat}

theorem Apart.behind_old (apart : Apart front back) :
    (back.behind front).start ≤ (back.behind front).oldEnd :=
  Nat.add_le_add_right (Nat.sub_le_sub_right apart.backOld _) _

theorem Apart.behind_new (apart : Apart front back) :
    (back.behind front).start ≤ (back.behind front).newEnd :=
  Nat.add_le_add_right (Nat.sub_le_sub_right apart.backNew _) _

/-- A text that both edits change is as long either way. -/
theorem Apart.widthAfter_comm (apart : Apart front back) (total : Nat) :
    Subtree.widthAfter (back.behind front) (Subtree.widthAfter front total) =
      Subtree.widthAfter front (Subtree.widthAfter back total) := by
  have between := apart.between
  by_cases early : total < back.start
  · -- the edit behind changes nothing, neither before nor after the one in front
    have early' : Subtree.widthAfter front total < (back.behind front).start := by
      have here := Subtree.widthAfter_cases front total
      have frontNew := apart.frontNew
      show _ < back.start - front.oldEnd + front.newEnd
      omega
    rw [Subtree.widthAfter_before apart.backOld early,
      Subtree.widthAfter_before apart.behind_old early']
  · -- the edit in front only moves the end of the text
    have here := Subtree.widthAfter_cases back total
    have backOld := apart.backOld
    have backNew := apart.backNew
    have late : front.oldEnd ≤ Subtree.widthAfter back total := by omega
    rw [Subtree.widthAfter_behind apart.frontOld (show front.oldEnd ≤ total by omega),
      Subtree.widthAfter_behind apart.frontOld late]
    have there := Subtree.widthAfter_cases (back.behind front)
      (front.newEnd + (total - front.oldEnd))
    simp only [behind] at there ⊢
    omega

/-! ### Shares of edits that are apart -/

/-- Where the front edit of a child and the place of the child end up together. -/
theorem place_add_newEnd_share {edit : TextEdit} (ho : edit.start ≤ edit.oldEnd)
    (hn : edit.start ≤ edit.newEnd) (hf : first = true → left = 0) (inside : left ≤ edit.oldEnd) :
    edit.place first left + (edit.share first left).newEnd = edit.newEnd := by
  have place := @place_add_widthAfter_share edit first left ho hn hf (edit.oldEnd - left)
  rwa [Subtree.widthAfter_behind (start_le_oldEnd_share ho) (Nat.le_of_eq oldEnd_share),
    Nat.add_sub_of_le inside, Subtree.widthAfter_behind ho (Nat.le_refl _), oldEnd_share,
    Nat.sub_self, Nat.sub_self, Nat.add_zero, Nat.add_zero] at place

/-- The back edit takes nothing in where the front one may still do so. -/
theorem Apart.not_taken (apart : Apart front back) (inside : left ≤ front.oldEnd) :
    ¬ back.Taken first left :=
  not_taken_of_lt (Nat.lt_of_le_of_lt inside apart.between)

theorem Apart.not_taken_behind (apart : Apart front back) (hf : first = true → left = 0)
    (inside : left ≤ front.oldEnd) :
    ¬ (back.behind front).Taken first (front.place first left) := by
  have together := place_add_newEnd_share apart.frontOld apart.frontNew hf inside
  have between := apart.between
  apply not_taken_of_lt
  show _ < back.start - front.oldEnd + front.newEnd
  omega

theorem Apart.share (apart : Apart front back) (inside : left ≤ front.oldEnd) :
    Apart (front.share first left) (back.share first left) where
  frontOld := start_le_oldEnd_share apart.frontOld
  frontNew := start_le_newEnd_share apart.frontNew
  between := by
    have between := apart.between
    rw [oldEnd_share, start_share]
    omega
  backOld := start_le_oldEnd_share apart.backOld
  backNew := start_le_newEnd_share apart.backNew

/-- The share of the edit behind follows the share of the edit in front. -/
theorem Apart.share_behind (apart : Apart front back) (hf : first = true → left = 0)
    (inside : left ≤ front.oldEnd) :
    (back.behind front).share first (front.place first left) =
      (back.share first left).behind (front.share first left) := by
  have together := place_add_newEnd_share apart.frontOld apart.frontNew hf inside
  obtain ⟨frontOld, frontNew, between, backOld, backNew⟩ := apart
  have apart : Apart front back := ⟨frontOld, frontNew, between, backOld, backNew⟩
  ext
  · rw [start_share, behind, behind, start_share, oldEnd_share]
    dsimp only
    omega
  · rw [oldEnd_share, behind, behind, oldEnd_share, oldEnd_share]
    dsimp only
    omega
  · have kept := @newEnd_share back first left
    rw [if_neg (apart.not_taken inside)] at kept
    rw [newEnd_share, if_neg (apart.not_taken_behind hf inside), behind, behind, kept,
      oldEnd_share]
    dsimp only
    omega

/-- Behind the front edit, the edit behind is seen from the same child as before. -/
theorem Apart.share_moved (apart : Apart front back) (late : front.oldEnd ≤ left) :
    (back.behind front).share false (front.newEnd + (left - front.oldEnd)) =
      back.share false left := by
  obtain ⟨frontOld, frontNew, between, backOld, backNew⟩ := apart
  have taken : (back.behind front).Taken false (front.newEnd + (left - front.oldEnd)) ↔
      back.Taken false left := by
    simp only [Taken, behind, and_true]
    omega
  ext
  · rw [start_share, start_share, behind]
    dsimp only
    omega
  · rw [oldEnd_share, oldEnd_share, behind]
    dsimp only
    omega
  · rw [newEnd_share, newEnd_share]
    simp only [taken]
    split <;> simp only [behind] <;> omega

theorem Apart.spares_moved (apart : Apart front back) (late : front.oldEnd ≤ left)
    (child : Subtree) :
    (back.behind front).Spares false (front.newEnd + (left - front.oldEnd)) child ↔
      back.Spares false left child := by
  obtain ⟨frontOld, frontNew, between, backOld, backNew⟩ := apart
  simp only [Spares, Precedes, behind, and_true]
  omega

end TextEdit

namespace Subtree

variable {front back : TextEdit}

open TextEdit

/-! ### Leaves -/

/-- Both ends of a leaf move with the text. -/
theorem resize_comm (apart : Apart front back) (head : Head) :
    (touch ((touch head).resize front)).resize (back.behind front) =
      (touch ((touch head).resize back)).resize front := by
  have frontMono := @widthAfter_mono front apart.frontOld apart.frontNew head.padding
    (head.padding + head.size) (Nat.le_add_right _ _)
  have backMono := @widthAfter_mono back apart.backOld apart.backNew head.padding
    (head.padding + head.size) (Nat.le_add_right _ _)
  rw [resize_eq _ apart.behind_old apart.behind_new, resize_eq _ apart.frontOld apart.frontNew,
    resize_eq _ apart.frontOld apart.frontNew, resize_eq _ apart.backOld apart.backNew]
  simp only [touch, Nat.add_sub_of_le frontMono, Nat.add_sub_of_le backMono,
    apart.widthAfter_comm]

/-! ### Nodes in front of an edit -/

/-- The subtree with a mark of a change and a new summary. -/
def touched : Subtree → Subtree
  | mk head children => mk (summarize (touch head) children) children

theorem editRow_before {edit : TextEdit} {first : Bool} {left : Nat} {trees : List Subtree}
    (before : left + reach trees < edit.start) : editRow edit first left trees = trees := by
  induction trees generalizing first left with
  | nil => rfl
  | cons child rest ih =>
    rw [reach] at before
    have spared : edit.Spares first left child := .inl (by omega)
    rw [editRow, editAt_spared spared, ih (by omega)]

/-- An edit behind all that a node depends on gives it a mark and a new summary. -/
theorem edit_beyond {edit : TextEdit} (ho : edit.start ≤ edit.oldEnd) {tree : Subtree}
    (measured : Measured tree) (beyond : tree.totalSize + tree.lookahead < edit.start) :
    tree.edit edit = tree.touched := by
  obtain ⟨head, children⟩ := tree
  cases children with
  | nil =>
    have behind : head.padding + head.size < edit.start :=
      Nat.lt_of_le_of_lt (Nat.le_add_right ..) beyond
    have same : (touch head).resize edit = touch head := resize_of_end (.inl behind) ho
    rw [edit_leaf, same, touched, summarize]
  | cons child rest =>
    have row : editRow edit true 0 (child :: rest) = child :: rest := by
      apply editRow_before
      rw [Nat.zero_add]
      exact Nat.lt_of_le_of_lt measured.reach beyond
    rw [edit_mk edit head (List.cons_ne_nil child rest), row, touched]

/-- A summary is lost in the one of other children. -/
theorem summarize_touch_summarize (head : Head) (row : List Subtree) {row' : List Subtree}
    (some : row' ≠ []) :
    summarize (touch (summarize (touch head) row)) row' = summarize (touch head) row' := by
  obtain ⟨child, rest, rfl⟩ := List.ne_nil_iff_exists_cons.mp some
  cases row <;> rfl

theorem edit_summarized (edit : TextEdit) (head : Head) {row : List Subtree} (some : row ≠ []) :
    (mk (summarize (touch head) row) row).edit edit =
      mk (summarize (touch head) (editRow edit true 0 row)) (editRow edit true 0 row) := by
  rw [edit_mk edit _ some, summarize_touch_summarize head row (editRow_ne_nil some)]

theorem edit_touched (edit : TextEdit) (tree : Subtree) :
    tree.touched.edit edit = tree.edit edit := by
  obtain ⟨head, children⟩ := tree
  by_cases none : children = []
  · rw [none, touched, summarize, edit_leaf, edit_leaf]
    rfl
  · rw [touched, edit_summarized edit head none, edit_mk edit head none]

theorem touch_resize (head : Head) (edit : TextEdit) :
    touch ((touch head).resize edit) = (touch head).resize edit := by
  rw [Head.resize]
  split
  · rfl
  · split
    · rfl
    · split <;> rfl

/-- What an edit has touched has its mark and its summary. -/
theorem touched_edit (edit : TextEdit) (tree : Subtree) :
    (tree.edit edit).touched = tree.edit edit := by
  obtain ⟨head, children⟩ := tree
  by_cases none : children = []
  · rw [none, edit_leaf, touched, summarize, touch_resize]
  · rw [edit_mk edit head none, touched, summarize_touch_summarize head _ (editRow_ne_nil none)]

/-- An edited child has nothing to lose in a later edit behind it. -/
theorem editAt_edited {edit share : TextEdit} {first : Bool} {left : Nat} {child : Subtree}
    (ho : edit.start ≤ edit.oldEnd) (reached : ¬ edit.Precedes first left (child.edit share)) :
    (child.edit share).editAt edit first left =
      (child.edit share).edit (edit.share first left) := by
  rw [editAt]
  split
  · rename_i spared
    have before := spared.resolve_right reached
    rw [edit_beyond (start_le_oldEnd_share ho) (measured_edit share child), touched_edit]
    rw [start_share]
    omega
  · rfl

/-! ### Rows and trees -/

section Row

variable {first : Bool} {left : Nat} (apart : Apart front back) (hf : first = true → left = 0)
include apart hf

/-- Behind both of them, or between them, the front edit only moves what it finds. -/
theorem editAt_comm_behind {child : Subtree} (hm : Throughout Measured child)
    (late : front.Precedes first left child) :
    (child.editAt front first left).editAt (back.behind front) first (front.place first left) =
      (child.editAt back first left).editAt front first (back.place first left) := by
  cases first with
  | true => simp [Precedes, hf rfl] at late
  | false =>
    have next := place_next apart.backOld apart.backNew hf hm
    -- the back edit does not bring the child closer to the front one
    have later : front.Precedes false (back.place false left) (child.editAt back false left) := by
      have here := widthAfter_cases back left
      have there := widthAfter_cases back (left + child.totalSize)
      have between := apart.between
      have backOld := apart.backOld
      have backNew := apart.backNew
      rw [place_later, place_later] at next
      simp only [Precedes, place_later, and_true] at late ⊢
      omega
    have behind : front.oldEnd ≤ left := late.elim Nat.le_of_lt fun h => Nat.le_of_eq h.1.symm
    rw [editAt_spared (.inr late), editAt_spared (.inr later),
      place_behind apart.frontOld hf late, editAt, editAt, apart.share_moved behind]
    simp only [apart.spares_moved behind]

theorem editAt_comm {child : Subtree} (hm : Throughout Measured child)
    (within : ∀ front back, Apart front back →
      (child.edit front).edit (back.behind front) = (child.edit back).edit front) :
    (child.editAt front first left).editAt (back.behind front) first (front.place first left) =
      (child.editAt back first left).editAt front first (back.place first left) := by
  by_cases late : front.Precedes first left child
  · exact editAt_comm_behind apart hf hm late
  have between := apart.between
  have inside : left ≤ front.oldEnd := Nat.le_of_not_lt fun behind => late (.inl behind)
  rw [place_before first apart.backOld (Nat.lt_of_le_of_lt inside between)]
  by_cases near : left + child.totalSize + child.lookahead < front.start
  · -- both edits lie behind all that the child depends on
    have frontOld := apart.frontOld
    have frontNew := apart.frontNew
    have later : (back.behind front).Spares first left child := by
      left
      show _ < back.start - front.oldEnd + front.newEnd
      omega
    rw [editAt_spared (show front.Spares first left child from .inl near),
      editAt_spared (show back.Spares first left child from .inl (by omega)),
      place_before first apart.frontOld (by omega), editAt_spared later,
      editAt_spared (show front.Spares first left child from .inl near)]
  have touches : ¬ front.Spares first left child := fun spared => spared.elim near late
  have behind : ¬ (back.behind front).Precedes first (front.place first left)
      (child.edit (front.share first left)) := by
    have together := place_add_newEnd_share apart.frontOld apart.frontNew hf inside
    have backOld := apart.backOld
    simp only [Precedes, TextEdit.behind]
    omega
  have comm := within _ _ (@Apart.share _ _ first _ apart inside)
  rw [editAt_reached touches, editAt_edited apart.behind_old behind, apart.share_behind hf inside,
    comm]
  by_cases far : left + child.totalSize + child.lookahead < back.start
  · -- whether or not the back edit still reaches the child, it has nothing to do there
    have beyond : child.totalSize + child.lookahead < (back.share first left).start := by
      rw [start_share]
      omega
    rw [editAt_spared (show back.Spares first left child from .inl far), editAt_reached touches,
      edit_beyond (start_le_oldEnd_share apart.backOld) hm.self beyond, edit_touched]
  · have reaches : ¬ back.Spares first left child := by
      have backOld := apart.backOld
      simp only [Spares, Precedes]
      omega
    have early : ¬ front.Precedes first left (child.edit (back.share first left)) := by
      have width := totalSize_edit (back.share first left) (start_le_oldEnd_share apart.backOld)
        (start_le_newEnd_share apart.backNew) child hm
      have cases := widthAfter_cases (back.share first left) child.totalSize
      have backOld := apart.backOld
      rw [start_share, oldEnd_share] at cases
      rintro (early | ⟨here, wide, later⟩)
      · exact late (.inl early)
      · exact late (.inr ⟨here, by omega, later⟩)
    rw [editAt_reached reaches, editAt_edited apart.frontOld early]

/-- **A row of children** is the same whichever edit comes first. -/
theorem editRow_comm {trees : List Subtree} (hm : ∀ tree ∈ trees, Throughout Measured tree)
    (within : ∀ tree ∈ trees, ∀ front back, Apart front back →
      (tree.edit front).edit (back.behind front) = (tree.edit back).edit front) :
    editRow (back.behind front) first (front.place first left) (editRow front first left trees) =
      editRow front first (back.place first left) (editRow back first left trees) := by
  induction trees generalizing first left with
  | nil => rfl
  | cons child rest ih =>
    obtain ⟨hc, hr⟩ := List.forall_mem_cons.mp hm
    obtain ⟨wc, wr⟩ := List.forall_mem_cons.mp within
    -- on either way the rest of the row starts where both edits have moved it
    rw [editRow, editRow, editRow, editRow, editAt_comm apart hf hc wc,
      place_next apart.frontOld apart.frontNew hf hc, place_next apart.backOld apart.backNew hf hc]
    rw [ih (by simp) hr wr]

end Row

/-- **Edits apart from each other commute**, down to all marks and extents. -/
theorem edit_comm {tree : Subtree} (hm : Throughout Measured tree) (apart : Apart front back) :
    (tree.edit front).edit (back.behind front) = (tree.edit back).edit front := by
  induction tree using inductionOn generalizing front back with
  | mk head children ih =>
    by_cases none : children = []
    · rw [none, edit_leaf, edit_leaf, edit_leaf, edit_leaf, resize_comm apart]
    -- the second edit makes a new summary, so that only the rows have to agree
    have below := (throughout_iff.mp hm).2
    have rows := @editRow_comm front back true 0 apart (fun _ => rfl) children below
      fun tree m front back apart => ih tree m (below tree m) apart
    rw [place_first, place_first] at rows
    rw [edit_mk front head none, edit_summarized _ head (editRow_ne_nil none),
      edit_mk back head none, edit_summarized _ head (editRow_ne_nil none), rows]

end Subtree

end Reparse
