/-
Reparse/Proofs/Subtree/Share.lean

What each child gets of an edit.

An edit goes through the children of a node from left to right, and hands the
inserted text to the first one that it touches.  But what it does to a child
can be said without what came before: it follows from the offset of the child,
and from whether there is a child in front of it (`editChildren_eq`).  So rows
of children are dealt with one child at a time.

Each child takes its share of the change, and the next one starts where the
text behind it has gone: `totalSizes_editRow`.
-/
import Reparse.Proofs.Subtree.Everywhere
import Reparse.Subtree.Edit

namespace Reparse

namespace Subtree

/-! ### Nodes as long as their children -/

/-- A node with children is as long as they are, and depends on all the text
that they depend on. -/
structure Measured (tree : Subtree) : Prop where
  span : tree.children ≠ [] → tree.totalSize = totalSizes tree.children
  reach : reach tree.children ≤ tree.totalSize + tree.lookahead

/-- A row of subtrees depends on its own text at least. -/
theorem totalSizes_le_reach (trees : List Subtree) : totalSizes trees ≤ reach trees := by
  induction trees with
  | nil => exact Nat.le_refl 0
  | cons tree rest ih =>
    rw [totalSizes, reach]
    omega

/-- The text that a node depends on contains that of every node below it. -/
theorem Throughout.everywhere_within {tree : Subtree} (h : Throughout Measured tree)
    (start : Nat) :
    Everywhere (fun p n => p + n.totalSize + n.lookahead ≤
      start + tree.totalSize + tree.lookahead) start tree := by
  suffices key : ∀ bound, start + tree.totalSize + tree.lookahead ≤ bound →
      Everywhere (fun p n => p + n.totalSize + n.lookahead ≤ bound) start tree from
    key _ (Nat.le_refl _)
  intro bound hb
  exact go start tree h bound hb
where
  go (start : Nat) (tree : Subtree) (h : Throughout Measured tree) (bound : Nat)
      (hb : start + tree.totalSize + tree.lookahead ≤ bound) :
      Everywhere (fun p n => p + n.totalSize + n.lookahead ≤ bound) start tree := by
    obtain ⟨head, children⟩ := tree
    have hr := h.self.reach
    refine ⟨hb, goAmong start children (throughout_iff.mp h).2 bound ?_⟩
    simp only [Subtree.children] at hr
    omega
  goAmong (start : Nat) (trees : List Subtree) (h : ∀ tree ∈ trees, Throughout Measured tree)
      (bound : Nat) (hb : start + Subtree.reach trees ≤ bound) :
      EverywhereAmong (fun p n => p + n.totalSize + n.lookahead ≤ bound) start trees := by
    match trees with
    | [] => trivial
    | tree :: rest =>
      simp only [Subtree.reach] at hb
      refine ⟨go start tree (h tree (by simp)) bound (by omega),
        goAmong _ rest (fun t ht => h t (by simp [ht])) bound (by omega)⟩

mutual

/-- Induction on subtrees, with all children of a node at once. -/
theorem inductionOn {motive : Subtree → Prop}
    (mk : ∀ head children, (∀ child ∈ children, motive child) → motive (mk head children))
    (tree : Subtree) : motive tree := by
  obtain ⟨head, children⟩ := tree
  exact mk head children (inductionAmong mk children)

theorem inductionAmong {motive : Subtree → Prop}
    (mk : ∀ head children, (∀ child ∈ children, motive child) → motive (Subtree.mk head children))
    (trees : List Subtree) : ∀ tree ∈ trees, motive tree := by
  cases trees with
  | nil => exact fun _ none => by cases none
  | cons tree rest => exact List.forall_mem_cons.mpr ⟨inductionOn mk tree, inductionAmong mk rest⟩

end

/-- Induction on rows of subtrees: what is below the first one is a row too. -/
theorem inductionOnRow {motive : List Subtree → Prop} (nil : motive [])
    (cons : ∀ tree rest, motive tree.children → motive rest → motive (tree :: rest))
    (trees : List Subtree) : motive trees := by
  cases trees with
  | nil => exact nil
  | cons tree rest =>
    obtain ⟨head, children⟩ := tree
    exact cons _ rest (inductionOnRow nil cons children) (inductionOnRow nil cons rest)

/-! ### Widths -/

/-- The width of something `total` bytes wide after an edit. -/
def widthAfter (edit : TextEdit) (total : Nat) : Nat :=
  if edit.start < total then edit.newEnd + (total - edit.oldEnd)
  else if edit.oldEnd = total then edit.newEnd
  else total

theorem widthAfter_cases (edit : TextEdit) (total : Nat) :
    (edit.start < total ∧ widthAfter edit total = edit.newEnd + (total - edit.oldEnd)) ∨
      (total ≤ edit.start ∧ edit.oldEnd = total ∧ widthAfter edit total = edit.newEnd) ∨
      (total ≤ edit.start ∧ edit.oldEnd ≠ total ∧ widthAfter edit total = total) := by
  unfold widthAfter
  by_cases h : edit.start < total
  · simp [h]
  · by_cases h' : edit.oldEnd = total
    · simp [h, h']
      omega
    · simp [h, h']
      omega

/-- In front of an edit a width stays. -/
theorem widthAfter_before {edit : TextEdit} {total : Nat} (ho : edit.start ≤ edit.oldEnd)
    (before : total < edit.start) : widthAfter edit total = total := by
  have := widthAfter_cases edit total
  omega

/-- Behind it, a width changes as the text does. -/
theorem widthAfter_behind {edit : TextEdit} {total : Nat} (ho : edit.start ≤ edit.oldEnd)
    (behind : edit.oldEnd ≤ total) :
    widthAfter edit total = edit.newEnd + (total - edit.oldEnd) := by
  have := widthAfter_cases edit total
  omega

theorem widthAfter_mono {edit : TextEdit} (ho : edit.start ≤ edit.oldEnd)
    (hn : edit.start ≤ edit.newEnd) {a b : Nat} (h : a ≤ b) :
    widthAfter edit a ≤ widthAfter edit b := by
  have ha := widthAfter_cases edit a
  have hb := widthAfter_cases edit b
  omega

/-- An edit changes the two ends of a leaf as it changes the text up to there. -/
theorem resize_eq (head : Head) {edit : TextEdit} (ho : edit.start ≤ edit.oldEnd)
    (hn : edit.start ≤ edit.newEnd) :
    head.resize edit = { head with
      padding := widthAfter edit head.padding
      size := widthAfter edit (head.padding + head.size) - widthAfter edit head.padding } := by
  have ends (padding size : Nat) (hp : padding = widthAfter edit head.padding)
      (hs : size = widthAfter edit (head.padding + head.size) - widthAfter edit head.padding) :
      ({ head with padding, size } : Head) = { head with
        padding := widthAfter edit head.padding
        size := widthAfter edit (head.padding + head.size) - widthAfter edit head.padding } := by
    rw [hp, hs]
  have front := widthAfter_cases edit head.padding
  have whole := widthAfter_cases edit (head.padding + head.size)
  -- each branch of the definition gives the widths of the padding and of the whole
  rw [Head.resize]
  split
  · exact ends _ _ (by omega) (by omega)
  · split
    · exact ends _ _ (by omega) (by omega)
    · split
      · rename_i content
        simp only [Bool.or_eq_true, decide_eq_true_eq, Bool.and_eq_true] at content
        exact ends _ _ (by omega) (by omega)
      · rename_i content
        simp only [Bool.or_eq_true, decide_eq_true_eq, Bool.and_eq_true] at content
        exact ends head.padding head.size (by omega) (by omega)

theorem totalSize_resize (head : Head) (edit : TextEdit) (ho : edit.start ≤ edit.oldEnd)
    (hn : edit.start ≤ edit.newEnd) (children : List Subtree) :
    (mk (head.resize edit) children).totalSize =
      widthAfter edit (head.padding + head.size) := by
  rw [resize_eq head ho hn]
  exact Nat.add_sub_of_le (widthAfter_mono ho hn (Nat.le_add_right _ _))

/-- Behind the end of a leaf nothing changes it, but an insertion right there. -/
theorem resize_of_end {head : Head} {edit : TextEdit}
    (behind : head.padding + head.size < edit.start ∨
      (head.padding + head.size = edit.start ∧ edit.start < edit.oldEnd))
    (ho : edit.start ≤ edit.oldEnd) : head.resize edit = head := by
  have content : ¬ (edit.start < head.padding + head.size ∨
      (edit.start = head.padding + head.size ∧ edit.oldEnd = edit.start)) := by omega
  rw [Head.resize, if_neg (by omega), if_neg (by omega), if_neg (by simpa using content)]

end Subtree

/-! ### Shares -/

namespace TextEdit

variable (edit : TextEdit) (first : Bool) (left : Nat)

/-- Whether the children in front of offset `left` have taken the inserted text. -/
def Taken : Prop :=
  edit.start < left ∨ (edit.oldEnd = edit.start ∧ left = edit.start ∧ first = false)

instance : Decidable (edit.Taken first left) :=
  inferInstanceAs (Decidable (_ ∨ _))

/-- What is left of the edit for a child at offset `left`. -/
def remaining : TextEdit :=
  if edit.Taken first left then { edit with newEnd := edit.start } else edit

/-- The same as seen from the child. -/
def share : TextEdit :=
  (edit.remaining first left).seenFrom left

/-- Whether a child at offset `left` lies behind the edit.  One that starts where the edit ends
may still take in the inserted text, if it is the first or has no width. -/
def Precedes (child : Subtree) : Prop :=
  edit.oldEnd < left ∨ (left = edit.oldEnd ∧ 0 < child.totalSize ∧ first = false)

instance (child : Subtree) : Decidable (edit.Precedes first left child) :=
  inferInstanceAs (Decidable (_ ∨ _))

/-- Whether an edit of a node leaves a child at offset `left` alone: the child lies in front of
the edit with all that it depends on, or it lies behind. -/
def Spares (child : Subtree) : Prop :=
  left + child.totalSize + child.lookahead < edit.start ∨ edit.Precedes first left child

instance (child : Subtree) : Decidable (edit.Spares first left child) :=
  inferInstanceAs (Decidable (_ ∨ _))

/-- Where a child at offset `left` starts after the edit. -/
def place : Nat :=
  if first then left else Subtree.widthAfter edit left

variable {edit first left}

@[simp] theorem start_remaining : (edit.remaining first left).start = edit.start := by
  rw [remaining]
  split <;> rfl

@[simp] theorem oldEnd_remaining : (edit.remaining first left).oldEnd = edit.oldEnd := by
  rw [remaining]
  split <;> rfl

theorem newEnd_remaining : (edit.remaining first left).newEnd =
    if edit.Taken first left then edit.start else edit.newEnd := by
  rw [remaining]
  split <;> rfl

@[simp] theorem start_share : (edit.share first left).start = edit.start - left := by
  rw [share, TextEdit.seenFrom, start_remaining]

@[simp] theorem oldEnd_share : (edit.share first left).oldEnd = edit.oldEnd - left := by
  rw [share, TextEdit.seenFrom, oldEnd_remaining]

theorem newEnd_share : (edit.share first left).newEnd =
    (if edit.Taken first left then edit.start else edit.newEnd) - left := by
  rw [share, TextEdit.seenFrom, newEnd_remaining]

theorem start_le_oldEnd_share (ho : edit.start ≤ edit.oldEnd) :
    (edit.share first left).start ≤ (edit.share first left).oldEnd := by
  rw [start_share, oldEnd_share]
  omega

theorem start_le_newEnd_share (hn : edit.start ≤ edit.newEnd) :
    (edit.share first left).start ≤ (edit.share first left).newEnd := by
  rw [start_share, newEnd_share]
  split <;> omega

theorem not_taken_of_lt (h : left < edit.start) : ¬ edit.Taken first left := by
  rintro (behind | ⟨-, here, -⟩) <;> omega

theorem remaining_of_not_taken (free : ¬ edit.Taken first left) :
    edit.remaining first left = edit :=
  if_neg free

/-- The first child gets the edit as it is. -/
@[simp] theorem share_first (edit : TextEdit) : edit.share true 0 = edit := by
  have free : ¬ edit.Taken true 0 := by simp [Taken]
  rw [share, remaining_of_not_taken free]
  rfl

@[simp] theorem place_first (edit : TextEdit) : edit.place true left = left := rfl

@[simp] theorem place_later (edit : TextEdit) :
    edit.place false left = Subtree.widthAfter edit left := rfl

/-- In front of an edit nothing moves. -/
theorem place_before (first : Bool) (ho : edit.start ≤ edit.oldEnd) (before : left < edit.start) :
    edit.place first left = left := by
  cases first
  · exact Subtree.widthAfter_before ho before
  · rfl

/-- Behind an edit everything moves with the text. -/
theorem place_behind (ho : edit.start ≤ edit.oldEnd) (hf : first = true → left = 0)
    {child : Subtree} (behind : edit.Precedes first left child) :
    edit.place first left = edit.newEnd + (left - edit.oldEnd) := by
  cases first
  · rw [place_later, Subtree.widthAfter_behind ho]
    exact behind.elim Nat.le_of_lt fun h => Nat.le_of_eq h.1.symm
  · simp [Precedes, hf rfl] at behind

/-- What the share of a child adds to the places behind it. -/
theorem place_add_widthAfter_share (ho : edit.start ≤ edit.oldEnd) (hn : edit.start ≤ edit.newEnd)
    (hf : first = true → left = 0) (width : Nat) :
    edit.place first left + Subtree.widthAfter (edit.share first left) width =
      Subtree.widthAfter edit (left + width) := by
  cases first with
  | true =>
    obtain rfl := hf rfl
    rw [share_first, place_first, Nat.zero_add, Nat.zero_add]
  | false =>
    have here := Subtree.widthAfter_cases edit left
    have shared := Subtree.widthAfter_cases (edit.share false left) width
    have there := Subtree.widthAfter_cases edit (left + width)
    rw [start_share, oldEnd_share, newEnd_share] at shared
    simp only [Taken, and_true] at shared
    rw [place_later]
    split at shared <;> omega

end TextEdit

namespace Subtree

/-! ### Rows of children -/

/-- A child at offset `left` after an edit of its parent. -/
def editAt (edit : TextEdit) (first : Bool) (left : Nat) (child : Subtree) : Subtree :=
  if edit.Spares first left child then child else child.edit (edit.share first left)

/-- A row of children from offset `left` on after an edit of their parent. -/
def editRow (edit : TextEdit) : Bool → Nat → List Subtree → List Subtree
  | _, _, [] => []
  | first, left, child :: rest =>
    child.editAt edit first left :: editRow edit false (left + child.totalSize) rest

section Rows

variable {edit : TextEdit} {first : Bool} {left : Nat}

theorem editAt_spared {child : Subtree} (spared : edit.Spares first left child) :
    child.editAt edit first left = child :=
  if_pos spared

theorem editAt_reached {child : Subtree} (reached : ¬ edit.Spares first left child) :
    child.editAt edit first left = child.edit (edit.share first left) :=
  if_neg reached

theorem editRow_eq_nil_iff {trees : List Subtree} :
    editRow edit first left trees = [] ↔ trees = [] := by
  cases trees <;> simp [editRow]

theorem editRow_ne_nil {trees : List Subtree} (some : trees ≠ []) :
    editRow edit first left trees ≠ [] :=
  fun none => some (editRow_eq_nil_iff.mp none)

/-- What each child keeps a row of children keeps. -/
theorem forall_mem_editRow {P : Subtree → Prop} {trees : List Subtree} (h : ∀ tree ∈ trees, P tree)
    (kept : ∀ tree ∈ trees, ∀ share, P (tree.edit share)) :
    ∀ tree ∈ editRow edit first left trees, P tree := by
  induction trees generalizing first left with
  | nil => exact h
  | cons child rest ih =>
    obtain ⟨hc, hr⟩ := List.forall_mem_cons.mp h
    obtain ⟨kc, kr⟩ := List.forall_mem_cons.mp kept
    refine List.forall_mem_cons.mpr ⟨?_, ih hr kr⟩
    rw [editAt]
    split
    · exact hc
    · exact kc _

theorem editRow_behind (behind : edit.oldEnd < left) (trees : List Subtree) :
    editRow edit first left trees = trees := by
  induction trees generalizing first left with
  | nil => rfl
  | cons child rest ih =>
    rw [editRow, ih (Nat.lt_add_right _ behind), editAt_spared (.inr (.inl behind))]

/-- What is left of an edit behind a child that it does not spare. -/
theorem remaining_next {child : Subtree} (touched : ¬ edit.Spares first left child) :
    (if edit.start < left + child.totalSize ∨
        (edit.oldEnd = edit.start ∧ left + child.totalSize = edit.start) then
      ⟨edit.start, edit.oldEnd, edit.start⟩ else edit.remaining first left) =
        edit.remaining false (left + child.totalSize) := by
  rw [TextEdit.remaining]
  split
  · rename_i takes
    have later : edit.Taken false (left + child.totalSize) :=
      takes.imp_right fun h => ⟨h.1, h.2, rfl⟩
    rw [TextEdit.remaining, if_pos later]
  · rename_i free
    have later : ¬ edit.Taken false (left + child.totalSize) :=
      fun h => free (h.imp_right fun h => ⟨h.1, h.2.1⟩)
    have here : ¬ edit.Taken first left := by
      rintro (behind | ⟨inserts, here, front⟩)
      · exact free (.inl (Nat.lt_add_right _ behind))
      · -- a child with a width would be spared here
        have wide : 0 < child.totalSize := by omega
        exact touched (.inr (.inr ⟨by omega, wide, front⟩))
    rw [TextEdit.remaining_of_not_taken later, if_neg here]

/-- **The run through the children** does to each of them what follows from its place. -/
theorem editChildren_eq (edit : TextEdit) (first : Bool) (left : Nat) (trees : List Subtree) :
    editChildren (edit.remaining first left) (edit.oldEnd = edit.start) first left trees =
      editRow edit first left trees := by
  induction trees generalizing first left with
  | nil => rw [editChildren, editRow]
  | cons child rest ih =>
    have ih := ih false (left + child.totalSize)
    rw [editChildren, editRow, editAt]
    simp only [TextEdit.start_remaining, TextEdit.oldEnd_remaining]
    by_cases before : left + child.totalSize + child.lookahead < edit.start
    · -- in front of the edit nothing is taken yet
      have same : edit.remaining first left = edit.remaining false (left + child.totalSize) := by
        rw [TextEdit.remaining_of_not_taken (TextEdit.not_taken_of_lt (by omega)),
          TextEdit.remaining_of_not_taken (TextEdit.not_taken_of_lt (by omega))]
      rw [if_pos before, if_pos (show edit.Spares first left child from .inl before), same, ih]
    · rw [if_neg before]
      by_cases spared : edit.Spares first left child
      · -- the run stops here, and all that comes later lies behind the edit
        have stops := spared.resolve_left before
        rw [TextEdit.Precedes] at stops
        have behind : edit.oldEnd < left + child.totalSize := by omega
        rw [if_pos (by simpa [and_assoc] using stops), if_pos spared, editRow_behind behind]
      · have runs : ¬ edit.Precedes first left child := fun stops => spared (.inr stops)
        rw [TextEdit.Precedes] at runs
        rw [if_neg (by simpa [and_assoc] using runs), if_neg spared, ← ih,
          ← remaining_next spared]
        simp only [Bool.or_eq_true, decide_eq_true_eq, Bool.and_eq_true]
        rfl

end Rows

/-! ### Edited nodes -/

/-- The head of a node that an edit has touched. -/
def touch (head : Head) : Head :=
  { head with marks := { head.marks with hasChanges := true } }

theorem edit_leaf (edit : TextEdit) (head : Head) :
    (mk head []).edit edit = mk ((touch head).resize edit) [] := by
  rw [Subtree.edit, List.isEmpty_nil, if_pos rfl, touch]

/-- An edit hands on to the children of a node what belongs to each of them. -/
theorem edit_mk (edit : TextEdit) (head : Head) {children : List Subtree} (some : children ≠ []) :
    (mk head children).edit edit =
      mk (summarize (touch head) (editRow edit true 0 children)) (editRow edit true 0 children) := by
  have free : ¬ edit.Taken true 0 := by simp [TextEdit.Taken]
  have row := editChildren_eq edit true 0 children
  rw [TextEdit.remaining_of_not_taken free] at row
  rw [Subtree.edit, List.isEmpty_eq_false_iff.mpr some, if_neg Bool.false_ne_true, row, touch]

theorem children_edit (edit : TextEdit) (tree : Subtree) :
    (tree.edit edit).children = editRow edit true 0 tree.children := by
  obtain ⟨head, children⟩ := tree
  cases children with
  | nil => rw [edit_leaf]; rfl
  | cons first rest => rw [edit_mk edit head (List.cons_ne_nil first rest)]; rfl

/-- What an edit keeps of a node it keeps throughout a subtree. -/
theorem Throughout.edit {P : Subtree → Prop}
    (kept : ∀ edit tree, P tree → P (Subtree.edit edit tree)) (edit : TextEdit) (tree : Subtree)
    (h : Throughout P tree) : Throughout P (tree.edit edit) := by
  induction tree using inductionOn generalizing edit with
  | mk head children ih =>
    have below := (throughout_iff.mp h).2
    refine throughout_iff.mpr ⟨kept edit _ h.self, ?_⟩
    rw [children_edit]
    exact forall_mem_editRow below fun tree m share => ih tree m share (below tree m)

@[simp] theorem marks_edit (edit : TextEdit) (tree : Subtree) :
    (tree.edit edit).marks = { tree.marks with hasChanges := true } := by
  obtain ⟨head, children⟩ := tree
  cases children with
  | nil =>
    simp only [Subtree.edit, List.isEmpty_nil, if_true, marks, Subtree.head, Head.resize]
    split
    · rfl
    · split
      · rfl
      · split <;> rfl
  | cons first rest =>
    simp only [Subtree.edit, List.isEmpty_cons, Bool.false_eq_true, if_false]
    rcases editChildren edit (decide (edit.oldEnd = edit.start)) true 0 (first :: rest) with
      - | ⟨a, as⟩ <;> rfl

/-- Whatever a node was like, an edit measures it by its children. -/
theorem measured_edit (edit : TextEdit) (tree : Subtree) : Measured (tree.edit edit) := by
  obtain ⟨head, children⟩ := tree
  cases children with
  | nil => exact { span := fun some => absurd rfl some, reach := Nat.zero_le _ }
  | cons child rest =>
    rw [edit_mk edit head (List.cons_ne_nil child rest), editRow]
    have span := totalSize_mk_summarize (touch head) (child.editAt edit true 0)
      (editRow edit false (0 + child.totalSize) rest)
    refine { span := fun _ => span, reach := ?_ }
    rw [span]
    exact Nat.sub_le_iff_le_add'.mp (Nat.le_refl _)

/-! ### The widths of edited nodes -/

section Widths

variable {edit : TextEdit} {first : Bool} {left : Nat} (ho : edit.start ≤ edit.oldEnd)
  (hn : edit.start ≤ edit.newEnd) (hf : first = true → left = 0)
include ho hn hf

/-- The next child starts where the text behind this one has gone. -/
theorem place_add_totalSize_editAt {child : Subtree}
    (width : ∀ share : TextEdit, share.start ≤ share.oldEnd → share.start ≤ share.newEnd →
      (child.edit share).totalSize = widthAfter share child.totalSize) :
    edit.place first left + (child.editAt edit first left).totalSize =
      edit.place false (left + child.totalSize) := by
  rw [editAt]
  split
  · rename_i spared
    have there := widthAfter_cases edit (left + child.totalSize)
    rw [TextEdit.place_later]
    rcases spared with before | behind
    · have here := TextEdit.place_before first ho (show left < edit.start by omega)
      omega
    · have here := TextEdit.place_behind ho hf behind
      rw [TextEdit.Precedes] at behind
      omega
  · rw [width _ (TextEdit.start_le_oldEnd_share ho) (TextEdit.start_le_newEnd_share hn),
      TextEdit.place_add_widthAfter_share ho hn hf, TextEdit.place_later]

/-- Behind a row of children comes the text behind them. -/
theorem totalSizes_editRow {trees : List Subtree}
    (width : ∀ tree ∈ trees, ∀ share : TextEdit, share.start ≤ share.oldEnd →
      share.start ≤ share.newEnd → (tree.edit share).totalSize = widthAfter share tree.totalSize) :
    edit.place first left + totalSizes (editRow edit first left trees) =
      edit.place (first && trees.isEmpty) (left + totalSizes trees) := by
  induction trees generalizing first left with
  | nil => simp [editRow, totalSizes]
  | cons child rest ih =>
    obtain ⟨hc, hr⟩ := List.forall_mem_cons.mp width
    -- the rest of the row starts where this child ends, before and after the edit
    have behind := @ih false (left + child.totalSize) (by simp) hr
    rw [Bool.false_and] at behind
    rw [editRow, totalSizes, totalSizes, ← Nat.add_assoc, ← Nat.add_assoc,
      place_add_totalSize_editAt ho hn hf hc, behind, List.isEmpty_cons, Bool.and_false]

end Widths

/-- **A subtree that an edit touches** takes its share of the change. -/
theorem totalSize_edit (edit : TextEdit) (ho : edit.start ≤ edit.oldEnd)
    (hn : edit.start ≤ edit.newEnd) (tree : Subtree) (hm : Throughout Measured tree) :
    (tree.edit edit).totalSize = widthAfter edit tree.totalSize := by
  induction tree using inductionOn generalizing edit with
  | mk head children ih =>
    rcases e : children with - | ⟨child, rest⟩
    · rw [edit_leaf]
      exact totalSize_resize (touch head) edit ho hn []
    · -- a node is as long as its row, which starts where the node does
      rw [← e]
      have some : children ≠ [] := e ▸ List.cons_ne_nil child rest
      have span := hm.self.span some
      have below := (throughout_iff.mp hm).2
      have row := @totalSizes_editRow edit true 0 ho hn (fun _ => rfl) children
        fun tree m share ho hn => ih tree m share ho hn (below tree m)
      rw [TextEdit.place_first, Nat.zero_add, Nat.zero_add, List.isEmpty_eq_false_iff.mpr some,
        Bool.and_false, TextEdit.place_later] at row
      rw [edit_mk edit head some, span]
      obtain ⟨a, as, e'⟩ := List.ne_nil_iff_exists_cons.mp
        (@editRow_ne_nil edit true 0 children some)
      rw [e', totalSize_mk_summarize, ← e', row]
      rfl

/-- In a node, the next child starts where the text behind this one has gone. -/
theorem place_next {edit : TextEdit} {first : Bool} {left : Nat} (ho : edit.start ≤ edit.oldEnd)
    (hn : edit.start ≤ edit.newEnd) (hf : first = true → left = 0) {child : Subtree}
    (hm : Throughout Measured child) :
    edit.place first left + (child.editAt edit first left).totalSize =
      edit.place false (left + child.totalSize) := by
  apply place_add_totalSize_editAt ho hn hf
  intro share ho hn
  exact totalSize_edit share ho hn child hm

end Subtree

end Reparse
