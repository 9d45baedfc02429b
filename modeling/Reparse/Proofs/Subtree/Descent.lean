/-
Reparse/Proofs/Subtree/Descent.lean

Ways down a subtree, and what an edit does at the end of each.

A path of child indices leads to a subtree and to its offset.  What holds
everywhere holds at the end of every path (`everywhere_iff_descend?`).  An edit
keeps all paths.  The subtree at the end of one is left as it was, in front of
the edit or behind it, or it gets its share (`descend?_edit`).
-/
import Reparse.Proofs.Subtree.Share

namespace Reparse

namespace Subtree

/-! ### Paths -/

/-- The subtree that a path of child indices leads to, and its offset. -/
def descend? (tree : Subtree) : List Nat → Option (Nat × Subtree)
  | [] => some (0, tree)
  | index :: path =>
    tree.children[index]?.bind fun child =>
      (child.descend? path).map fun (offset, found) =>
        (totalSizes (tree.children.take index) + offset, found)

variable {P : Nat → Subtree → Prop} {start offset : Nat} {tree found : Subtree}

theorem descend?_cons {index : Nat} {path : List Nat} :
    tree.descend? (index :: path) = some (offset, found) ↔
      ∃ child within, tree.children[index]? = some child ∧
        child.descend? path = some (within, found) ∧
        offset = totalSizes (tree.children.take index) + within := by
  simp only [descend?, Option.bind_eq_some_iff, Option.map_eq_some_iff, Prod.mk.injEq, Prod.exists]
  constructor
  · rintro ⟨child, here, within, _, there, rfl, rfl⟩
    exact ⟨child, within, here, there, rfl⟩
  · rintro ⟨child, within, here, there, rfl⟩
    exact ⟨child, here, within, found, there, rfl, rfl⟩

theorem everywhereAmong_iff_getElem? {trees : List Subtree} :
    EverywhereAmong P start trees ↔
      ∀ index child, trees[index]? = some child →
        Everywhere P (start + totalSizes (trees.take index)) child := by
  induction trees generalizing start with
  | nil => simp
  | cons tree rest ih =>
    rw [everywhereAmong_cons, ih]
    constructor
    · rintro ⟨first, later⟩ index child here
      cases index with
      | zero =>
        obtain rfl : tree = child := by simpa using here
        simpa [totalSizes] using first
      | succ index =>
        have := later index child (by simpa using here)
        simpa [totalSizes, Nat.add_assoc] using this
    · intro each
      refine ⟨by simpa [totalSizes] using each 0 tree rfl, fun index child here => ?_⟩
      have := each (index + 1) child (by simpa using here)
      simpa [totalSizes, Nat.add_assoc] using this

/-- What holds everywhere holds at the end of each path. -/
theorem Everywhere.descend? (h : Everywhere P start tree) {path : List Nat}
    (there : tree.descend? path = some (offset, found)) : Everywhere P (start + offset) found := by
  induction path generalizing start tree offset with
  | nil =>
    obtain ⟨rfl, rfl⟩ : 0 = offset ∧ tree = found := by simpa [Subtree.descend?] using there
    exact h
  | cons index path ih =>
    obtain ⟨child, within, here, further, rfl⟩ := descend?_cons.mp there
    have below := everywhereAmong_iff_getElem?.mp (everywhere_iff.mp h).2 index child here
    rw [← Nat.add_assoc]
    exact ih below further

theorem everywhere_iff_descend? : Everywhere P start tree ↔
    ∀ path offset found, tree.descend? path = some (offset, found) → P (start + offset) found := by
  constructor
  · intro h path offset found there
    exact (everywhere_iff.mp (h.descend? there)).1
  · intro h
    induction tree using inductionOn generalizing start with
    | mk head children ih =>
      refine everywhere_iff.mpr ⟨h [] 0 _ rfl, everywhereAmong_iff_getElem?.mpr ?_⟩
      intro index child here
      refine ih child (List.mem_of_getElem? here) fun path offset found there => ?_
      rw [Nat.add_assoc]
      exact h (index :: path) _ found (descend?_cons.mpr ⟨child, offset, here, there, rfl⟩)

theorem everywhereAmong_children_iff_descend? : EverywhereAmong P start tree.children ↔
    ∀ index path offset found, tree.descend? (index :: path) = some (offset, found) →
      P (start + offset) found := by
  simp only [everywhereAmong_iff_getElem?, everywhere_iff_descend?]
  constructor
  · intro each index path offset found there
    obtain ⟨child, within, here, further, rfl⟩ := descend?_cons.mp there
    rw [← Nat.add_assoc]
    exact each index child here path within found further
  · intro each index child here path within found further
    rw [Nat.add_assoc]
    exact each index path _ found (descend?_cons.mpr ⟨child, within, here, further, rfl⟩)

theorem Throughout.descend? {P : Subtree → Prop} (h : Throughout P tree) {path : List Nat}
    (there : tree.descend? path = some (offset, found)) : Throughout P found :=
  everywhere_const.mp (Everywhere.descend? h there)

/-- A child lies within the row that it is in. -/
theorem totalSizes_take_le {trees : List Subtree} {index : Nat} {child : Subtree}
    (here : trees[index]? = some child) :
    totalSizes (trees.take index) + child.totalSize ≤ totalSizes trees := by
  obtain ⟨inside, rfl⟩ := List.getElem?_eq_some_iff.mp here
  have split := congrArg totalSizes (List.take_append_drop index trees)
  rw [List.drop_eq_getElem_cons inside, totalSizes_append, totalSizes] at split
  omega

/-- First children start where their parents start. -/
theorem offset_eq_zero_of_first {path : List Nat} (first : path.all (· == 0) = true)
    (there : tree.descend? path = some (offset, found)) : offset = 0 := by
  induction path generalizing tree offset with
  | nil =>
    obtain ⟨rfl, -⟩ : 0 = offset ∧ tree = found := by simpa [Subtree.descend?] using there
    rfl
  | cons index path ih =>
    obtain ⟨child, within, -, further, rfl⟩ := descend?_cons.mp there
    simp only [List.all_cons, Bool.and_eq_true, beq_iff_eq] at first
    rw [ih first.2 further, first.1]
    rfl

/-- What a path leads to lies within the subtree. -/
theorem le_totalSize_of_descend? (hm : Throughout Measured tree) {path : List Nat}
    (there : tree.descend? path = some (offset, found)) :
    offset + found.totalSize ≤ tree.totalSize := by
  induction path generalizing tree offset with
  | nil =>
    obtain ⟨rfl, rfl⟩ : 0 = offset ∧ tree = found := by simpa [Subtree.descend?] using there
    omega
  | cons index path ih =>
    obtain ⟨child, within, here, further, rfl⟩ := descend?_cons.mp there
    have mem := List.mem_of_getElem? here
    have span := hm.self.span (List.ne_nil_of_mem mem)
    have row := totalSizes_take_le here
    have below := ih (hm.child mem) further
    omega

/-- What it depends on lies within what the subtree depends on. -/
theorem le_reach_of_descend? (hm : Throughout Measured tree) {path : List Nat}
    (there : tree.descend? path = some (offset, found)) :
    offset + found.totalSize + found.lookahead ≤ tree.totalSize + tree.lookahead := by
  have within := everywhere_iff_descend?.mp (hm.everywhere_within 0) path offset found there
  omega

end Subtree

/-! ### Shares along a path -/

attribute [ext] TextEdit

namespace TextEdit

variable {edit : TextEdit} {first first' : Bool} {left left' : Nat}

theorem taken_share_iff (ho : edit.start ≤ edit.oldEnd) (hf' : first' = true → left' = 0)
    (free : ¬ edit.Taken first left) :
    (edit.share first left).Taken first' left' ↔ edit.Taken (first && first') (left + left') := by
  simp only [Taken, start_share, oldEnd_share] at free ⊢
  cases first <;> cases first' <;> simp at free hf' ⊢ <;> omega

/-- The share of a share is one of the whole edit. -/
theorem share_share (ho : edit.start ≤ edit.oldEnd) (hf' : first' = true → left' = 0) :
    (edit.share first left).share first' left' = edit.share (first && first') (left + left') := by
  ext
  · rw [start_share, start_share, start_share, Nat.sub_sub]
  · rw [oldEnd_share, oldEnd_share, oldEnd_share, Nat.sub_sub]
  rw [newEnd_share, newEnd_share, newEnd_share, start_share, ← Nat.sub_sub]
  by_cases taken : edit.Taken first left
  · -- nothing is left to insert, neither here nor there
    have later : edit.Taken (first && first') (left + left') := by
      simp only [Taken] at taken ⊢
      cases first <;> cases first' <;> simp at taken hf' ⊢ <;> omega
    rw [if_pos taken, ite_self, if_pos later]
  · simp only [taken_share_iff ho hf' taken, if_neg taken]
    split <;> rfl

/-- So is the place that a share of it leads to. -/
theorem place_share (ho : edit.start ≤ edit.oldEnd) (hn : edit.start ≤ edit.newEnd)
    (hf : first = true → left = 0) (hf' : first' = true → left' = 0) :
    edit.place first left + (edit.share first left).place first' left' =
      edit.place (first && first') (left + left') := by
  cases first' with
  | false => rw [place_later, place_add_widthAfter_share ho hn hf, Bool.and_false, place_later]
  | true => rw [hf' rfl, place_first, Nat.add_zero, Nat.add_zero, Bool.and_true]

/-- What lies behind a share lies behind the whole edit. -/
theorem not_precedes_of_share {child node : Subtree} (hf' : first' = true → left' = 0)
    (within : left' + node.totalSize ≤ child.totalSize)
    (reached : ¬ edit.Precedes first left child)
    (reached' : ¬ (edit.share first left).Precedes first' left' node) :
    ¬ edit.Precedes (first && first') (left + left') node := by
  simp only [Precedes, oldEnd_share] at reached reached' ⊢
  cases first <;> cases first' <;> simp at reached reached' hf' ⊢ <;> omega

end TextEdit

namespace Subtree

/-! ### Edited trees -/

section Row

variable {edit : TextEdit} {first : Bool} {left : Nat} {trees : List Subtree}

theorem getElem?_editRow (index : Nat) :
    (editRow edit first left trees)[index]? =
      trees[index]?.map (editAt edit (first && index == 0)
        (left + totalSizes (trees.take index))) := by
  induction trees generalizing first left index with
  | nil => rfl
  | cons tree rest ih =>
    cases index with
    | zero => simp [editRow, totalSizes]
    | succ index => simp [editRow, ih, totalSizes, Nat.add_assoc]

theorem take_editRow (index : Nat) :
    (editRow edit first left trees).take index = editRow edit first left (trees.take index) := by
  induction trees generalizing first left index with
  | nil => simp [editRow]
  | cons tree rest ih =>
    cases index with
    | zero => simp [editRow]
    | succ index => simp [editRow, ih]

/-- Where a child of an edited node starts. -/
theorem totalSizes_take_children_edit {edit : TextEdit} {tree : Subtree}
    (ho : edit.start ≤ edit.oldEnd) (hn : edit.start ≤ edit.newEnd)
    (hm : Throughout Measured tree) {index : Nat} (inside : index < tree.children.length) :
    totalSizes ((tree.edit edit).children.take index) =
      edit.place (index == 0) (totalSizes (tree.children.take index)) := by
  have front := @totalSizes_editRow edit true 0 ho hn (fun _ => rfl) (tree.children.take index)
    fun child m share ho hn => totalSize_edit share ho hn child (hm.child (List.mem_of_mem_take m))
  have none : (tree.children.take index).isEmpty = (index == 0) := by
    have length := List.length_take_of_le (Nat.le_of_lt inside)
    rw [Bool.eq_iff_iff, List.isEmpty_iff_length_eq_zero, length, beq_iff_eq]
  rwa [TextEdit.place_first, Nat.zero_add, Nat.zero_add, Bool.true_and, none, ← take_editRow,
    ← children_edit] at front

end Row

/-- What becomes of a node at an offset when an edit touches the subtree that it is in. -/
inductive Fate (edit : TextEdit) (first : Bool) (node : Nat × Subtree) : Nat × Subtree → Prop
  /-- It lies in front of the edit, with all that it depends on, and stays. -/
  | before : node.1 + node.2.totalSize + node.2.lookahead < edit.start → Fate edit first node node
  /-- It lies behind the edit and moves with the text. -/
  | behind : edit.oldEnd ≤ node.1 →
      Fate edit first node (edit.newEnd + (node.1 - edit.oldEnd), node.2)
  /-- It gets its share. -/
  | touched : ¬ edit.Precedes first node.1 node.2 →
      Fate edit first node (edit.place first node.1, node.2.edit (edit.share first node.1))

section Edit

variable {edit : TextEdit} (ho : edit.start ≤ edit.oldEnd) (hn : edit.start ≤ edit.newEnd)
include ho hn

/-- What becomes of a node in a part of a subtree. -/
theorem Fate.share {first first' : Bool} {left within within' : Nat} {child node node' : Subtree}
    (hf : first = true → left = 0) (hf' : first' = true → within = 0)
    (inside : within + node.totalSize ≤ child.totalSize)
    (reached : ¬ edit.Precedes first left child)
    (fate : Fate (edit.share first left) first' (within, node) (within', node')) :
    Fate edit (first && first') (left + within, node)
      (edit.place first left + within', node') := by
  cases fate with
  | before short =>
    simp only [TextEdit.start_share] at short
    rw [TextEdit.place_before _ ho (by omega)]
    exact .before (by simp only; omega)
  | behind late =>
    simp only [TextEdit.oldEnd_share] at late
    have moves : edit.place first left + ((edit.share first left).newEnd +
        (within - (edit.share first left).oldEnd)) =
          edit.newEnd + (left + within - edit.oldEnd) := by
      have place := @TextEdit.place_add_widthAfter_share edit first left ho hn hf within
      rwa [widthAfter_behind (TextEdit.start_le_oldEnd_share ho) (by rwa [TextEdit.oldEnd_share]),
        widthAfter_behind ho (by omega)] at place
    rw [moves]
    exact .behind (show edit.oldEnd ≤ left + within by omega)
  | touched reached' =>
    rw [TextEdit.place_share ho hn hf hf', TextEdit.share_share ho hf']
    exact .touched (TextEdit.not_precedes_of_share hf' inside reached reached')

/-- The same of all that is in a child. -/
theorem descend?_editAt {first : Bool} {left : Nat} (hf : first = true → left = 0) {child : Subtree}
    (hm : Throughout Measured child) {path : List Nat}
    (inside : ∀ share : TextEdit, share.start ≤ share.oldEnd → share.start ≤ share.newEnd →
      Option.Rel (Fate share (path.all (· == 0))) (child.descend? path)
        ((child.edit share).descend? path)) :
    Option.Rel (Fate edit (first && path.all (· == 0)))
      ((child.descend? path).map fun (within, node) => (left + within, node))
      (((child.editAt edit first left).descend? path).map fun (within, node) =>
        (edit.place first left + within, node)) := by
  rw [editAt]
  split
  · -- the child moves as a whole
    rename_i spared
    rcases there : child.descend? path with - | ⟨within, node⟩
    · exact .none
    refine .some ?_
    have depends := le_reach_of_descend? hm there
    rcases spared with before | behind
    · rw [TextEdit.place_before _ ho (by omega)]
      exact .before (by simp only; omega)
    · rw [TextEdit.place_behind ho hf behind]
      have late : edit.oldEnd ≤ left := behind.elim Nat.le_of_lt fun h => Nat.le_of_eq h.1.symm
      show Fate _ _ _ (edit.newEnd + (left - edit.oldEnd) + within, node)
      rw [Nat.add_assoc, ← Nat.sub_add_comm late]
      exact .behind (show edit.oldEnd ≤ left + within by omega)
  · rename_i touched
    have fate := inside (edit.share first left) (TextEdit.start_le_oldEnd_share ho)
      (TextEdit.start_le_newEnd_share hn)
    generalize (child.edit (edit.share first left)).descend? path = after at fate
    rcases there : child.descend? path with - | ⟨within, node⟩ <;> rw [there] at fate
    · cases fate
      exact .none
    · cases fate with
      | some fate =>
        refine .some (Fate.share ho hn hf (fun first => ?_) (le_totalSize_of_descend? hm there)
          (fun behind => touched (.inr behind)) fate)
        exact offset_eq_zero_of_first first there

/-- **What an edit leaves at the end of each path.** -/
theorem descend?_edit {tree : Subtree} (hm : Throughout Measured tree) (path : List Nat) :
    Option.Rel (Fate edit (path.all (· == 0))) (tree.descend? path)
      ((tree.edit edit).descend? path) := by
  induction path generalizing tree edit with
  | nil =>
    -- at the end of the path is what the whole edit touches
    have reached : ¬ edit.Precedes true 0 tree := by simp [TextEdit.Precedes]
    have fate := @Fate.touched edit true (0, tree) reached
    rw [TextEdit.share_first, TextEdit.place_first] at fate
    exact .some fate
  | cons index path ih =>
    rw [Subtree.descend?, Subtree.descend?, children_edit, getElem?_editRow, ← children_edit]
    rcases here : tree.children[index]? with - | child
    · exact .none
    -- the rest of the path goes through a child, with the share that the child gets
    have mem := List.mem_of_getElem? here
    rw [totalSizes_take_children_edit ho hn hm (List.getElem?_eq_some_iff.mp here).1]
    simp only [Option.bind_some, Option.map_some, List.all_cons, Bool.true_and, Nat.zero_add]
    refine descend?_editAt ho hn (fun first => ?_) (hm.child mem) fun share ho hn =>
      ih ho hn (hm.child mem)
    rw [beq_iff_eq.mp first]
    rfl

variable {tree : Subtree} (hm : Throughout Measured tree) {path : List Nat}
  {before after : Nat × Subtree}
include hm

/-- Each node is still there after an edit. -/
theorem exists_descend?_edit (there : tree.descend? path = some before) :
    ∃ after, (tree.edit edit).descend? path = some after ∧
      Fate edit (path.all (· == 0)) before after := by
  have fates := descend?_edit ho hn hm path
  rw [there] at fates
  generalize (tree.edit edit).descend? path = found at fates ⊢
  cases fates with
  | some fate => exact ⟨_, rfl, fate⟩

/-- Each node after an edit was there before. -/
theorem exists_descend?_of_edit (there : (tree.edit edit).descend? path = some after) :
    ∃ before, tree.descend? path = some before ∧
      Fate edit (path.all (· == 0)) before after := by
  have fates := descend?_edit ho hn hm path
  rw [there] at fates
  generalize tree.descend? path = found at fates ⊢
  cases fates with
  | some fate => exact ⟨_, rfl, fate⟩

end Edit

end Subtree

end Reparse
