/-
Reparse/Proofs/Tree/Tiles.lean

No byte of a text is lost in its tree, and none is there twice.

The leaves of a tree tile a text if each starts where the one before has ended
and all of them are cut between characters.  Nothing that a parse makes goes
behind the end of the text (`Even`).  Below four gigabytes a token that starts
at a place to cut also ends at one, and so does all that recovery makes of
tokens.  So the leaves of a fresh parse tile the text up to the end token,
however the parse comes to its end: `covers_of_parse`.
-/
import Reparse.Proofs.Header.Automaton
import Reparse.Proofs.Lexeme.Cut
import Reparse.Proofs.Tree.Grown

namespace Reparse

namespace Subtree

/-! ### Leaves -/

mutual

/-- The subtrees without children, each with the position of its padding. -/
def leavesAt (start : Nat) : Subtree → List (Subtree × Nat)
  | mk head children =>
    if children.isEmpty then [(mk head children, start)] else leavesAmong start children

/-- The same of a row of subtrees. -/
def leavesAmong (start : Nat) : List Subtree → List (Subtree × Nat)
  | [] => []
  | tree :: rest => leavesAt start tree ++ leavesAmong (start + tree.totalSize) rest

end

/-- A row of leaves that lie behind one another and are cut between characters. -/
def Tiles (text : Text) : Nat → List (Subtree × Nat) → Nat → Prop
  | start, [], stop => start = stop
  | start, (leaf, place) :: rest, stop =>
    place = start ∧ text.Cut place ∧ text.Cut (place + leaf.padding) ∧
      text.Cut (place + leaf.totalSize) ∧ Tiles text (place + leaf.totalSize) rest stop

variable {language : Language} {text : Text} {start stop : Nat}

theorem Tiles.append {middle : Nat} {leaves more : List (Subtree × Nat)}
    (h : Tiles text start leaves middle) (hm : Tiles text middle more stop) :
    Tiles text start (leaves ++ more) stop := by
  induction leaves generalizing start with
  | nil =>
    obtain rfl : start = middle := h
    exact hm
  | cons leaf leaves ih =>
    obtain ⟨here, first, inner, last, rest⟩ := h
    exact ⟨here, first, inner, last, ih rest⟩

/-- A subtree as a parse makes it.  All that it depends on is there.  A leaf that starts at a place
to cut of a text below four gigabytes has its content and its end at such places too. -/
structure Even (language : Language) (text : Text) (start : Nat) (tree : Subtree) : Prop where
  intact : Intact language tree
  cut : text.size < UInt32.size → tree.children = [] → text.Cut start →
    text.Cut (start + tree.padding) ∧ text.Cut (start + tree.totalSize)
  reach : start ≤ text.size → start + tree.totalSize + tree.lookahead ≤ text.size
  /-- No more has to be looked at to skip a character. -/
  plain : tree.isErrorToken = true → tree.lookahead = 0

mutual

/-- **The leaves of even subtrees tile their text.** -/
theorem tiles_leavesAt (small : text.size < UInt32.size) (start : Nat) (tree : Subtree)
    (h : Everywhere (Even language text) start tree) (cut : text.Cut start) :
    text.Cut (start + tree.totalSize) ∧
      Tiles text start (leavesAt start tree) (start + tree.totalSize) := by
  obtain ⟨head, children⟩ := tree
  obtain ⟨even, below⟩ := everywhere_iff.mp h
  rcases e : children with - | ⟨first, rest⟩
  · obtain ⟨inner, last⟩ := even.cut small e cut
    rw [e] at inner last
    exact ⟨last, rfl, cut, inner, last, rfl⟩
  · have span := even.intact.measured.span (by rw [show (mk head children).children = _ from e]; simp)
    obtain ⟨last, tiles⟩ := tiles_leavesAmong small start children below cut
    rw [show (mk head children).children = children from rfl] at span
    rw [← e, span]
    refine ⟨last, ?_⟩
    rw [leavesAt, if_neg (by simp [e])]
    exact tiles

theorem tiles_leavesAmong (small : text.size < UInt32.size) (start : Nat) (trees : List Subtree)
    (h : EverywhereAmong (Even language text) start trees) (cut : text.Cut start) :
    text.Cut (start + totalSizes trees) ∧
      Tiles text start (leavesAmong start trees) (start + totalSizes trees) := by
  cases trees with
  | nil => exact ⟨cut, rfl⟩
  | cons tree rest =>
    obtain ⟨middle, front⟩ := tiles_leavesAt small start tree h.1 cut
    obtain ⟨last, back⟩ := tiles_leavesAmong small (start + tree.totalSize) rest h.2 middle
    rw [totalSizes, ← Nat.add_assoc]
    exact ⟨last, front.append back⟩

end

/-! ### Even subtrees -/

/-- A row of even subtrees depends on no more text than there is. -/
theorem reach_le_of_even {trees : List Subtree} (h : EverywhereAmong (Even language text) start trees)
    (inside : start ≤ text.size) : start + reach trees ≤ text.size := by
  induction trees generalizing start with
  | nil => exact inside
  | cons tree rest ih =>
    have first := (everywhere_iff.mp h.1).1.reach inside
    have behind := ih h.2 (by omega)
    rw [reach]
    omega

/-- A node of even subtrees is even. -/
theorem even_of_children {tree : Subtree} (intact : Intact language tree)
    (atom : tree.marks.token = false) (depends : tree.totalSize + tree.lookahead = reach tree.children)
    (within : start ≤ text.size → start + reach tree.children ≤ text.size) :
    Even language text start tree where
  intact := intact
  cut _ leaf cut := by
    have none : tree.totalSize = 0 := by rw [intact.span atom, leaf]; rfl
    have padding : tree.padding = 0 := Nat.eq_zero_of_add_eq_zero_right none
    rw [none, padding]
    exact ⟨cut, cut⟩
  reach inside := by
    rw [Nat.add_assoc, depends]
    exact within inside
  plain error := by
    rw [(isErrorToken_iff.mp error).2] at atom
    cases atom

theorem totalSize_add_lookahead_node (symbol : Symbol) (children : List Subtree) (state : StateId) :
    (node language symbol children state).totalSize +
      (node language symbol children state).lookahead = reach children := by
  rw [totalSize_node, lookahead_node]
  exact Nat.add_sub_of_le (totalSizes_le_reach children)

theorem even_node (symbol : Symbol) {children : List Subtree}
    (within : start ≤ text.size → start + reach children ≤ text.size) (state : StateId) :
    Even language text start (node language symbol children state) := by
  apply even_of_children (intact_node ..)
  · rw [marks_node]
    rfl
  · exact totalSize_add_lookahead_node ..
  · exact within

theorem even_token {symbol : Symbol} {padding size lookahead : Nat} {state : StateId}
    (cut : text.size < UInt32.size → text.Cut start →
      text.Cut (start + padding) ∧ text.Cut (start + (padding + size)))
    (within : start ≤ text.size → start + padding + size + lookahead ≤ text.size)
    (plain : symbol = errorSymbol → lookahead = 0) :
    Even language text start (token language symbol padding size lookahead state) where
  intact := intact_token ..
  cut small _ here := cut small here
  reach inside := by
    rw [totalSize_token, ← Nat.add_assoc]
    exact within inside
  plain error := plain (isErrorToken_iff.mp error).1

/-- The end token where it is put in. -/
theorem even_stop (state : StateId) :
    Even language text start (token language endSymbol 0 0 0 state) :=
  even_token (fun _ cut => ⟨cut, cut⟩) (fun inside => inside) fun _ => rfl

theorem even_lookahead (consistent : language.Consistent) (text : Text) (position : Nat)
    (state : StateId) :
    Even language text position (language.lookahead text position state).token := by
  have read := language.tokenAt_lookahead text position state
  generalize (language.lookahead text position state).token = token at read ⊢
  cases read with
  | lexeme _ found =>
    apply even_token
    · intro small cut
      exact Language.cut_lexeme? cut (Nat.lt_add_left position small) found
    · intro inside
      exact Language.lexeme?_within inside found
    · intro error
      have terminal := consistent.isTerminal_of_lexeme? found
      rw [error, consistent.isTerminal_errorSymbol] at terminal
      cases terminal
  | @character c rest here =>
    have behind : text.Cut (position + (0 + c.utf8Size)) := by
      rw [Nat.zero_add, Text.Cut, Text.drop?_cons here]
      rfl
    refine even_token (fun _ cut => ⟨cut, behind⟩) (fun _ => ?_) fun _ => rfl
    rw [Nat.add_zero, Nat.add_assoc]
    exact behind.le
  | stop => exact even_stop state

theorem recoveryKeeps_even (consistent : language.Consistent) :
    RecoveryKeeps language (Even language text) where
  intact h := h.intact
  missing repair _ := even_of_children (intact_missing (consistent.repairs repair).2.2 _) rfl rfl
    fun inside => inside
  wrapped {_ _ _} _ {_ token} h := by
    apply even_node
    intro inside
    have own := h.reach inside
    rw [reach, reach]
    omega
  skipped {_ children} row state := by
    apply even_of_children (intact_errorNode ..)
    · rw [marks_errorNode]
      rfl
    · exact totalSize_add_lookahead_node errorSymbol children state
    · exact reach_le_of_even row
  joined {start first} h error {second} behind error' lookahead which := by
    have atom := (isErrorToken_iff.mp error).2
    have plain : lookahead = 0 := by
      rcases which with rfl | rfl
      · exact h.plain error
      · exact behind.plain error'
    have wide : start + (first.padding + (first.size + second.totalSize)) =
        start + first.totalSize + second.totalSize := by
      rw [Subtree.totalSize.eq_def first]
      omega
    exact
      { intact := h.intact.extended atom _ _
        cut := fun small _ cut => by
          obtain ⟨inner, middle⟩ := h.cut small (h.intact.atom atom) cut
          have leaf := behind.intact.atom (isErrorToken_iff.mp error').2
          have last := (behind.cut small leaf middle).2
          rw [← wide] at last
          exact ⟨inner, last⟩
        reach := fun inside => by
          have first := h.reach inside
          have both := behind.reach (by omega)
          rw [← wide] at both
          rw [plain]
          exact Nat.le_of_add_right_le both
        plain := fun _ => plain }

end Subtree

open Subtree

/-! ### The end of the text -/

variable {language : Language} {text : Text}

/-- The end token of a parse ends at the end of the text. -/
theorem Language.EndsText.lookahead (h : language.EndsText text) {position : Nat}
    (cut : text.Cut position) {state : StateId}
    (last : (language.lookahead text position state).token.symbol = endSymbol) :
    position + (language.lookahead text position state).token.totalSize = text.size := by
  have read := language.tokenAt_lookahead text position state
  generalize (language.lookahead text position state).token = token at read last ⊢
  cases read with
  | lexeme _ found =>
    rw [totalSize_token, ← Nat.add_assoc]
    exact h _ _ _ cut found last
  | character => cases last
  | stop none =>
    obtain ⟨rest, here⟩ := Option.isSome_iff_exists.mp cut
    cases rest with
    | nil =>
      obtain ⟨before, rfl, rfl⟩ := Text.drop?_eq_some_iff.mp here
      rw [List.append_nil]
      rfl
    | cons c more => exact absurd here (none c more)

/-! ### Steps -/

section Runs

variable {setting : Setting} {run : Run} (consistent : setting.language.Consistent)

/-- What is on the stack of a run ends at a place to cut. -/
theorem cut_of_even (small : setting.text.size < UInt32.size)
    (h : HoldsOnStack (Even setting.language setting.text) setting run) :
    setting.text.Cut run.position := by
  have cut := (tiles_leavesAmong small 0 _ h.row (Text.cut_zero _)).1
  rwa [Nat.zero_add, h.width] at cut

/-- What is on the stack of a run does not go behind the end of the text. -/
theorem position_le_of_even (h : HoldsOnStack (Even setting.language setting.text) setting run) :
    run.position ≤ setting.text.size := by
  have within := reach_le_of_even h.row (Nat.zero_le _)
  have widths := totalSizes_le_reach run.stack.subtrees
  rw [h.width] at widths
  omega

/-- If the token in front of a run is the end, then it goes to the end of the text. -/
theorem position_add_of_end (small : setting.text.size < UInt32.size)
    (ends : setting.language.EndsText setting.text)
    (h : HoldsOnStack (Even setting.language setting.text) setting run)
    (last : (run.current setting).token.symbol = endSymbol) :
    run.position + (run.current setting).token.totalSize = setting.text.size := by
  obtain ⟨state, read, -⟩ := h.reads.current
  rw [read] at last ⊢
  exact ends.lookahead (cut_of_even small h) last

include consistent in
/-- The token in front of a run is even. -/
theorem HoldsOnStack.even_current
    (h : HoldsOnStack (Even setting.language setting.text) setting run) :
    Even setting.language setting.text run.position (run.current setting).token := by
  obtain ⟨state, read, -⟩ := h.reads.current
  rw [read]
  exact even_lookahead consistent ..

include consistent in
/-- **A step keeps everything on the stack even.** -/
theorem even_turn (h : HoldsOnStack (Even setting.language setting.text) setting run) {next : Run}
    (running : run.turn setting = .running next) :
    HoldsOnStack (Even setting.language setting.text) setting next := by
  obtain ⟨state, read, -⟩ := h.reads.current
  have token := h.even_current consistent
  refine h.make (recoveryKeeps_even consistent) (Run.choice_moveOn setting run _) read token ?_
    running
  intro symbol _ children rest _ _ taken _ row
  have made : Even setting.language setting.text (totalSizes rest.subtrees)
      (node setting.language symbol children rest.top) :=
    even_node symbol (reach_le_of_even row) rest.top
  refine ⟨made.intact.needing _, made.cut, fun here => ?_, fun error => ?_⟩
  · -- the token in front lies behind the node and the extras on top
    have own := made.reach here
    have front := token.reach (position_le_of_even h)
    have split := congrArg totalSizes (subtrees_of_takeOff taken)
    rw [h.width, totalSizes_append, totalSizes_append] at split
    rw [totalSize_needing, lookahead_needing]
    rw [totalSize_node] at own ⊢
    simp only [Stack.needed]
    omega
  · have atom := (isErrorToken_iff.mp error).2
    rw [marks_needing, marks_node] at atom
    cases atom

/-! ### Results -/

/-- What stands behind the stack when a parse gives up goes to the end of the text. -/
theorem totalSizes_tail (small : setting.text.size < UInt32.size) {token : Subtree}
    (within : run.position + token.totalSize ≤ setting.text.size)
    (last : token.symbol = endSymbol → run.position + token.totalSize = setting.text.size) :
    run.position + totalSizes (run.tail setting token) = setting.text.size := by
  simp only [Run.tail, Span.lowBits_of_lt small]
  split
  · rename_i stop
    have := last stop
    simpa [totalSizes] using this
  · have parts : token.totalSize = token.padding + token.size := rfl
    split
    · simp only [totalSizes, totalSize_extended, totalSize_token]
      omega
    · split
      · simp only [totalSizes, totalSize_token]
        omega
      · simp only [totalSizes, totalSize_token]
        omega

/-- A root as a fresh parse makes it.  All below it is even.  It is as long as a text below four
gigabytes in which the lexer finds the end token at the end only. -/
structure EvenRoot (language : Language) (text : Text) (root : Subtree) : Prop where
  even : Everywhere (Even language text) 0 root
  size : text.size < UInt32.size → language.EndsText text → root.totalSize = text.size

section Results

variable (h : HoldsOnStack (Even setting.language setting.text) setting run)
include consistent h

theorem evenRoot_giveUp :
    EvenRoot setting.language setting.text (run.giveUp setting (run.current setting).token) := by
  have even := h.even_current consistent
  have within := even.reach (position_le_of_even h)
  have remains : Even setting.language setting.text
      (run.position + (run.current setting).token.totalSize)
      (Subtree.token setting.language errorSymbol 0 (Span.lowBits setting.text.size -
        (run.position + (run.current setting).token.totalSize)) 0 errorState) := by
    have low := Span.lowBits_le setting.text.size
    refine even_token (fun small cut => ⟨cut, ?_⟩) (fun inside => by omega) fun _ => rfl
    rw [Span.lowBits_of_lt small, Nat.zero_add, Nat.add_sub_of_le cut.le]
    exact Text.cut_size _
  have below := everywhereAmong_giveUp h (recoveryKeeps_even consistent) even h.reads.leaf
    (fun _ => even_stop _) remains
  refine ⟨everywhere_iff.mpr ⟨?_, below⟩, fun small ends => ?_⟩
  · rw [giveUp_eq] at below ⊢
    exact even_node _ (reach_le_of_even below) _
  · rw [giveUp_eq, totalSize_node, totalSizes_append, h.width]
    exact totalSizes_tail small (Nat.le_of_add_right_le within) (position_add_of_end small ends h)

theorem evenRoot_accept (complete : (run.current setting).token.symbol = endSymbol) :
    EvenRoot setting.language setting.text (run.accept setting (run.current setting).token) := by
  rcases below : run.stack.belowExtras with - | ⟨entry, rest⟩
  · -- there is nothing to accept
    rw [Run.accept, below]
    exact evenRoot_giveUp consistent h
  · have mem : entry ∈ run.stack := by
      rw [← run.stack.extras_append_belowExtras, below]
      simp
    obtain ⟨_, top⟩ := h.entry mem
    have row := everywhereAmong_accept h (recoveryKeeps_even consistent)
      (h.even_current consistent) h.reads.leaf below
    refine ⟨everywhere_iff.mpr ⟨?_, row⟩, fun small ends => ?_⟩
    · rw [accept_eq below] at row ⊢
      exact even_node _ (reach_le_of_even row) _
    · rw [totalSize_accept below (everywhere_iff.mp top).1.intact, h.width]
      exact position_add_of_end small ends h complete

/-- **However a step ends a parse**, its root is even and as long as the text. -/
theorem evenRoot_finished {root : Subtree} {reused : Nat}
    (finished : run.turn setting = .finished root reused) :
    EvenRoot setting.language setting.text root := by
  rcases Run.root_of_turn finished with ⟨-, complete, rfl⟩ | rfl
  · exact evenRoot_accept consistent h complete
  · exact evenRoot_giveUp consistent h

end Results

end Runs

/-! ### Whole parses -/

/-- The leaves of a tree tile a text, which ends where the tree does. -/
def Tree.Covers (tree : Tree) (text : Text) : Prop :=
  Tiles text 0 (tree.root.leavesAt 0) text.size ∧ tree.rootNode.endByte = text.size

theorem EvenRoot.covers {root : Subtree} (h : EvenRoot language text root)
    (small : text.size < UInt32.size) (ends : language.EndsText text) :
    (Tree.mk root language).Covers text := by
  have size := h.size small ends
  have tiles := (tiles_leavesAt small 0 root h.even (Text.cut_zero text)).2
  rw [Nat.zero_add, size] at tiles
  exact ⟨tiles, (Nat.zero_add _).trans size⟩

theorem endsText_header (small : text.size < UInt32.size) : Header.language.EndsText text :=
  Language.endsText_of_tables (by decide) (by decide) small

theorem endsText_word (small : text.size < UInt32.size) : Word.language.EndsText text :=
  Language.endsText_of_tables (by decide) (by decide) small

/-- **However a fresh parse ends**, its root is even and as long as the text. -/
theorem evenRoot_parse {setting : Setting} (fresh : setting.old = none)
    (consistent : setting.language.Consistent) :
    (∀ steps root reused, Progress.advance setting steps (.running {}) = .finished root reused →
      EvenRoot setting.language setting.text root) ∧
    EvenRoot setting.language setting.text setting.parse.1 := by
  apply Run.fresh_parse fresh (I := HoldsOnStack (Even setting.language setting.text) setting)
  · exact holdsOnStack_start
  · intro run next h running
    exact even_turn consistent h running
  · intro run root reused h finished
    exact evenRoot_finished consistent h finished
  · intro run h
    exact evenRoot_giveUp consistent h

/-- **No byte is lost or duplicated** of a text below four gigabytes.  If the lexer of a loaded
language finds the end token at the end of the text only, as those of the header and the word
grammar always do, then the leaves of each fresh parse tile the text, however it has come to its
end. -/
theorem covers_of_parse (config : Config) (text : Text) (small : text.size < UInt32.size) :
    (Header.language.EndsText text ∧ Word.language.EndsText text) ∧
    ∀ (table : Table) (origin : Nat) (language : Language),
      table.load origin = .ok language → language.EndsText text →
      (∀ steps root reused, Progress.advance (config.setting language text none) steps
        (.running {}) = .finished root reused → (Tree.mk root language).Covers text) ∧
      (language.parse config text none).1.Covers text := by
  refine ⟨⟨endsText_header small, endsText_word small⟩, fun table origin language loaded ends => ?_⟩
  obtain ⟨finished, parsed⟩ := @evenRoot_parse (config.setting language text none)
    (config.setting_old language text) (Table.consistent_of_load loaded)
  refine ⟨fun steps root reused done => (finished steps root reused done).covers small ends, ?_⟩
  rw [Language.parse_fst]
  exact parsed.covers small ends

/-- A letter between blanks, with another one behind it that does not fit. -/
theorem covers_of_parse_letters :
    Text.size " a a".toList < UInt32.size ∧ Word.language.EndsText " a a".toList ∧
      (Word.language.parse {} " a a".toList none).1.Covers " a a".toList := by
  have small : Text.size " a a".toList < UInt32.size := by decide
  have ends := endsText_word small
  exact ⟨small, ends,
    ((covers_of_parse {} " a a".toList small).2 _ 0 Word.language Word.load_encode ends).2⟩

end Reparse
