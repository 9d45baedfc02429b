/-
Reparse/Proofs/Tree/Gaps.lean

What a parse puts in without width.

A parse remembers the state and the position of each error production that it
puts in, and puts in none where it has done so before.  What it has put in
moves into other nodes later on, but no move changes the place where it stands
in the text, and what comes from an old tree has nothing put in.  So the gaps
of the stack, read off in text order, are exactly what the parse remembers
(`Filled`).  The root has no others; one may get lost where the root takes in
what stood on top.

Main result: `Language.mended_parse`.
-/
import Reparse.Proofs.Header.Table
import Reparse.Proofs.Subtree.Places
import Reparse.Proofs.Tree.Unmarked

namespace Reparse

namespace Subtree

variable {language : Language} {start : Nat} {tree : Subtree}

/-! ### Gaps of a row -/

/-- The states and places at which something was put into a row of subtrees, in text order. -/
def gaps (start : Nat) (trees : List Subtree) : List (StateId × Nat) :=
  ((placesAmong start trees).filter (·.2.marks.missing)).map fun place =>
    (place.2.parseState, place.1)

theorem gaps_append (start : Nat) (xs ys : List Subtree) :
    gaps start (xs ++ ys) = gaps start xs ++ gaps (start + totalSizes xs) ys := by
  rw [gaps, placesAmong_append, List.filter_append, List.map_append]
  rfl

theorem gaps_cons (start : Nat) (tree : Subtree) (rest : List Subtree) :
    gaps start (tree :: rest) = gaps start [tree] ++ gaps (start + tree.totalSize) rest :=
  gaps_append start [tree] rest

/-- A node has the gaps of its children, and is one itself if it was put in. -/
theorem gaps_singleton (start : Nat) (tree : Subtree) : gaps start [tree] =
    if tree.marks.missing then (tree.parseState, start) :: gaps start tree.children
      else gaps start tree.children := by
  rw [gaps, placesAmong_singleton, places_eq, List.filter_cons]
  split <;> rfl

theorem gaps_of_proper (start : Nat) (proper : tree.marks.missing = false) :
    gaps start [tree] = gaps start tree.children := by
  rw [gaps_singleton, proper, if_neg Bool.false_ne_true]

theorem gaps_node (start : Nat) (symbol : Symbol) (children : List Subtree) (state : StateId) :
    gaps start [node language symbol children state] = gaps start children :=
  gaps_of_proper start (by simp [marks_node, symbolMarks])

theorem gaps_errorNode (start : Nat) (children : List Subtree) (state : StateId) :
    gaps start [errorNode language children state] = gaps start children :=
  gaps_of_proper start (by simp [marks_errorNode, symbolMarks])

theorem gaps_token (start : Nat) (symbol : Symbol) (padding size lookahead : Nat)
    (state : StateId) : gaps start [token language symbol padding size lookahead state] = [] :=
  gaps_of_proper start rfl

theorem gaps_missing (start : Nat) (symbol : Symbol) (state : StateId) :
    gaps start [missing language symbol state] = [(state, start)] :=
  gaps_singleton start (missing language symbol state)

/-- Neither the extent of a node nor what it depends on is asked for. -/
theorem gaps_extended (start : Nat) (tree : Subtree) (size lookahead : Nat) :
    gaps start [tree.extended size lookahead] = gaps start [tree] := by
  rw [gaps_singleton, gaps_singleton]
  rfl

theorem gaps_needing (start : Nat) (tree : Subtree) (needed : Nat) :
    gaps start [tree.needing needed] = gaps start [tree] := by
  rw [gaps_singleton, gaps_singleton]
  rfl

/-- There are no gaps in what is clean. -/
theorem gaps_of_clean (start : Nat) (clean : Throughout Clean tree) : gaps start [tree] = [] := by
  rw [gaps, List.map_eq_nil_iff, List.filter_eq_nil_iff]
  have proper : EverywhereAmong (fun _ node => ¬ node.marks.missing = true) start [tree] := by
    rw [everywhereAmong_singleton, everywhere_const]
    refine clean.mono fun _ _ node missing => ?_
    rw [node.missing] at missing
    cases missing
  exact forall_placesAmong_iff.mpr proper

/-- What a root takes in of a node has the same gaps, apart from the node itself. -/
theorem sublist_gaps_middle (start : Nat) (tree : Subtree) :
    (gaps start (if tree.marks.token then [tree] else tree.children)).Sublist
      (gaps start [tree]) := by
  split
  · exact .refl _
  · rw [gaps_singleton]
    split
    · exact List.sublist_cons_self _ _
    · exact .refl _

/-! ### Skipped input -/

section Skipped

variable {token : Subtree} (whole : ∀ start, gaps start [token] = [])
include whole

theorem gaps_addSkipped (start : Nat) (children : List Subtree) :
    gaps start (Stack.addSkipped children token) = gaps start children := by
  fun_induction Stack.addSkipped children token generalizing start with
  | case1 => exact whole start
  | case2 token last => rw [joinErrorTokens_eq, gaps_extended]
  | case3 token last => rw [gaps_cons, whole, List.append_nil]
  | case4 token first second rest ih => rw [gaps_cons, ih whole, ← gaps_cons]

/-- Skipped input that takes in more of it was not put in, and keeps its gaps. -/
theorem gaps_mergeErrors (start : Nat) {previous : Subtree} (sound : Sound language previous)
    (extra : previous.marks.extra = true) (state : StateId) :
    gaps start [Stack.mergeErrors language previous token state] = gaps start [previous] := by
  have proper : previous.marks.missing ≠ true := fun missing => by
    have := (sound.plain missing).1
    rw [extra] at this
    cases this
  simp only [Stack.mergeErrors]
  split
  · rw [joinErrorTokens_eq, gaps_extended]
  · rw [gaps_errorNode, gaps_addSkipped whole]
    split
    · rfl
    · rw [gaps_of_proper start (eq_false_of_ne_true proper)]

/-- What is skipped leaves the gaps of a stack as they are. -/
theorem gaps_skip {stack : Stack} (sound : ∀ entry ∈ stack, Sound language entry.subtree) :
    gaps 0 (stack.skip language token).subtrees = gaps 0 stack.subtrees := by
  have alone (start : Nat) (state : StateId) : gaps start
      [if token.isErrorToken then token else errorNode language [token] state] = [] := by
    split
    · exact whole start
    · rw [gaps_errorNode, whole]
  cases stack with
  | nil => exact alone 0 _
  | cons entry rest =>
    simp only [Stack.skip]
    split
    · rename_i error
      simp only [Bool.and_eq_true] at error
      have top := sound entry List.mem_cons_self
      rw [Stack.subtrees_cons, Stack.subtrees_cons, gaps_append, gaps_append,
        gaps_mergeErrors whole _ top error.2]
    · rw [Stack.subtrees_cons, gaps_append, alone, List.append_nil]

end Skipped

/-! ### Reductions -/

/-- A reduction leaves the gaps of a stack as they are. -/
theorem gaps_reduce? {stack reduced : Stack} {symbol : Symbol} {count : UInt8} {token : Subtree}
    (h : stack.reduce? language symbol count token = some reduced) :
    gaps 0 reduced.subtrees = gaps 0 stack.subtrees := by
  obtain ⟨children, rest, target, taken, -, rfl⟩ := Stack.reduce?_eq_some_iff.mp h
  rw [subtrees_of_takeOff taken, Stack.subtrees_append, Stack.subtrees_cons,
    Stack.subtrees_moved, gaps_append, gaps_append, gaps_append, gaps_append, gaps_needing,
    gaps_node]
  simp only [totalSizes_append, totalSizes, totalSize_needing, totalSize_node, Nat.add_zero]

end Subtree

open Subtree

/-! ### Runs -/

namespace Run

variable {setting : Setting} {run : Run}

/-- Whether a run remembers just what was put into its stack. -/
structure Filled (run : Run) : Prop where
  width : totalSizes run.stack.subtrees = run.position
  gaps : gaps 0 run.stack.subtrees = run.inserted.reverse
  once : run.inserted.Nodup

theorem filled_start : Filled {} := ⟨rfl, rfl, .nil⟩

/-- No gap is twice on the stack. -/
theorem Filled.nodup (h : run.Filled) : (Subtree.gaps 0 run.stack.subtrees).Nodup := by
  rw [h.gaps]
  exact List.pairwise_reverse.mpr (h.once.imp Ne.symm)

/-- A subtree more on top keeps it so, if nothing was put into it. -/
theorem Filled.push (h : run.Filled) {next : Run} {target : StateId} {tree : Subtree}
    (stack : next.stack = ⟨target, tree⟩ :: run.stack)
    (position : next.position = run.position + tree.totalSize)
    (inserted : next.inserted = run.inserted) (whole : ∀ start, Subtree.gaps start [tree] = []) :
    next.Filled where
  width := by
    rw [stack, position, Stack.subtrees_cons, totalSizes_append, h.width]
    rfl
  gaps := by rw [stack, inserted, Stack.subtrees_cons, gaps_append, whole, List.append_nil, h.gaps]
  once := inserted ▸ h.once

/-- The token in front of a run has no gaps. -/
theorem Secure.gaps_current (h : run.Secure setting) (consistent : setting.language.Consistent)
    (start : Nat) : Subtree.gaps start [(run.current setting).token] = [] := by
  obtain ⟨state, -, read⟩ := h.current consistent
  obtain ⟨symbol, padding, size, lookahead, e⟩ :=
    lookahead_token setting.language setting.text run.position state
  rw [read, e]
  exact gaps_token start ..

/-- A root that a run gives up with has the gaps of the stack. -/
theorem Secure.gaps_giveUp (secure : run.Secure setting)
    (consistent : setting.language.Consistent) :
    Subtree.gaps 0 [run.giveUp setting (run.current setting).token] =
      Subtree.gaps 0 run.stack.subtrees := by
  have whole := secure.gaps_current consistent
  generalize (run.current setting).token = token at whole
  have stop (start : Nat) :
      Subtree.gaps start [Subtree.token setting.language endSymbol 0 0 0 errorState] = [] :=
    gaps_token start ..
  have tail (start : Nat) : Subtree.gaps start (run.tail setting token) = [] := by
    simp only [Run.tail]
    split
    · exact whole start
    · split
      · rw [gaps_cons, gaps_extended, whole, stop, List.append_nil]
      · split
        · rw [gaps_cons, gaps_cons _ (Subtree.token ..), whole, gaps_token, stop, List.append_nil]
          rfl
        · rw [gaps_cons, whole, stop, List.append_nil]
  rw [giveUp_eq, gaps_node, gaps_append, tail, List.append_nil]

section Step

variable (consistent : setting.language.Consistent) (secure : run.Secure setting)
  (sound : ∀ tree ∈ run.stack.subtrees, Throughout (Sound setting.language) tree)
include consistent secure sound

/-- **A step on the current token** keeps in mind what it puts in. -/
theorem Filled.turn (h : run.Filled) {next : Run} (running : run.turn setting = .running next) :
    next.Filled := by
  obtain ⟨move, choice, running⟩ := exists_choice running
  have whole := secure.gaps_current consistent
  generalize run.current setting = lookahead at choice whole
  cases choice with
  | shift =>
    cases running
    exact h.push rfl rfl rfl whole
  | reduce _ reduced | reduceByDefault _ _ reduced =>
    cases running
    exact ⟨(totalSizes_reduce? reduced).trans h.width, (gaps_reduce? reduced).trans h.gaps, h.once⟩
  | @insert symbol target _ repair _ first =>
    cases running
    refine ⟨?_, ?_, List.nodup_cons.mpr ⟨first, h.once⟩⟩
    · rw [Stack.subtrees_cons, totalSizes_append, h.width]
      rfl
    · -- the new gap is the last one, at the end of all that is on the stack
      rw [Stack.subtrees_cons, gaps_append, h.gaps, h.width, List.reverse_cons,
        gaps_missing, Nat.zero_add]
  | @wrap symbol =>
    cases running
    refine h.push rfl rfl rfl fun start => ?_
    rw [gaps_node, whole]
  | skip =>
    cases running
    have entries : ∀ entry ∈ run.stack, Sound setting.language entry.subtree :=
      fun _ within => Stack.entry_of_throughout sound within
    refine ⟨?_, (gaps_skip whole entries).trans h.gaps, h.once⟩
    rw [totalSizes_skip fun entry within => (entries entry within).toIntact, h.width]
  | accept | giveUp => cases running

/-- **Every step** does so: what comes from an old tree has nothing put in. -/
theorem Filled.step (h : run.Filled)
    (pristine : ∀ root, setting.old = some root → Throughout (Pristine setting.language) root)
    {next : Run} (running : run.step setting = .running next) : next.Filled := by
  rcases running_cases running with ⟨subtree, target, -, found, rfl⟩ | turned
  · have clean : Throughout Clean subtree := throughout_clean_of_reusable? pristine found
    exact h.push rfl rfl rfl fun start => gaps_of_clean start clean
  · exact h.turn consistent secure sound turned

/-! ### Roots -/

/-- A root that a run accepts has no others. -/
theorem sublist_gaps_accept :
    (Subtree.gaps 0 [run.accept setting (run.current setting).token]).Sublist
      (Subtree.gaps 0 run.stack.subtrees) := by
  rcases below : run.stack.belowExtras with - | ⟨entry, rest⟩
  · -- there is nothing to accept, so the run gives up after all
    simp only [Run.accept, below, secure.gaps_giveUp consistent, List.Sublist.refl]
  · have parts : run.stack.subtrees =
        Stack.subtrees rest ++ [entry.subtree] ++ run.stack.extras.subtrees := by
      conv => lhs; rw [← run.stack.extras_append_belowExtras, below]
      rw [Stack.subtrees_append, Stack.subtrees_cons]
    have top : Sound setting.language entry.subtree := by
      refine (sound entry.subtree ?_).self
      rw [parts]
      simp
    have width := totalSizes_middle top.toIntact
    have middle := sublist_gaps_middle (0 + totalSizes (Stack.subtrees rest)) entry.subtree
    rw [accept_eq below, gaps_node, parts, gaps_append, secure.gaps_current consistent,
      List.append_nil, gaps_append, gaps_append, gaps_append, gaps_append, totalSizes_append,
      totalSizes_append, width]
    exact ((List.Sublist.refl _).append middle).append (.refl _)

/-- **No root has a gap twice.** -/
theorem Filled.nodup_finished (h : run.Filled) {root : Subtree} {reused : Nat}
    (finished : run.step setting = .finished root reused) : (Subtree.gaps 0 [root]).Nodup := by
  rcases root_of_finished finished with rfl | rfl
  · exact (sublist_gaps_accept consistent secure sound).nodup h.nodup
  · rw [secure.gaps_giveUp consistent]
    exact h.nodup

end Step

end Run

/-! ### Any history -/

/-- Whether all that was put into a tree comes from error productions and covers nothing, and no
two of it were put in where the parse was in one state at one place. -/
structure Subtree.Mended (root : Subtree) : Prop where
  empty : Throughout (fun node => node.marks.missing = true → node.children = [] ∧
    node.padding = 0 ∧ node.size = 0 ∧ node.marks.recovery = true) root
  once : (root.places 0).Pairwise fun a b => a.2.marks.missing = true →
    b.2.marks.missing = true → (a.2.parseState, a.1) ≠ (b.2.parseState, b.1)

/-- A sound tree is mended if no gap is in it twice. -/
theorem Subtree.mended_of_nodup {language : Language} {root : Subtree}
    (sound : Throughout (Sound language) root) (once : (gaps 0 [root]).Nodup) : root.Mended where
  empty := by
    refine sound.mono fun _ _ node missing => ?_
    obtain ⟨leaf, padding, size⟩ := node.empty missing
    exact ⟨leaf, padding, size, node.missing missing⟩
  once := by
    rw [gaps, placesAmong_singleton, List.Nodup, List.pairwise_map, List.pairwise_filter] at once
    exact once

/-- **Each root that a parse comes to is mended**, whatever pristine tree it starts from. -/
theorem Setting.mended_roots {setting : Setting} (consistent : setting.language.Consistent)
    (known : ∀ root, setting.old = some root → Throughout (Known setting.language) root)
    (pristine : ∀ root, setting.old = some root → Throughout (Pristine setting.language) root) :
    (∀ steps root reused, Progress.advance setting steps (.running {}) = .finished root reused →
      root.Mended) ∧ setting.parse.1.Mended := by
  have closed := closed_sound setting.language
  refine Run.every_parse
    (I := fun run => run.Secure setting ∧
      (∀ tree ∈ run.stack.subtrees, Throughout (Sound setting.language) tree) ∧ run.Filled)
    ⟨Run.secure_start, fun _ none => (by cases none), Run.filled_start⟩ ?_ ?_ ?_
  · rintro run next ⟨secure, sound, filled⟩ running
    exact ⟨secure.step consistent known running,
      secure.throughout_step closed consistent (offers_sound pristine) sound running,
      filled.step consistent secure sound pristine running⟩
  · rintro run root reused ⟨secure, sound, filled⟩ finished
    exact mended_of_nodup (secure.throughout_finished closed consistent sound finished)
      (filled.nodup_finished consistent secure sound finished)
  · rintro run ⟨secure, sound, filled⟩
    refine mended_of_nodup (closed.throughout_giveUp consistent sound
      (secure.closed_current consistent closed)) ?_
    rw [secure.gaps_giveUp consistent]
    exact filled.nodup

/-- **Nothing is put in twice at a place.**  Whatever parses and edits the old tree comes from: in
each root that a parse of a loaded language ends with, and in the tree that it gives, all that
was put in is an error production without children and without width, and no two such nodes,
wherever they stand, have the same parse state and the same position in the text. -/
theorem Language.mended_parse {table : Table} {origin : Nat} {language : Language}
    (loaded : table.load origin = .ok language) (config : Config) (text : Text)
    {old : Option Tree}
    (grown : ∀ tree, old = some tree → tree.language = language → tree.Grown language) :
    (∀ steps root reused, Progress.advance (config.setting language text old) steps (.running {}) =
        .finished root reused → root.Mended) ∧
    (language.parse config text old).1.root.Mended := by
  have consistent := Table.consistent_of_load loaded
  exact @Setting.mended_roots (config.setting language text old) consistent
    (config.known_old consistent text grown) (config.pristine_old consistent text grown)

namespace Header

/-- A header that has lost the newlines behind it. -/
@[irreducible] def clipped : Tree :=
  (language.parse {} "[DOCUMENT]\n\n\x00".toList none).1.edit (.replace 10 12 [])

/-- When it is parsed again, both newlines are put in behind the bracket that comes from it: at
one place, but in two states. -/
theorem mended_parse_clipped :
    clipped.Grown language ∧
    gaps 0 [(language.parse {} "[DOCUMENT]\x00".toList (some clipped)).1.root] =
      [(4, 10), (5, 10)] ∧
    (language.parse {} "[DOCUMENT]\x00".toList (some clipped)).1.root.Mended := by
  have grown : clipped.Grown language := by
    unfold clipped
    exact .edit _ _ (.parse _ _ none fun _ none => by cases none)
  have known : ∀ tree, some clipped = some tree → tree.language = language →
      tree.Grown language := by
    rintro tree ⟨⟩ -
    exact grown
  have reused : ({} : Config).reusableRoot? language (some clipped) = some clipped.root := by
    rw [← grown.same_language]
    exact Config.reusableRoot?_of_language rfl
  obtain ⟨-, mended⟩ := Language.mended_parse load_header {} "[DOCUMENT]\x00".toList known
  refine ⟨grown, ?_, mended⟩
  rw [Language.parse_fst, Config.setting, reused]
  decide +kernel

end Header

end Reparse
