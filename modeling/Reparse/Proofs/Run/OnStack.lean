/-
Reparse/Proofs/Run/OnStack.lean

What holds of every subtree of a parse.

`HoldsOnStack P` says of a run that `P` holds of all that is on its stack, at the
places where it stands in the text.  `RecoveryKeeps` says that `P` holds of what
recovery makes of subtrees with `P`.  Such a property goes on to hold as long as
it holds of the tokens that are read and of the nodes that reductions make:
`HoldsOnStack.make`.  In the end it holds below the root: `HoldsOnStack.gaveUp` and
`HoldsOnStack.finished`.
-/
import Reparse.Proofs.Run.Choice

namespace Reparse

open Subtree

/-! ### Tokens -/

theorem everywhere_leaf {P : Nat → Subtree → Prop} {start : Nat} {tree : Subtree}
    (h : tree.children = []) : Everywhere P start tree ↔ P start tree := by
  simp [everywhere_iff, h]

/-- What the token of a state at a position can be: what the lexer finds in the lex state, or
in that of the error state where there is nothing in the first one, or else a single character,
or the end of the text. -/
inductive Language.TokenAt (language : Language) (text : Text) (position : Nat) (state : StateId) :
    Subtree → Prop
  | lexeme {mode : StateId} {lexeme : Lexeme}
      (which : mode = state ∨ mode = errorState ∧
        language.lexeme? text position (language.lexMode state) = none)
      (found : language.lexeme? text position (language.lexMode mode) = some lexeme) :
      TokenAt language text position state
        (token language lexeme.symbol lexeme.padding lexeme.size lexeme.lookahead state)
  | character {c : Char} {rest : Text} (here : text.drop? position = some (c :: rest)) :
      TokenAt language text position state (token language errorSymbol 0 c.utf8Size 0 state)
  | stop (none : ∀ c rest, text.drop? position ≠ some (c :: rest)) :
      TokenAt language text position state (token language endSymbol 0 0 0 state)

theorem Language.tokenAt_lookahead (language : Language) (text : Text) (position : Nat)
    (state : StateId) :
    language.TokenAt text position state (language.lookahead text position state).token := by
  simp only [lookahead]
  split
  · rename_i lexeme found
    rcases Option.or_eq_some_iff.mp found with own | ⟨none, fallback⟩
    · exact .lexeme (.inl rfl) own
    · split at fallback
      · cases fallback
      · exact .lexeme (.inr ⟨rfl, none⟩) fallback
  · split
    · exact .character ‹_›
    · rename_i none
      exact .stop none

theorem lookahead_token (language : Language) (text : Text) (position : Nat) (state : StateId) :
    ∃ symbol padding size lookahead, (language.lookahead text position state).token =
      Subtree.token language symbol padding size lookahead state := by
  have read := language.tokenAt_lookahead text position state
  generalize (language.lookahead text position state).token = token at read ⊢
  cases read with
  | lexeme | character | stop => exact ⟨_, _, _, _, rfl⟩

theorem intact_lookahead (language : Language) (text : Text) (position : Nat) (state : StateId) :
    Intact language (language.lookahead text position state).token := by
  obtain ⟨symbol, padding, size, lookahead, h⟩ := lookahead_token language text position state
  rw [h]
  exact intact_token ..

theorem children_lookahead (language : Language) (text : Text) (position : Nat)
    (state : StateId) : (language.lookahead text position state).token.children = [] := by
  obtain ⟨symbol, padding, size, lookahead, h⟩ := lookahead_token language text position state
  rw [h]
  rfl

/-- The token in front of a run is a leaf. -/
theorem Run.Reads.leaf {setting : Setting} {run : Run} (reads : run.Reads setting) :
    (run.current setting).token.children = [] := by
  obtain ⟨state, read, -⟩ := reads.current
  rw [read]
  exact children_lookahead ..

/-! ### Properties that recovery keeps -/

theorem isErrorToken_iff {tree : Subtree} :
    tree.isErrorToken = true ↔ tree.symbol = errorSymbol ∧ tree.marks.token = true := by
  simp [isErrorToken]

/-- A property of subtrees at their places that holds of all that recovery
makes of subtrees with the property. -/
structure RecoveryKeeps (language : Language) (P : Nat → Subtree → Prop) : Prop where
  intact : ∀ {start tree}, P start tree → Intact language tree
  missing : ∀ {state symbol target}, (symbol, target) ∈ language.repairs state →
    ∀ start, P start (Subtree.missing language symbol state)
  wrapped : ∀ {state symbol target}, (symbol, target) ∈ language.repairs state →
    ∀ {start token}, P start token → P start (node language symbol [token] state)
  skipped : ∀ {start children}, EverywhereAmong P start children →
    ∀ state, P start (errorNode language children state)
  joined : ∀ {start first}, P start first → first.isErrorToken = true →
    ∀ {second}, P (start + first.totalSize) second → second.isErrorToken = true →
    ∀ lookahead, lookahead = first.lookahead ∨ lookahead = second.lookahead →
      P start (first.extended (first.size + second.totalSize) lookahead)

/-- A property holds of all subtrees on the stack of a run, each at its place. -/
structure HoldsOnStack (P : Nat → Subtree → Prop) (setting : Setting) (run : Run) : Prop where
  row : EverywhereAmong P 0 run.stack.subtrees
  width : totalSizes run.stack.subtrees = run.position
  reads : run.Reads setting

variable {P : Nat → Subtree → Prop} {setting : Setting} {run : Run}

theorem holdsOnStack_start : HoldsOnStack P setting {} where
  row := trivial
  width := rfl
  reads lookahead h := by simp at h

/-- The error productions of a language are marked as such and visible, so that
what they repair shows in the tree. -/
structure Language.ShowsRepairs (language : Language) : Prop where
  repairs : ∀ {state symbol target}, (symbol, target) ∈ language.repairs state →
    (symbolMarks language symbol).recovery = true
  visible : ∀ {symbol}, (symbolMarks language symbol).recovery = true →
    (symbolMarks language symbol).visible = true

theorem recoveryKeeps_intact {language : Language}
    (repairs : ∀ {state symbol target}, (symbol, target) ∈ language.repairs state →
      (symbolMarks language symbol).recovery = true) :
    RecoveryKeeps language fun _ tree => Intact language tree where
  intact h := h
  missing repair _ := intact_missing (repairs repair) _
  wrapped _ _ _ _ := intact_node ..
  skipped _ _ := intact_errorNode ..
  joined h error _ _ _ _ _ := h.extended (isErrorToken_iff.mp error).2 _ _

/-! ### Skipped input -/

theorem joinErrorTokens_eq (first second : Subtree) :
    Stack.joinErrorTokens first second =
      first.extended (first.size + second.totalSize) second.lookahead := rfl

theorem totalSize_extended (tree : Subtree) (size lookahead : Nat) :
    (tree.extended size lookahead).totalSize = tree.padding + size := rfl

@[simp] theorem totalSize_joinErrorTokens (first second : Subtree) :
    (Stack.joinErrorTokens first second).totalSize = first.totalSize + second.totalSize := by
  rw [joinErrorTokens_eq, totalSize_extended, Subtree.totalSize.eq_def first]
  omega

theorem totalSizes_addSkipped (children : List Subtree) (token : Subtree) :
    totalSizes (Stack.addSkipped children token) = totalSizes children + token.totalSize := by
  fun_induction Stack.addSkipped children token with
  | case1 => simp [totalSizes]
  | case2 last token joined => simp [totalSizes]
  | case3 last token joined => simp [totalSizes]
  | case4 token first second rest ih => simp [totalSizes] at ih ⊢; omega

theorem totalSize_errorNode (language : Language) (children : List Subtree) (state : StateId) :
    (errorNode language children state).totalSize = totalSizes children :=
  totalSize_node errorSymbol children state

/-- The children of a node are as long as it is, and a token stands for itself. -/
theorem totalSizes_middle {language : Language} {tree : Subtree} (intact : Intact language tree) :
    totalSizes (if tree.marks.token then [tree] else tree.children) = tree.totalSize := by
  rcases e : tree.marks.token with - | -
  · simp [intact.span e]
  · simp [totalSizes]

/-- Skipped input is as long as its parts. -/
theorem totalSize_mergeErrors {language : Language} {previous : Subtree}
    (intact : Intact language previous) (token : Subtree) (state : StateId) :
    (Stack.mergeErrors language previous token state).totalSize =
      previous.totalSize + token.totalSize := by
  simp only [Stack.mergeErrors]
  split
  · exact totalSize_joinErrorTokens previous token
  · rw [totalSize_errorNode, totalSizes_addSkipped, totalSizes_middle intact]

section Skipped

variable {language : Language} (keeps : RecoveryKeeps language P)
include keeps

theorem everywhereAmong_addSkipped {start : Nat} {children : List Subtree} {token : Subtree}
    (hc : EverywhereAmong P start children) (leaf : token.children = [])
    (ht : P (start + totalSizes children) token) :
    EverywhereAmong P start (Stack.addSkipped children token) := by
  fun_induction Stack.addSkipped children token generalizing start with
  | case1 => simpa [everywhereAmong_cons, everywhere_leaf leaf, totalSizes] using ht
  | case2 previous token joined =>
    simp only [Bool.and_eq_true] at joined
    have hp := everywhereAmong_singleton.mp hc
    have atom := (keeps.intact (everywhere_iff.mp hp).1).atom (isErrorToken_iff.mp joined.1).2
    rw [everywhereAmong_singleton, joinErrorTokens_eq, everywhere_leaf (by exact atom)]
    exact keeps.joined (everywhere_iff.mp hp).1 joined.1 (by simpa [totalSizes] using ht) joined.2 _
      (.inr rfl)
  | case3 previous token joined =>
    refine ⟨everywhereAmong_singleton.mp hc, everywhereAmong_singleton.mpr ?_⟩
    rw [everywhere_leaf leaf]
    simpa [totalSizes] using ht
  | case4 token first second rest ih =>
    refine ⟨hc.1, ih hc.2 leaf ?_⟩
    rw [totalSizes] at ht
    rwa [Nat.add_assoc]

theorem everywhere_errorNode {start : Nat} {children : List Subtree}
    (h : EverywhereAmong P start children) (state : StateId) :
    Everywhere P start (errorNode language children state) :=
  everywhere_iff.mpr ⟨keeps.skipped h state, h⟩

theorem everywhere_mergeErrors {start : Nat} {previous token : Subtree}
    (hp : Everywhere P start previous) (leaf : token.children = [])
    (ht : P (start + previous.totalSize) token) (state : StateId) :
    Everywhere P start (Stack.mergeErrors language previous token state) := by
  have intact := keeps.intact (everywhere_iff.mp hp).1
  simp only [Stack.mergeErrors]
  split
  · rename_i joined
    simp only [Bool.and_eq_true] at joined
    have atom := intact.atom (isErrorToken_iff.mp joined.1).2
    rw [joinErrorTokens_eq, everywhere_leaf (by exact atom)]
    exact keeps.joined (everywhere_iff.mp hp).1 joined.1 ht joined.2 _ (.inr rfl)
  · apply everywhere_errorNode keeps
    rcases e : previous.marks.token with - | -
    · refine everywhereAmong_addSkipped keeps (by simpa using (everywhere_iff.mp hp).2) leaf ?_
      simpa [← intact.span e] using ht
    · exact everywhereAmong_addSkipped keeps (by simpa [everywhereAmong_cons] using hp) leaf
        (by simpa [totalSizes] using ht)

end Skipped

theorem totalSizes_skip {language : Language} {stack : Stack} {token : Subtree}
    (intact : ∀ entry ∈ stack, Intact language entry.subtree) :
    totalSizes (stack.skip language token).subtrees =
      totalSizes stack.subtrees + token.totalSize := by
  have alone (state : StateId) : (if token.isErrorToken then token
      else errorNode language [token] state).totalSize = token.totalSize := by
    split
    · rfl
    · rw [totalSize_errorNode]
      rfl
  cases stack with
  | nil => simp [Stack.skip, totalSizes, alone]
  | cons entry rest =>
    simp only [Stack.skip]
    split
    · simp only [Stack.subtrees_cons, totalSizes_append, totalSizes, Nat.add_zero,
        totalSize_mergeErrors (intact entry (by simp))]
      omega
    · simp [totalSizes, alone, Nat.add_assoc]

/-! ### Steps -/

theorem row_append {above below : Stack} :
    EverywhereAmong P 0 (Stack.subtrees (above ++ below)) ↔
      EverywhereAmong P 0 below.subtrees ∧
        EverywhereAmong P (totalSizes below.subtrees) above.subtrees := by
  rw [Stack.subtrees_append, everywhereAmong_append, Nat.zero_add]

theorem row_cons {entry : Entry} {below : Stack} :
    EverywhereAmong P 0 (Stack.subtrees (entry :: below)) ↔
      EverywhereAmong P 0 below.subtrees ∧
        Everywhere P (totalSizes below.subtrees) entry.subtree := by
  rw [Stack.subtrees_cons, everywhereAmong_append, Nat.zero_add, everywhereAmong_singleton]

/-- What is skipped comes behind the row, or joins the error that the row ends with. -/
theorem row_skip {language : Language} (keeps : RecoveryKeeps language P) {stack : Stack}
    {token : Subtree} (row : EverywhereAmong P 0 stack.subtrees) (leaf : token.children = [])
    (ht : P (totalSizes stack.subtrees) token) :
    EverywhereAmong P 0 (stack.skip language token).subtrees := by
  have alone (state : StateId) : Everywhere P (totalSizes stack.subtrees)
      (if token.isErrorToken then token else errorNode language [token] state) := by
    have own := (everywhere_leaf leaf).mpr ht
    split
    · exact own
    · exact everywhere_errorNode keeps (everywhereAmong_singleton.mpr own) state
  cases stack with
  | nil => exact row_cons.mpr ⟨trivial, alone _⟩
  | cons entry rest =>
    simp only [Stack.skip]
    split
    · obtain ⟨below, top⟩ := row_cons.mp row
      refine row_cons.mpr ⟨below, everywhere_mergeErrors keeps top leaf ?_ _⟩
      simpa [totalSizes] using ht
    · exact row_cons.mpr ⟨row, alone _⟩

/-- All that is on the stack of a run has the property at some place. -/
theorem HoldsOnStack.entry (h : HoldsOnStack P setting run) {entry : Entry}
    (he : entry ∈ run.stack) : ∃ start, Everywhere P start entry.subtree := by
  obtain ⟨above, below, e⟩ := List.append_of_mem he
  have row := h.row
  rw [e, row_append] at row
  exact ⟨_, (row_cons.mp row.1).2⟩

/-- Where the subtrees of a reduction stood. -/
theorem subtrees_of_takeOff {stack rest : Stack} {children : List Subtree} {count : Nat}
    (h : Stack.takeOff count stack.belowExtras [] = (children, rest)) :
    stack.subtrees = rest.subtrees ++ children ++ stack.extras.subtrees := by
  have hs := Stack.takeOff_subtrees count stack.belowExtras []
  rw [h, List.append_nil] at hs
  rw [hs]
  conv => lhs; rw [← stack.extras_append_belowExtras]
  rw [Stack.subtrees_append]

/-- A reduction keeps the width of the stack. -/
theorem totalSizes_reduce? {language : Language} {stack reduced : Stack} {symbol : Symbol}
    {count : UInt8} {token : Subtree}
    (h : stack.reduce? language symbol count token = some reduced) :
    totalSizes reduced.subtrees = totalSizes stack.subtrees := by
  obtain ⟨children, rest, target, taken, -, rfl⟩ := Stack.reduce?_eq_some_iff.mp h
  simp only [subtrees_of_takeOff taken, Stack.subtrees_append, Stack.subtrees_cons,
    Stack.subtrees_moved, totalSizes_append, totalSizes, totalSize_needing, totalSize_node,
    Nat.add_zero]

/-- A reduction keeps a property that holds of the node it makes. -/
theorem row_reduce? {language : Language} {stack reduced : Stack} {symbol : Symbol}
    {count : UInt8} {token : Subtree} (row : EverywhereAmong P 0 stack.subtrees)
    (h : stack.reduce? language symbol count token = some reduced)
    (made : ∀ children rest target,
      Stack.takeOff count.toNat stack.belowExtras [] = (children, rest) →
      language.goto? rest.top symbol = some target →
      EverywhereAmong P (totalSizes rest.subtrees) children →
      P (totalSizes rest.subtrees)
        ((node language symbol children rest.top).needing (stack.needed token))) :
    EverywhereAmong P 0 reduced.subtrees := by
  obtain ⟨children, rest, target, taken, goto, rfl⟩ := Stack.reduce?_eq_some_iff.mp h
  rw [subtrees_of_takeOff taken, everywhereAmong_append, everywhereAmong_append,
    Nat.zero_add] at row
  obtain ⟨⟨hr, hc⟩, he⟩ := row
  rw [row_append, row_cons, Stack.subtrees_moved]
  refine ⟨⟨hr, everywhere_iff.mpr ⟨made children rest target taken goto hc, hc⟩⟩, ?_⟩
  simpa [totalSizes, totalSize_node, Nat.add_assoc] using he

/-- The row on the stack goes on with a subtree that has the property where the run is. -/
theorem HoldsOnStack.row_push (h : HoldsOnStack P setting run) {tree : Subtree}
    (ht : Everywhere P run.position tree) (target : StateId) :
    EverywhereAmong P 0 (Stack.subtrees (⟨target, tree⟩ :: run.stack)) ∧
      totalSizes (Stack.subtrees (⟨target, tree⟩ :: run.stack)) =
        run.position + tree.totalSize := by
  refine ⟨row_cons.mpr ⟨h.row, h.width ▸ ht⟩, ?_⟩
  rw [Stack.subtrees_cons, totalSizes_append, h.width, totalSizes, totalSizes, Nat.add_zero]

/-- A step on a token that has the property keeps the property, if it holds of
the node of a reduction. -/
theorem HoldsOnStack.make (h : HoldsOnStack P setting run)
    (keeps : RecoveryKeeps setting.language P) {lookahead : Lookahead} {move : Move} (choice : run.Choice setting lookahead move)
    {state : StateId}
    (read : lookahead = setting.language.lookahead setting.text run.position state)
    (ht : P run.position lookahead.token)
    (made : ∀ symbol count children rest target,
      (setting.language.action? run.state lookahead.token.symbol = some (.reduce symbol count) ∨
        setting.language.defaultReduction? run.state = some (symbol, count)) →
      Stack.takeOff count.toNat run.stack.belowExtras [] = (children, rest) →
      setting.language.goto? rest.top symbol = some target →
      EverywhereAmong P (totalSizes rest.subtrees) children →
      P (totalSizes rest.subtrees) ((node setting.language symbol children rest.top).needing
        (run.stack.needed lookahead.token)))
    {next : Run} (running : run.make setting move = .running next) :
    HoldsOnStack P setting next := by
  have leaf : lookahead.token.children = [] := by rw [read]; exact children_lookahead ..
  have intact : ∀ entry ∈ run.stack, Intact setting.language entry.subtree := fun entry he =>
    let ⟨_, hp⟩ := h.entry he
    keeps.intact (everywhere_iff.mp hp).1
  have stays : ∀ la : Lookahead, some lookahead = some la →
      ∃ s, la = setting.language.lookahead setting.text run.position s :=
    fun la e => ⟨state, by cases e; exact read⟩
  have token : Everywhere P run.position lookahead.token := (everywhere_leaf leaf).mpr ht
  cases choice with
  | @shift target =>
    cases running
    obtain ⟨row, width⟩ := h.row_push token target
    exact ⟨row, width, fun _ e => by simp at e⟩
  | reduce action reduced =>
    cases running
    exact ⟨row_reduce? h.row reduced fun children rest target =>
      made _ _ children rest target (.inl action),
      (totalSizes_reduce? reduced).trans h.width, stays⟩
  | accept => simp [Run.make] at running
  | reduceByDefault budget default reduced =>
    cases running
    exact ⟨row_reduce? h.row reduced fun children rest target =>
      made _ _ children rest target (.inr default),
      (totalSizes_reduce? reduced).trans h.width, stays⟩
  | @insert symbol target budget repair =>
    cases running
    obtain ⟨row, width⟩ := h.row_push ((everywhere_leaf rfl).mpr (keeps.missing repair _)) target
    exact ⟨row, width, stays⟩
  | @wrap symbol target budget repair =>
    cases running
    have wrapped : Everywhere P run.position
        (node setting.language symbol [lookahead.token] run.state) := by
      refine everywhere_iff.mpr ⟨keeps.wrapped repair ht, ?_⟩
      rw [children_node, everywhereAmong_singleton]
      exact token
    obtain ⟨row, width⟩ := h.row_push wrapped target
    exact ⟨row, width, fun _ e => by simp at e⟩
  | skip =>
    cases running
    refine ⟨?_, ?_, fun _ e => by simp at e⟩
    · apply row_skip keeps h.row leaf
      rw [h.width]
      exact ht
    · simp only [totalSizes_skip intact, h.width]
  | giveUp => simp [Run.make] at running

/-! ### Results -/

/-- What is put under an error root behind the stack. -/
def Run.tail (setting : Setting) (run : Run) (token : Subtree) : List Subtree :=
  let stop := Subtree.token setting.language endSymbol 0 0 0 errorState
  let rest := Span.lowBits setting.text.size - (run.position + token.totalSize)
  if token.symbol = endSymbol then [token]
  else if token.isErrorToken then [token.extended (token.size + rest) token.lookahead, stop]
  else if 0 < rest then
    [token, Subtree.token setting.language errorSymbol 0 rest 0 errorState, stop]
  else [token, stop]

theorem giveUp_eq (token : Subtree) : run.giveUp setting token =
    node setting.language errorSymbol (run.stack.subtrees ++ run.tail setting token) errorState :=
  rfl

/-- What is put behind the stack keeps a property of the token in front. -/
theorem everywhereAmong_tail (keeps : RecoveryKeeps setting.language P) {token : Subtree}
    (ht : P run.position token) (leaf : token.children = [])
    (stop : ∀ start, P start (Subtree.token setting.language endSymbol 0 0 0 errorState))
    (remains : P (run.position + token.totalSize) (Subtree.token setting.language errorSymbol 0
      (Span.lowBits setting.text.size - (run.position + token.totalSize)) 0 errorState)) :
    EverywhereAmong P run.position (run.tail setting token) := by
  have stop (start : Nat) : EverywhereAmong P start
      [Subtree.token setting.language endSymbol 0 0 0 errorState] :=
    everywhereAmong_singleton.mpr ((everywhere_leaf rfl).mpr (stop start))
  simp only [Run.tail]
  split
  · exact everywhereAmong_singleton.mpr ((everywhere_leaf leaf).mpr ht)
  · split
    · rename_i error
      have joined := keeps.joined ht error remains rfl token.lookahead (.inl rfl)
      rw [Subtree.totalSize_token, Nat.zero_add] at joined
      exact ⟨(everywhere_leaf (by exact leaf)).mpr joined, stop _⟩
    · split
      · exact ⟨(everywhere_leaf leaf).mpr ht, (everywhere_leaf rfl).mpr remains, stop _⟩
      · exact ⟨(everywhere_leaf leaf).mpr ht, stop _⟩

/-- Below the root of a parse that gives up a property goes on to hold. -/
theorem everywhereAmong_giveUp (h : HoldsOnStack P setting run)
    (keeps : RecoveryKeeps setting.language P) {token : Subtree} (ht : P run.position token) (leaf : token.children = [])
    (stop : ∀ start, P start (Subtree.token setting.language endSymbol 0 0 0 errorState))
    (remains : P (run.position + token.totalSize) (Subtree.token setting.language errorSymbol 0
      (Span.lowBits setting.text.size - (run.position + token.totalSize)) 0 errorState)) :
    EverywhereAmong P 0 (run.giveUp setting token).children := by
  rw [giveUp_eq, children_node, everywhereAmong_append, Nat.zero_add, h.width]
  exact ⟨h.row, everywhereAmong_tail keeps ht leaf stop remains⟩

/-- What the root of a complete parse is made of: the topmost entry that is no
extra, with all that lies around it. -/
theorem accept_eq {entry : Entry} {rest : Stack}
    (h : run.stack.belowExtras = entry :: rest) (token : Subtree) :
    run.accept setting token =
      node setting.language entry.subtree.symbol
        (rest.subtrees ++
          (if entry.subtree.marks.token then [entry.subtree] else entry.subtree.children) ++
          run.stack.extras.subtrees ++ [token]) entry.subtree.parseState := by
  simp [Run.accept, h]

/-- The root of a complete parse covers the stack and the end token. -/
theorem totalSize_accept {language : Language} {entry : Entry} {rest : Stack}
    (below : run.stack.belowExtras = entry :: rest) (intact : Intact language entry.subtree)
    (token : Subtree) :
    (run.accept setting token).totalSize = totalSizes run.stack.subtrees + token.totalSize := by
  have split := run.stack.extras_append_belowExtras
  rw [accept_eq below, totalSize_node]
  conv => rhs; rw [← split, below]
  simp only [totalSizes_append, totalSizes_middle intact, Stack.subtrees_append,
    Stack.subtrees_cons, totalSizes, Nat.add_zero]

/-- Below the root of a complete parse a property goes on to hold. -/
theorem everywhereAmong_accept (h : HoldsOnStack P setting run)
    (keeps : RecoveryKeeps setting.language P) {token : Subtree} (ht : P run.position token) (leaf : token.children = [])
    {entry : Entry} {rest : Stack} (below : run.stack.belowExtras = entry :: rest) :
    EverywhereAmong P 0 (run.accept setting token).children := by
  have split := run.stack.extras_append_belowExtras
  have row := h.row
  have width := h.width
  rw [← split, below] at row width
  obtain ⟨hb, hx⟩ := row_append.mp row
  obtain ⟨hr, he⟩ := row_cons.mp hb
  have intact := keeps.intact (everywhere_iff.mp he).1
  have middle : EverywhereAmong P (totalSizes rest.subtrees)
      (if entry.subtree.marks.token then [entry.subtree] else entry.subtree.children) := by
    rcases e : entry.subtree.marks.token with - | -
    · simpa using (everywhere_iff.mp he).2
    · simpa [everywhereAmong_cons] using he
  simp only [Stack.subtrees_append, Stack.subtrees_cons, totalSizes_append, totalSizes,
    Nat.add_zero] at hx width
  rw [accept_eq below, children_node]
  simp only [everywhereAmong_append, Nat.zero_add, totalSizes_append,
    totalSizes_middle intact, everywhereAmong_singleton, everywhere_leaf leaf]
  exact ⟨⟨⟨hr, middle⟩, hx⟩, width ▸ ht⟩

/-- A property holds of everything below a root, which is a node made of its children. -/
def HoldsBelowRoot (language : Language) (P : Nat → Subtree → Prop) (root : Subtree) : Prop :=
  EverywhereAmong P 0 root.children ∧
    ∃ symbol state, root = node language symbol root.children state

section Finished

variable (h : HoldsOnStack P setting run) (keeps : RecoveryKeeps setting.language P)
  (ht : P run.position (run.current setting).token)
  (stop : ∀ start, P start (Subtree.token setting.language endSymbol 0 0 0 errorState))
  (remains : ∀ start size, P start (Subtree.token setting.language errorSymbol 0 size 0 errorState))
include h keeps ht stop remains

/-- The root of a parse that gives up. -/
theorem HoldsOnStack.gaveUp :
    HoldsBelowRoot setting.language P (run.giveUp setting (run.current setting).token) := by
  refine ⟨everywhereAmong_giveUp h keeps ht h.reads.leaf stop (remains ..), ?_⟩
  rw [giveUp_eq, children_node]
  exact ⟨_, _, rfl⟩

/-- **However a step ends a parse**, a property goes on to hold below the root. -/
theorem HoldsOnStack.finished {root : Subtree} {reused : Nat}
    (finished : run.turn setting = .finished root reused) :
    HoldsBelowRoot setting.language P root := by
  rcases Run.root_of_turn finished with ⟨-, -, rfl⟩ | rfl
  · rcases below : run.stack.belowExtras with - | ⟨entry, rest⟩
    · -- there is nothing to accept
      rw [Run.accept, below]
      exact h.gaveUp keeps ht stop remains
    · refine ⟨everywhereAmong_accept h keeps ht h.reads.leaf below, ?_⟩
      rw [accept_eq below, children_node]
      exact ⟨_, _, rfl⟩
  · exact h.gaveUp keeps ht stop remains

end Finished

end Reparse
