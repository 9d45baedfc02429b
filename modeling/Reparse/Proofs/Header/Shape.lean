/-
Reparse/Proofs/Header/Shape.lean

The shape of header trees.

The path of a state says which states a reduction takes off the stack, and the
graph which symbols lead into them.  So the parts of a production are what the
grammar says, with skipped input in between and nothing else: `Shaped`.  Every
step of a fresh parse keeps that, and the tree shows it: `shape_of_parse`.
-/
import Mathlib.Data.List.Forall2
import Reparse.Proofs.Header.Halts
import Reparse.Proofs.Header.Kind
import Reparse.Proofs.Tree.Shown

namespace Reparse.Header

open Subtree

/-! ### What is taken off the stack -/

theorem core_subtrees (stack : Stack) :
    core stack.subtrees = ((inner stack).map Entry.subtree).reverse := by
  rw [core, Stack.subtrees, List.filter_reverse, List.filter_map]
  rfl

/-- A reduction takes off as many entries that are no extras as it counts. -/
theorem core_takeOff (count : Nat) (stack : Stack) (taken : List Subtree)
    (hc : count ≤ (inner stack).length) :
    core (Stack.takeOff count stack taken).1 =
      (((inner stack).take count).map Entry.subtree).reverse ++ core taken := by
  fun_induction Stack.takeOff count stack taken with
  | case1 stack taken => rfl
  | case2 count taken => simp at hc
  | case3 count entry stack taken extra ih =>
    rw [inner_cons_extra extra] at hc ⊢
    rw [ih hc, core_cons_extra extra]
  | case4 count taken entry stack extra ih =>
    rw [Bool.not_eq_true] at extra
    rw [inner_cons extra] at hc ⊢
    rw [ih (by simpa using hc), core_cons extra]
    simp

theorem inner_extras (stack : Stack) : inner stack.extras = [] :=
  List.filter_eq_nil_iff.mpr fun _ m => by simp [Stack.extra_of_mem_extras m]

theorem Linked.core_taken {stack : Stack} (h : Linked stack) {count : Nat}
    (hc : count ≤ (path stack.top).length) :
    core (Stack.takeOff count stack.belowExtras []).1 =
      (((inner stack).take count).map Entry.subtree).reverse := by
  have enough : count ≤ (inner stack.belowExtras).length := by
    rw [inner_belowExtras, ← List.length_map (f := (·.state)), h.inner_states]
    exact hc
  rw [core_takeOff count _ _ enough, inner_belowExtras]
  exact List.append_nil _

/-- **A reduction finds its goto** and takes off just as many entries that are
no extras as the production has parts. -/
theorem Linked.exists_reduced {stack : Stack} (h : Linked stack) {made : Symbol} {count : UInt8}
    (hr : (stack.top, made, count) ∈ reductions) (token : Subtree) :
    (core (Stack.takeOff count.toNat stack.belowExtras []).1).length = count.toNat ∧
      (stack.reduce? language made count token).isSome := by
  obtain ⟨reduced, e, -⟩ := exists_reduce? h hr token
  have enough := (goto?_of_mem_reductions hr).1
  refine ⟨?_, by rw [e]; rfl⟩
  have entries : (inner stack).length = (path stack.top).length := by
    rw [← h.inner_states, List.length_map]
  rw [h.core_taken enough, List.length_reverse, List.length_map, List.length_take, entries]
  omega

/-! ### Rules -/

/-- The symbols of the graph that no token has and no reduction makes. -/
def unmade : List Symbol :=
  [documentLiteralInner, leftBracketInner, rightBracketInner, newlineCharacterInner]

/-- The symbols that lead into a state. -/
def into (state : StateId) : List Symbol :=
  (edges.filter fun edge => edge.2.2 = state && edge.2.1 ∉ unmade).map (·.2.1)

/-- The parts of a document and the error productions in their place. -/
def parts : List (List Symbol) :=
  [[leftBracket, leftBracketError], [documentLiteral, documentLiteralError],
   [rightBracket, rightBracketError], [newlineCharacter, newlineCharacterError],
   [newlineCharacter, newlineCharacterError]]

/-- The productions that are no error productions, with the choices for each part. -/
def rules : List (Symbol × List (List Symbol)) :=
  [(topNode, [[document], [eof]]), (document, [[documentInner, documentError]]),
   (documentInner, parts), (documentInner, parts ++ [[trailingEndError]])]

/-- A row of subtrees with a symbol out of each choice of a row. -/
def Picks (trees : List Subtree) (choices : List (List Symbol)) : Prop :=
  List.Forall₂ (fun tree symbols => tree.symbol ∈ symbols) trees choices

theorem Picks.mem_flatten {trees : List Subtree} {choices : List (List Symbol)}
    (h : Picks trees choices) : ∀ tree ∈ trees, tree.symbol ∈ choices.flatten := by
  induction h with
  | nil => intro tree m; cases m
  | cons first rest ih =>
    intro tree m
    rw [List.flatten_cons, List.mem_append]
    rcases List.mem_cons.mp m with rfl | m
    · exact .inl first
    · exact .inr (ih tree m)

/-- What is taken off the stack of a state spells out a rule of the symbol that is made. -/
theorem rule_of_reduction {state : StateId} {made : Symbol} {count : UInt8}
    (h : (state, made, count) ∈ reductions) :
    made ∉ unmade ∧ (made ∈ rules.map (·.1) →
      (made, (((path state).take count.toNat).map into).reverse) ∈ rules) := by
  have all : ∀ entry ∈ reductions, entry.2.1 ∉ unmade ∧ (entry.2.1 ∈ rules.map (·.1) →
      (entry.2.1, (((path entry.1).take entry.2.2.toNat).map into).reverse) ∈ rules) := by
    decide
  exact all _ h

/-- The symbols on a stack spell its path. -/
theorem Linked.spells {stack : Stack} (h : Linked stack)
    (made : ∀ entry ∈ stack, entry.subtree.symbol ∉ unmade) :
    List.Forall₂ (fun (entry : Entry) state => entry.subtree.symbol ∈ into state) (inner stack)
      (path stack.top) := by
  induction stack with
  | nil => exact .nil
  | cons entry below ih =>
    have rest (linked : Linked below) := ih linked fun e m => made e (by simp [m])
    rcases e : entry.subtree.marks.extra with - | -
    · obtain ⟨edge, linked⟩ := (linked_cons e).mp h
      rw [inner_cons e, Stack.top, path_of_mem_edges edge]
      refine .cons ?_ (rest linked)
      have own := made entry (by simp)
      exact List.mem_map.mpr ⟨_, List.mem_filter.mpr ⟨edge, by simp [own]⟩, rfl⟩
    · obtain ⟨⟨same, -⟩, linked⟩ := (linked_extra e).mp h
      rw [inner_cons_extra e, Stack.top, same]
      exact rest linked

/-! ### Shaped subtrees -/

/-- A subtree of a fresh header parse: its parts are those of a rule, with
skipped input in between. -/
structure Shaped (tree : Subtree) : Prop where
  intact : Intact language tree
  made : tree.symbol ∉ unmade
  skipped : tree.marks.extra = true → tree.symbol = errorSymbol
  spelled : tree.symbol ∈ rules.map (·.1) →
    ∃ choices, (tree.symbol, choices) ∈ rules ∧ Picks (core tree.children) choices

/-- A subtree whose symbol has no rule is shaped. -/
theorem shaped_simple {tree : Subtree} (intact : Intact language tree)
    (skipped : tree.marks.extra = true → tree.symbol = errorSymbol)
    (simple : tree.symbol ∉ unmade ++ rules.map (·.1)) : Shaped tree where
  intact := intact
  made m := simple (List.mem_append_left _ m)
  skipped := skipped
  spelled m := absurd (List.mem_append_right _ m) simple

theorem simple_of_repair {state target : StateId} {symbol : Symbol}
    (h : (symbol, target) ∈ language.repairs state) : symbol ∉ unmade ++ rules.map (·.1) := by
  intro composed
  have all : ∀ symbol ∈ unmade ++ rules.map (·.1),
      (symbolMarks language symbol).recovery = false := by decide
  exact absurd ((showsRepairs.repairs h).symm.trans (all symbol composed)) (by simp)

theorem shaped_lookahead (text : Text) (position : Nat) (state : StateId) :
    Shaped (language.lookahead text position state).token := by
  refine shaped_simple (intact_lookahead ..) (fun extra => ?_) fun composed => ?_
  · simpa [Run.extra_lookahead] using extra
  · have all : ∀ symbol ∈ unmade ++ rules.map (·.1),
        language.isTerminal symbol = false ∧ symbol ≠ errorSymbol := by decide
    obtain ⟨inner, proper⟩ := all _ composed
    rcases consistent.symbol_lookahead text position state with terminal | skipped
    · exact absurd (terminal.symm.trans inner) (by simp)
    · exact proper skipped

theorem recoveryKeeps_shaped : RecoveryKeeps language fun _ tree => Shaped tree where
  intact h := h.intact
  missing repair _ := shaped_simple (intact_missing (showsRepairs.repairs repair) _)
    (fun extra => by cases extra) (simple_of_repair repair)
  wrapped {_ symbol _} repair _ token _ := by
    have symbols := @symbol_node language symbol [token]
    refine shaped_simple (intact_node ..) (fun extra => ?_) ?_
    · simp [marks_node, symbolMarks] at extra
    · rw [symbols]
      exact simple_of_repair repair
  skipped _ _ := by
    refine shaped_simple (intact_errorNode ..) (fun _ => symbol_errorNode ..) ?_
    rw [symbol_errorNode]
    decide
  joined h error _ _ _ _ _ := by
    obtain ⟨symbol, token⟩ := isErrorToken_iff.mp error
    refine shaped_simple (h.intact.extended token _ _) h.skipped ?_
    intro composed
    exact absurd (symbol ▸ composed) (by decide)

variable {text : Text} {limit : Nat} {old : Option Subtree} {run : Run}

/-- **A reduction puts a rule together.** -/
theorem shaped_reduction {stack : Stack} (linked : Linked stack)
    (made : ∀ entry ∈ stack, entry.subtree.symbol ∉ unmade) {symbol : Symbol} {count : UInt8}
    (h : (stack.top, symbol, count) ∈ reductions) (state : StateId) (needed : Nat) :
    Shaped ((node language symbol (Stack.takeOff count.toNat stack.belowExtras []).1 state).needing
      needed) where
  intact := (intact_node ..).needing _
  made := by
    rw [symbol_needing, symbol_node]
    exact (rule_of_reduction h).1
  skipped extra := by simp [marks_node, symbolMarks] at extra
  spelled := by
    rw [symbol_needing, symbol_node, children_needing, children_node]
    intro composed
    refine ⟨_, (rule_of_reduction h).2 composed, ?_⟩
    rw [linked.core_taken (goto?_of_mem_reductions h).1, Picks, List.forall₂_reverse_iff,
      List.forall₂_map_left_iff, List.forall₂_map_right_iff]
    exact List.forall₂_take _ (linked.spells made)

theorem made_of_holdsOnStack
    (shaped : HoldsOnStack (fun _ tree => Shaped tree) (setting text limit old) run) :
    ∀ entry ∈ run.stack, entry.subtree.symbol ∉ unmade := fun _ m =>
  let ⟨_, h⟩ := shaped.entry m
  (everywhere_iff.mp h).1.made

/-- **A step keeps everything on the stack in shape.** -/
theorem shaped_turn (linked : Linked run.stack)
    (shaped : HoldsOnStack (fun _ tree => Shaped tree) (setting text limit old) run) {next : Run}
    (running : run.turn (setting text limit old) = .running next) :
    HoldsOnStack (fun _ tree => Shaped tree) (setting text limit old) next := by
  obtain ⟨state, read, -⟩ := shaped.reads.current
  refine shaped.make recoveryKeeps_shaped (Run.choice_moveOn _ run _) read
    (by rw [read]; exact shaped_lookahead ..)
    (fun symbol count children rest target reduces taken _ _ => ?_) running
  have reduction := reduces.elim mem_reductions_of_reduce mem_reductions_of_default
  have made := shaped_reduction linked (made_of_holdsOnStack shaped) reduction rest.top
  rw [taken] at made
  exact made _

/-- **A fresh parse keeps its stack in shape and on the edges of the table.** -/
theorem shaped_of_steps (reached : Run.Steps (setting text limit none) {} run) :
    Linked run.stack ∧ HoldsOnStack (fun _ tree => Shaped tree) (setting text limit none) run := by
  refine reached.of_invariant (I := fun run => Linked run.stack ∧
    HoldsOnStack (fun _ tree => Shaped tree) (setting text limit none) run) ?_
    ⟨trivial, holdsOnStack_start⟩
  rintro run next ⟨linked, shaped⟩ running
  rw [step_fresh] at running
  exact ⟨(linked.turn shaped.reads running).1, shaped_turn linked shaped running⟩

/-! ### What is seen -/

/-- The kinds of the parts of a document and of the errors in their place. -/
def partKinds : List (List String) :=
  [["left_bracket", "left_bracket_error"], ["document_literal", "document_literal_error"],
   ["right_bracket", "right_bracket_error"], ["newline_character", "newline_character_error"],
   ["newline_character", "newline_character_error"]]

/-- The kinds of the children of a document: all of it is one error, or each
part is there in order, and perhaps there is an error behind them. -/
def IsBody (kinds : List String) : Prop :=
  kinds = ["document_error"] ∨
    ∃ body, (kinds = body ∨ kinds = body ++ ["trailing_end_error"]) ∧
      List.Forall₂ (fun kind choice => kind ∈ choice) body partKinds

/-- The shape of the root of a complete tree, skipped input apart. -/
def IsHeader (root : Node) : Prop :=
  ∃ document eof, root.properChildren = [document, eof] ∧ document.kind = "DOCUMENT" ∧
    eof.kind = "EOF" ∧ IsBody (document.properChildren.map (·.kind))

theorem Shaped.seen {tree : Subtree} (h : Shaped tree) (extra : tree.marks.extra = true) :
    tree.marks.visible = true ∧ tree.symbol = errorSymbol := by
  refine ⟨?_, h.skipped extra⟩
  rw [h.intact.visible, h.skipped extra]
  rfl

/-- A subtree with parts is no token. -/
theorem Shaped.inner {tree : Subtree} (h : Shaped tree)
    (composed : tree.symbol ∈ rules.map (·.1)) : tree.marks.token = false := by
  obtain ⟨choices, rule, picks⟩ := h.spelled composed
  rcases token : tree.marks.token with - | -
  · rfl
  · have all : ∀ rule ∈ rules, rule.2 ≠ [] := by decide
    rw [h.intact.atom token] at picks
    exact absurd (List.forall₂_nil_left_iff.mp picks) (all _ rule)

/-- The kinds of the parts of a document. -/
theorem isBody_of_picks {trees : List Subtree} {choices : List (List Symbol)}
    (rule : (documentInner, choices) ∈ rules) (picks : Picks trees choices) :
    IsBody (trees.map fun tree => name tree.symbol) := by
  have named (trees : List Subtree) (picks : Picks trees parts) :
      List.Forall₂ (fun kind choice => kind ∈ choice) (trees.map fun tree => name tree.symbol)
        partKinds := by
    rw [show partKinds = parts.map (·.map name) by decide, List.forall₂_map_left_iff,
      List.forall₂_map_right_iff]
    exact List.Forall₂.imp (fun _ _ m => List.mem_map_of_mem m) picks
  have all : ∀ rule ∈ rules, rule.1 = documentInner →
      rule.2 = parts ∨ rule.2 = parts ++ [[trailingEndError]] := by decide
  rcases all _ rule rfl with e | e
  · rw [show choices = parts from e] at picks
    exact .inr ⟨_, .inl rfl, named trees picks⟩
  · rw [show choices = parts ++ [[trailingEndError]] from e] at picks
    have front := List.forall₂_take_append _ _ _ picks
    have back := List.forall₂_drop_append _ _ _ picks
    obtain ⟨last, _, one, none, behind⟩ := List.forall₂_cons_right_iff.mp back
    rw [List.forall₂_nil_right_iff.mp none] at behind
    refine .inr ⟨_, .inr ?_, named _ front⟩
    conv => lhs; rw [← List.take_append_drop parts.length trees, behind]
    rw [List.map_append, List.map_singleton, List.mem_singleton.mp one]
    rfl

/-- What is seen of the parts of a document. -/
theorem isBody_of_parts {trees : List Subtree} (shaped : ∀ tree ∈ trees, Shaped tree)
    {choices : List (List Symbol)} (rule : (documentInner, choices) ∈ rules)
    (picks : Picks (core trees) choices) : IsBody ((proper trees).map name) := by
  have all : ∀ rule ∈ rules, rule.1 = documentInner → ∀ symbol ∈ rule.2.flatten,
      (symbolMarks language symbol).visible = true ∧ symbol ≠ errorSymbol := by decide
  have seen : proper (core trees) = (core trees).map (·.symbol) := by
    refine proper_eq_map fun tree m => ?_
    rw [(shaped tree (List.mem_filter.mp m).1).intact.visible]
    exact all _ rule rfl _ (picks.mem_flatten tree m)
  rw [← proper_core fun tree m => (shaped tree m).seen, seen, List.map_map]
  exact isBody_of_picks rule picks

/-- **A document shows one error or all of its parts.** -/
theorem isBody_of_document {tree : Subtree} (shaped : Throughout Shaped tree)
    (symbol : tree.symbol = document) : IsBody ((proper tree.children).map name) := by
  have below : ∀ child ∈ tree.children, Shaped child := fun _ m => (shaped.child m).self
  have all : ∀ rule ∈ rules, rule.1 = document → rule.2 = [[documentInner, documentError]] := by
    decide
  obtain ⟨choices, rule, picks⟩ := shaped.self.spelled (by rw [symbol]; decide)
  rw [show choices = _ from all _ rule symbol] at picks
  obtain ⟨inside, _, one, none, single⟩ := List.forall₂_cons_right_iff.mp picks
  rw [List.forall₂_nil_right_iff.mp none] at single
  have mem : inside ∈ tree.children := (List.mem_filter.mp (single ▸ List.mem_singleton_self _)).1
  have visible := (below _ mem).intact.visible
  rw [← proper_core fun child m => (below child m).seen, single]
  rcases List.mem_pair.mp one with e | e
  · -- the parts are seen in the place of the hidden node
    obtain ⟨choices, rule, picks⟩ := (below _ mem).spelled (by rw [e]; decide)
    rw [proper_hidden (by rw [visible, e]; rfl) ((below _ mem).inner (by rw [e]; decide))]
    exact isBody_of_parts (fun part m => ((shaped.child mem).child m).self) (e ▸ rule) picks
  · rw [proper_visible (by rw [visible, e]; rfl), e]
    exact .inl (by decide)

/-! ### Complete trees -/

/-- What a root shows, if its parts are a document and the end of the input. -/
theorem isHeader_of_core {tree first second token : Subtree}
    (row : ∀ child ∈ tree.children, Throughout Shaped child)
    (parts : core tree.children = [first, second, token]) (one : first.symbol = document)
    (two : second.symbol = eof) (stop : token.symbol = endSymbol)
    (atom : token.marks.token = true) : IsHeader ⟨tree, 0, language⟩ := by
  have shaped : ∀ child ∈ tree.children, Shaped child := fun child m => (row child m).self
  have among : ∀ child ∈ core tree.children, child ∈ tree.children := fun _ m =>
    (List.mem_filter.mp m).1
  rw [parts] at among
  have first_visible : first.marks.visible = true := by
    rw [(shaped first (among _ (by simp))).intact.visible, one]
    rfl
  have second_visible : second.marks.visible = true := by
    rw [(shaped second (among _ (by simp))).intact.visible, two]
    rfl
  have token_hidden : token.marks.visible = false := by
    rw [(shaped token (among _ (by simp))).intact.visible, stop]
    rfl
  have shows : ∀ child ∈ tree.children, child.marks.visible = true ∨ child.marks.token = true := by
    intro child m
    rcases e : child.marks.extra with - | -
    · have mem : child ∈ core tree.children := List.mem_filter.mpr ⟨m, by simp [e]⟩
      rw [parts] at mem
      rcases List.mem_cons.mp mem with rfl | mem
      · exact .inl first_visible
      · rcases List.mem_pair.mp mem with rfl | rfl
        · exact .inl second_visible
        · exact .inr atom
    · exact .inl ((shaped child m).seen e).1
  have seen := @Node.subtrees_properChildren ⟨tree, 0, language⟩ shows
  have proper : first.symbol ≠ errorSymbol ∧ second.symbol ≠ errorSymbol := by
    rw [one, two]
    decide
  have kept : [first, second, token].filter
      (fun tree => tree.symbol ≠ errorSymbol && tree.marks.visible) = [first, second] := by
    simp [proper, first_visible, second_visible, token_hidden]
  rw [← filter_core fun child m extra => by simp [((shaped child m).seen extra).2], parts,
    kept] at seen
  obtain ⟨left, others, children, here, seen⟩ := List.map_eq_cons_iff.mp seen
  obtain ⟨right, others, rfl, there, seen⟩ := List.map_eq_cons_iff.mp seen
  obtain rfl := List.map_eq_nil_iff.mp seen
  have spoken (child : Node) (m : child ∈ [left, right]) : child.language = language := by
    rw [← children] at m
    exact Node.language_of_mem_children m
  refine ⟨left, right, children, ?_, ?_, ?_⟩
  · rw [Node.kind, spoken left (by simp), Node.symbol, here, one]
    decide
  · rw [Node.kind, spoken right (by simp), Node.symbol, there, two]
    decide
  · rw [Node.kinds_properChildren, spoken left (by simp), here]
    exact isBody_of_document (row first (among _ (by simp))) one

/-- The root of a complete parse has a document, the end of the input and the
end token, and nothing else but skipped input. -/
theorem core_accept (linked : Linked run.stack)
    (shaped : HoldsOnStack (fun _ tree => Shaped tree) (setting text limit none) run)
    (state : run.state = 12) {token : Subtree} (ht : Shaped token)
    (leaf : token.children = []) (stays : token.marks.extra = false) :
    (run.accept (setting text limit none) token).symbol = topNode ∧
      (∀ child ∈ (run.accept (setting text limit none) token).children,
        Throughout Shaped child) ∧
      ∃ first second, core (run.accept (setting text limit none) token).children =
        [first, second, token] ∧ first.symbol = document ∧ second.symbol = eof := by
  have top : run.stack.top = 12 := state
  obtain ⟨entry, rest, below, plain, edge⟩ := linked.exists_core (by rw [top]; decide)
  -- the entry on top is the whole text, with nothing but extras around it
  have symbol : entry.subtree.symbol = topNode := by
    have all : ∀ edge ∈ edges, edge.2.2 = 12 → edge.2.1 = topNode := by decide
    exact all _ edge top
  have alone : inner rest = [] := by
    have states := linked.belowExtras.1.inner_states
    rw [linked.belowExtras.2.1, below, inner_cons plain, top] at states
    exact List.map_eq_nil_iff.mp (List.cons.inj states).2
  have mem : entry ∈ run.stack := by
    rw [← run.stack.extras_append_belowExtras, below]
    simp
  obtain ⟨start, whole⟩ := shaped.entry mem
  replace whole : Shaped entry.subtree := (everywhere_const.mp whole).self
  obtain ⟨choices, rule, picks⟩ := whole.spelled (by rw [symbol]; decide)
  have only : ∀ rule ∈ rules, rule.1 = topNode → rule.2 = [[document], [eof]] := by decide
  rw [show choices = _ from only _ rule symbol] at picks
  obtain ⟨first, _, one, more, parts⟩ := List.forall₂_cons_right_iff.mp picks
  obtain ⟨second, _, two, stop, rfl⟩ := List.forall₂_cons_right_iff.mp more
  rw [List.forall₂_nil_right_iff.mp stop] at parts
  have root := @accept_eq (setting text limit none) run entry rest below token
  rw [whole.inner (by rw [symbol]; decide), if_neg (by simp), setting_language, symbol] at root
  refine ⟨by rw [root, symbol_node],
    everywhereAmong_const.mp (everywhereAmong_accept shaped recoveryKeeps_shaped ht leaf below),
    first, second, ?_, List.mem_singleton.mp one, List.mem_singleton.mp two⟩
  rw [root, children_node, core_append, core_append, core_append, core_subtrees, core_subtrees,
    alone, inner_extras, parts, core_cons stays]
  rfl

theorem setting_fresh (config : Config) (text : Text) :
    config.setting language text none = setting text config.maxRecoveries.toNat none := by
  simp [Config.setting, Config.reusableRoot?, setting]

/-- A fresh parse has nothing to reuse. -/
theorem move_fresh (text : Text) (limit : Nat) (run : Run) :
    run.move (setting text limit none) =
      run.moveOn (setting text limit none) (run.current (setting text limit none)) := by
  rw [Run.move]
  cases run.lookahead <;> rfl

/-- The root of a parse is that of a complete text, or an error. -/
theorem root_cases (text : Text) (limit : Nat) :
    (setting text limit none).parse.1.symbol = errorSymbol ∨
      ((setting text limit none).parse.1.symbol = topNode ∧
        IsHeader ⟨(setting text limit none).parse.1, 0, language⟩) := by
  obtain ⟨last, reached, ends⟩ := Run.parse_cases (setting text limit none)
  obtain ⟨linked, shaped⟩ := shaped_of_steps reached
  have gaveUp (token : Subtree) :
      (last.giveUp (setting text limit none) token).symbol = errorSymbol := by
    rw [giveUp_eq, symbol_node]
  rcases ends with ⟨reused, finished⟩ | stopped
  · rw [Run.step_of_fresh rfl] at finished
    rcases Run.root_of_turn finished with ⟨action, complete, root⟩ | root
    · obtain ⟨state, read, -⟩ := shaped.reads.current
      have ht := shaped_lookahead text last.position state
      have leaf := children_lookahead language text last.position state
      simp only [setting_language, setting_text] at read
      rw [← read] at ht leaf
      have stays : (last.current (setting text limit none)).token.marks.extra = false := by
        rcases e : (last.current (setting text limit none)).token.marks.extra with - | -
        · rfl
        · exact absurd (complete.symm.trans (ht.skipped e)) (by decide)
      obtain ⟨symbol, row, first, second, parts, one, two⟩ :=
        core_accept linked shaped (eq_of_accept action).1 ht leaf stays
      obtain ⟨_, _, _, _, e⟩ := lookahead_token language text last.position state
      rw [root]
      exact .inr ⟨symbol, isHeader_of_core row parts one two complete (by rw [read, e]; rfl)⟩
    · exact .inl (root ▸ gaveUp _)
  · exact .inl (stopped ▸ gaveUp _)

/-- **The shape of every header tree.**  Each reduction of a fresh parse finds
its goto and takes off as many entries that are no extras as its production has
parts, so a parse never gives up on a reduction.  The root is a whole text or
an error; a whole text shows a document and the end of the input, and the
document shows one error or all of its parts. -/
theorem shape_of_parse (config : Config) (text : Text) :
    (∀ run, Run.Steps (config.setting language text none) {} run →
      (∀ made count,
        language.action? run.state (run.current (config.setting language text none)).token.symbol =
            some (.reduce made count) ∨
          language.defaultReduction? run.state = some (made, count) →
        (core (Stack.takeOff count.toNat run.stack.belowExtras []).1).length = count.toNat ∧
        (run.stack.reduce? language made count
          (run.current (config.setting language text none)).token).isSome) ∧
      ∀ token made count, run.move (config.setting language text none) = .giveUp token →
        language.action? run.state token.symbol ≠ some (.reduce made count)) ∧
    ((language.parse config text none).1.rootNode.kind = "top_node" ∨
      (language.parse config text none).1.rootNode.kind = "ERROR") ∧
    ((language.parse config text none).1.rootNode.kind = "top_node" →
      IsHeader (language.parse config text none).1.rootNode) := by
  rw [setting_fresh, parse_fresh]
  refine ⟨fun run reached => ?_, ?_⟩
  · have linked := (shaped_of_steps reached).1
    have reduces {made : Symbol} {count : UInt8}
        (reduces : language.action? run.state
            (run.current (setting text config.maxRecoveries.toNat none)).token.symbol =
              some (.reduce made count) ∨
          language.defaultReduction? run.state = some (made, count)) :=
      linked.exists_reduced
        (reduces.elim mem_reductions_of_reduce mem_reductions_of_default)
        (run.current (setting text config.maxRecoveries.toNat none)).token
    refine ⟨fun made count => reduces, fun token made count gaveUp action => ?_⟩
    have choice := Run.choice_moveOn (setting text config.maxRecoveries.toNat none) run
      (run.current (setting text config.maxRecoveries.toNat none))
    rw [move_fresh] at gaveUp
    rw [gaveUp] at choice
    cases choice
    obtain ⟨stack, reduced⟩ := Option.isSome_iff_exists.mp (reduces (.inl action)).2
    rw [Run.moveOn, setting_language, action] at gaveUp
    simp only [reduced] at gaveUp
    cases gaveUp
  · have kinds : name errorSymbol = "ERROR" ∧ name topNode = "top_node" ∧
        name errorSymbol ≠ "top_node" := by decide
    rcases root_cases text config.maxRecoveries.toNat with error | ⟨whole, header⟩
    · have kind : (Tree.mk (setting text config.maxRecoveries.toNat none).parse.1
          language).rootNode.kind = name errorSymbol := congrArg name error
      rw [kind]
      exact ⟨.inr kinds.1, fun e => absurd e kinds.2.2⟩
    · exact ⟨.inl ((congrArg name whole).trans kinds.2.1), fun _ => header⟩

end Reparse.Header
