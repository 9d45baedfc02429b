/-
Reparse/Proofs/Header/Fresh.lean

Subtrees that belong to the text in front of them.

A parse may take over a subtree of an old tree if it would come to the same
subtree by itself.  `Fresh` says so of the text ahead: a token that some state
may shift is the one that its lex mode finds there, and a document without
errors is the header there, up to the NUL character behind it.  Both depend on
no more text than the subtree says: `Fresh.local`.
-/
import Reparse.Proofs.Header.Shape

namespace Reparse.Header

open Subtree
open Scan (found?)

/-! ### Headers as subtrees -/

/-- Text that is skipped behind a header, or is white space there. -/
def Calm (text : Text) : Prop :=
  ∀ c ∈ text, c ≠ '\x00' ∧ c ≠ '\n' ∧ c ≠ ' '

theorem Calm.append {a b : Text} (ha : Calm a) (hb : Calm b) : Calm (a ++ b) := by
  intro c m
  exact (List.mem_append.mp m).elim (ha c) (hb c)

/-- The tokens of a header under one node. -/
def innerOf (stack : Stack) : Subtree :=
  (node language documentInner stack.subtrees 0).bare

/-- The document of a header. -/
def documentOf (stack : Stack) : Subtree :=
  (node language document [innerOf stack] 0).bare

/-- The subtree of a symbol that stands for a header. -/
def headerOf (symbol : Symbol) (stack : Stack) : Subtree :=
  if symbol = document then documentOf stack else innerOf stack

@[simp] theorem totalSize_headerOf (symbol : Symbol) (stack : Stack) :
    (headerOf symbol stack).totalSize = totalSizes stack.subtrees := by
  have inner : (innerOf stack).totalSize = totalSizes stack.subtrees := by
    rw [innerOf, bare_totalSize, totalSize_node]
  rw [headerOf]
  split
  · rw [documentOf, bare_totalSize, totalSize_node, totalSizes, inner, totalSizes, Nat.add_zero]
  · exact inner

/-- What a slot takes it takes in front of any other text as well. -/
theorem Slot.Takes.local {slot : Slot} {text rest : Text} {padding size : Nat}
    (h : slot.Takes text padding size rest) :
    ∃ taken, text = taken ++ rest ∧ ∀ other, slot.Takes (taken ++ other) padding size other := by
  cases h with
  | opening => exact ⟨['['], rfl, fun _ => .opening⟩
  | @word breaks blanks rest hb hs => exact ⟨breaks ++ blanks ++ literal, rfl, fun _ => .word hb hs⟩
  | closing => exact ⟨[']'], rfl, fun _ => .closing⟩
  | newline => exact ⟨['\n'], rfl, fun _ => .newline⟩
  | lastNewline => exact ⟨['\n'], rfl, fun _ => .lastNewline⟩

/-- A header is the same whatever comes behind it. -/
theorem ReadUpTo.local {text rest : Text} {place : Option Slot} {stack : Stack}
    (h : ReadUpTo text place stack rest) :
    ∃ taken, text = taken ++ rest ∧ Text.size taken = totalSizes stack.subtrees ∧
      ∀ other, ReadUpTo (taken ++ other) place stack other := by
  obtain ⟨taken, split, width, -⟩ := h.split
  refine ⟨taken, split, width, fun other => ?_⟩
  clear width
  induction h generalizing taken other with
  | start =>
    obtain rfl := List.self_eq_append_left.mp split
    exact .start
  | @fill slot stack rest more padding size before takes ih =>
    obtain ⟨front, rfl, swaps⟩ := takes.local
    obtain ⟨early, e, -⟩ := before.split
    rw [e, ← List.append_assoc] at split
    obtain rfl := List.append_cancel_right split
    have filled := ih early e (front ++ other)
    rw [← List.append_assoc] at filled
    exact .fill filled (swaps other)

/-- Whether a subtree is the header of a text, and depends on all that comes
behind it up to a NUL character. -/
def Heads (text : Text) (tree : Subtree) : Prop :=
  ∃ stack calm more, ReadUpTo text none stack (calm ++ '\x00' :: more) ∧ Calm calm ∧
    tree.bare = headerOf tree.symbol stack ∧
    totalSizes stack.subtrees + Text.size calm + 1 ≤ tree.totalSize + tree.lookahead

theorem Heads.local {front more : Text} {tree : Subtree} (h : Heads (front ++ more) tree)
    (short : tree.totalSize + tree.lookahead < Text.size front) (other : Text) :
    Heads (front ++ other) tree := by
  obtain ⟨stack, calm, behind, filled, quiet, same, reach⟩ := h
  obtain ⟨taken, split, width, swaps⟩ := filled.local
  have nul : Text.size (taken ++ (calm ++ ['\x00'])) =
      totalSizes stack.subtrees + Text.size calm + 1 := by
    rw [Text.size_append, Text.size_append, width, ← Nat.add_assoc]
    rfl
  rw [show taken ++ (calm ++ '\x00' :: behind) = taken ++ (calm ++ ['\x00']) ++ behind by simp]
    at split
  -- the NUL character lies in the text that stays
  rcases List.append_eq_append_iff.mp split with ⟨gap, e, -⟩ | ⟨gap, e, -⟩
  · rw [e, Text.size_append] at nul
    omega
  · refine ⟨stack, calm, gap ++ other, ?_, quiet, same, reach⟩
    rw [e, show taken ++ (calm ++ ['\x00']) ++ gap ++ other =
      taken ++ (calm ++ '\x00' :: (gap ++ other)) by simp]
    exact swaps _

/-! ### Tokens -/

/-- Whether a subtree is the token that its lex mode finds in a text. -/
def LexedAtFront (text : Text) (tree : Subtree) : Prop :=
  ∃ lexeme, language.lexeme? text 0 (language.lexMode tree.parseState) = some lexeme ∧
    tree = Subtree.token language lexeme.symbol lexeme.padding lexeme.size lexeme.lookahead
      tree.parseState

theorem lexeme?_zero (text : Text) (mode : LexStateId) :
    language.lexeme? text 0 mode = (Scan.follow language { state := mode } text).lexeme? :=
  Scan.lexeme?_of_drop? (Text.drop?_zero text) mode

theorem LexedAtFront.local {front more : Text} (small : Text.size (front ++ more) < UInt32.size)
    {tree : Subtree} (h : LexedAtFront (front ++ more) tree)
    (short : tree.totalSize + tree.lookahead < Text.size front) (other : Text) :
    LexedAtFront (front ++ other) tree := by
  obtain ⟨lexeme, found, e⟩ := h
  have size : tree.totalSize + tree.lookahead =
      lexeme.padding + lexeme.size + lexeme.lookahead := by
    rw [e]
    rfl
  rw [lexeme?_zero] at found
  rw [size] at short
  have whole : lexeme.padding + lexeme.size + lexeme.lookahead < Text.size (front ++ more) := by
    rw [Text.size_append]
    exact Nat.lt_add_right _ short
  have again := Scan.lexeme?_local small found whole (Nat.le_of_lt short) other
  exact ⟨lexeme, by rw [lexeme?_zero, again], e⟩

/-- A token is read again in any state of its lex mode. -/
theorem LexedAtFront.token_bare {text : Text} {tree : Subtree} (h : LexedAtFront text tree)
    {state : StateId}
    (mode : language.lexMode tree.parseState = language.lexMode state) :
    (language.lookahead text 0 state).token.bare = tree.bare := by
  obtain ⟨lexeme, found, e⟩ := h
  rw [mode] at found
  rw [e]
  simp [Language.lookahead, found]

/-- The fallback mode never finds a token that a state of the lex mode is
waiting for. -/
theorem lexedAtFront_lookahead (text : Text) {state other target : StateId}
    (mode : language.lexMode other = language.lexMode state)
    (shift : language.action? other (language.lookahead text 0 state).token.symbol =
      some (.shift target)) : LexedAtFront text (language.lookahead text 0 state).token := by
  rcases own : language.lexeme? text 0 (language.lexMode state) with - | lexeme
  · have nothing : found? language { state := language.lexMode state } text = none := by
      rw [Scan.found?_eq_none_iff, ← lexeme?_zero, own]
    rcases fallback : found? language { state := 0 } text with - | ⟨symbol, padding, size⟩
    · -- a skipped character is no token of any state
      cases text with
      | nil => exact absurd fallback (by decide)
      | cons c more =>
        rw [← bare_symbol, lookahead_of_nothing nothing fallback, leaf_symbol] at shift
        exact absurd rfl (ne_errorSymbol_of_action? shift)
    · -- a token of the fallback mode is shifted only where that mode is the own one, or by a slot
      rw [← bare_symbol, lookahead_low_of_fallback nothing fallback, leaf_symbol] at shift
      have all : ∀ edge ∈ edges, edge.2.1 ∈ finds 0 → language.lexMode edge.1 = 0 ∨
          ∃ slot ∈ [Slot.opening, .word, .closing], slot.state = edge.1 ∧
            slot.symbol = edge.2.1 := by decide
      have known := (found?_mem_finds (by decide) fallback).1
      rcases all _ (mem_edges_of_shift shift) known with zero | ⟨slot, -, here, same⟩
      · rw [← mode, zero, fallback] at nothing
        cases nothing
      · rw [← mode, ← show slot.state = other from here] at nothing
        have misfit : ¬ ∃ padding size rest, slot.Takes text padding size rest := by
          rintro ⟨_, _, _, takes⟩
          rw [Slot.found?_of_takes takes] at nothing
          cases nothing
        rcases Slot.found?_of_misfit misfit with ⟨-, _, _, found⟩ | ⟨-, _, _, _, -, found⟩ |
          ⟨-, -, _, ⟨found, -⟩ | found⟩
        · rw [nothing] at found
          cases found
        · rw [nothing] at found
          cases found
        · rw [fallback] at found
          cases found
          cases slot <;> cases same
        · rw [fallback] at found
          cases found
          cases slot <;> cases same
  · -- a token of the own mode is what was to be shown
    have e : (language.lookahead text 0 state).token = Subtree.token language lexeme.symbol
        lexeme.padding lexeme.size lexeme.lookahead state := by
      simp [Language.lookahead, own]
    rw [e]
    exact ⟨lexeme, own, rfl⟩

/-! ### Fresh subtrees -/

/-- Whether a subtree is one that a parse of a text would come to, as far as
another parse may take it over. -/
structure Fresh (text : Text) (tree : Subtree) : Prop where
  sturdy : Sturdy tree
  made : tree.symbol ∉ unmade
  token : ∀ state target, language.lexMode state = language.lexMode tree.parseState →
    language.action? state tree.symbol = some (.shift target) → LexedAtFront text tree
  header : tree.symbol ∈ [document, documentInner] → tree.marks.hasError = false →
    Heads text tree

/-- **A fresh subtree stays fresh** if the text changes behind what it depends on. -/
theorem Fresh.local {front more : Text} (small : Text.size (front ++ more) < UInt32.size)
    {tree : Subtree} (h : Fresh (front ++ more) tree)
    (short : tree.totalSize + tree.lookahead < Text.size front) (other : Text) :
    Fresh (front ++ other) tree where
  sturdy := h.sturdy
  made := h.made
  token state target mode shift := (h.token state target mode shift).local small short other
  header symbol fine := (h.header symbol fine).local short other

theorem action?_inner {symbol : Symbol} (inner : language.isTerminal symbol = false)
    (state : StateId) : language.action? state symbol = none := by
  rw [Language.action?, inner, if_neg Bool.false_ne_true]

/-- A node whose symbol has no rule belongs to any text. -/
theorem fresh_simple {tree : Subtree} (sturdy : Sturdy tree)
    (inner : language.isTerminal tree.symbol = false)
    (simple : tree.symbol ∉ unmade ++ rules.map (·.1)) (text : Text) : Fresh text tree where
  sturdy := sturdy
  made m := simple (List.mem_append_left _ m)
  token state target _ shift := by
    rw [action?_inner inner] at shift
    cases shift
  header m _ := by
    have all : ∀ symbol ∈ [document, documentInner], symbol ∈ rules.map (·.1) := by decide
    exact absurd (List.mem_append_right _ (all _ m)) simple

/-- The token of a state belongs to the text it was read from. -/
theorem fresh_lookahead (text : Text) (position : Nat) (state : StateId) :
    Fresh (text.ahead position) (language.lookahead text position state).token := by
  rw [Language.lookahead_ahead]
  generalize text.ahead position = rest
  have shaped := shaped_lookahead rest 0 state
  obtain ⟨_, _, _, _, token⟩ := lookahead_token language rest 0 state
  have parseState : (language.lookahead rest 0 state).token.parseState = state := by
    rw [token]
    rfl
  refine ⟨sturdy_lookahead .., shaped.made, fun other target mode shift => ?_, fun m _ => ?_⟩
  · rw [parseState] at mode
    exact lexedAtFront_lookahead rest mode shift
  · have all : ∀ symbol ∈ [document, documentInner], symbol ∈ rules.map (·.1) := by decide
    have atom : (language.lookahead rest 0 state).token.marks.token = true := by
      rw [token]
      rfl
    rw [shaped.inner (all _ m)] at atom
    cases atom

theorem recoveryKeeps_fresh (text : Text) :
    RecoveryKeeps language fun position tree => Fresh (text.ahead position) tree where
  intact h := h.sturdy.intact
  missing repair start := fresh_simple (recoveryKeeps_sturdy.missing repair start)
    (isTerminal_eq_false_of_repair repair) (simple_of_repair repair) _
  wrapped {_ symbol _} repair start token h := by
    have same := @symbol_node language symbol [token]
    exact fresh_simple
      (@RecoveryKeeps.wrapped _ _ recoveryKeeps_sturdy _ _ _ repair start token h.sturdy)
      (by rw [same]; exact isTerminal_eq_false_of_repair repair)
      (by rw [same]; exact simple_of_repair repair) _
  skipped {start children} row state := by
    refine fresh_simple (recoveryKeeps_sturdy.skipped (row.mono fun _ _ h => h.sturdy) state)
      ?_ ?_ _
    · rw [symbol_errorNode]
      decide
    · rw [symbol_errorNode]
      decide
  joined {start first} h error second h' error' lookahead which := by
    have symbol : (first.extended (first.size + second.totalSize) lookahead).symbol = errorSymbol :=
      (isErrorToken_iff.mp error).1
    have sturdy := @RecoveryKeeps.joined _ _ recoveryKeeps_sturdy start _ h.sturdy error _
      h'.sturdy error' lookahead which
    refine fresh_simple sturdy ?_ ?_ _
    · rw [symbol]
      decide
    · rw [symbol]
      decide

end Reparse.Header
