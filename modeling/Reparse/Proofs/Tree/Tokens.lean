/-
Reparse/Proofs/Tree/Tokens.lean

What the tokens of a tree have to do with the lexer.

A token is read for some state, and it is put into the tree later, by a shift or
by a repair, behind reductions or behind a default reduction that leaves it in
front of another state.  It keeps the state it was read for, and no move
changes the extent of a token that is not an error.  So wherever it ends up,
the lexer finds it there once more: `tokens_of_parse`.
-/
import Reparse.Proofs.Subtree.Descent
import Reparse.Proofs.Tree.Grown

namespace Reparse

namespace Subtree

variable {language : Language} {text : Text} {start : Nat}

/-! ### Tokens that the lexer finds -/

/-- A token as the lexer tells of it. -/
def lexeme (tree : Subtree) : Lexeme :=
  { symbol := tree.symbol, padding := tree.padding, size := tree.size, lookahead := tree.lookahead }

/-- Whether the lexer finds a token where it stands: in the lex state of the
state it was read for or, where there is nothing to find in that one, in the lex
state of the error state.  Neither an error nor the end of the text has to be
found. -/
def Lexed (language : Language) (text : Text) (start : Nat) (tree : Subtree) : Prop :=
  tree.marks.token = true → tree.symbol ≠ errorSymbol → tree.symbol ≠ endSymbol →
    language.lexeme? text start (language.lexMode tree.parseState) = some tree.lexeme ∨
      (language.lexeme? text start (language.lexMode tree.parseState) = none ∧
        language.lexeme? text start (language.lexMode errorState) = some tree.lexeme)

/-- A subtree as a parse makes it: if it is a token, then the lexer finds it. -/
structure Genuine (language : Language) (text : Text) (start : Nat) (tree : Subtree) : Prop where
  intact : Intact language tree
  lexed : Lexed language text start tree

/-- Nodes are none of the lexer's business. -/
theorem genuine_of_inner {tree : Subtree} (intact : Intact language tree)
    (inner : tree.marks.token = false) : Genuine language text start tree where
  intact := intact
  lexed token := by
    rw [inner] at token
    cases token

/-- Nor are the tokens that a parse makes without it. -/
theorem genuine_token {symbol : Symbol} (made : symbol = errorSymbol ∨ symbol = endSymbol)
    (padding size lookahead : Nat) (state : StateId) :
    Genuine language text start (token language symbol padding size lookahead state) where
  intact := intact_token ..
  lexed _ error stop := by
    rcases made with rfl | rfl
    · exact absurd rfl error
    · exact absurd rfl stop

/-- What is read at a position is found there. -/
theorem genuine_lookahead (language : Language) (text : Text) (position : Nat) (state : StateId) :
    Genuine language text position (language.lookahead text position state).token := by
  have read := language.tokenAt_lookahead text position state
  generalize (language.lookahead text position state).token = token at read ⊢
  cases read with
  | @lexeme mode lexeme which found =>
    -- a lexeme becomes a token that tells the same
    refine ⟨intact_token .., fun _ _ _ => ?_⟩
    show language.lexeme? text position (language.lexMode state) = some lexeme ∨
      (language.lexeme? text position (language.lexMode state) = none ∧
        language.lexeme? text position (language.lexMode errorState) = some lexeme)
    rcases which with rfl | ⟨rfl, none⟩
    · exact .inl found
    · exact .inr ⟨none, found⟩
  | character => exact genuine_token (.inl rfl) ..
  | stop => exact genuine_token (.inr rfl) ..

/-- **Recovery takes no token apart and puts none together** but errors. -/
theorem recoveryKeeps_genuine (consistent : language.Consistent) (text : Text) :
    RecoveryKeeps language (Genuine language text) where
  intact h := h.intact
  missing repair _ := genuine_of_inner (intact_missing (consistent.repairs repair).2.2 _) rfl
  wrapped _ _ _ _ := genuine_of_inner (intact_node ..) (by rw [marks_node]; rfl)
  skipped _ _ := genuine_of_inner (intact_errorNode ..) (by rw [marks_errorNode]; rfl)
  joined h error _ _ _ _ _ := by
    obtain ⟨symbol, token⟩ := isErrorToken_iff.mp error
    exact
      { intact := h.intact.extended token _ _
        lexed := fun _ proper => absurd symbol proper }

end Subtree

open Subtree

/-! ### Whole parses -/

section Parse

variable {setting : Setting} {run : Run}

/-- The token in front of a run is where the lexer finds it. -/
theorem HoldsOnStack.genuine_current
    (h : HoldsOnStack (Genuine setting.language setting.text) setting run) :
    Genuine setting.language setting.text run.position (run.current setting).token := by
  obtain ⟨state, read, -⟩ := h.reads.current
  rw [read]
  exact genuine_lookahead ..

/-- **A step leaves the tokens where they are found.** -/
theorem HoldsOnStack.genuine_turn (consistent : setting.language.Consistent)
    (h : HoldsOnStack (Genuine setting.language setting.text) setting run) {next : Run}
    (running : run.turn setting = .running next) :
    HoldsOnStack (Genuine setting.language setting.text) setting next := by
  obtain ⟨state, read, -⟩ := h.reads.current
  apply h.make (recoveryKeeps_genuine consistent _) (Run.choice_moveOn setting run _) read
    h.genuine_current ?_ running
  intro symbol _ children rest _ _ _ _ _
  -- what a reduction makes is a node
  apply genuine_of_inner
  · exact (intact_node symbol children rest.top).needing _
  · rw [marks_needing, marks_node]
    rfl

/-- The root of a parse is a node around what is on the stack and the token in front. -/
theorem genuine_root {root : Subtree}
    (h : HoldsBelowRoot setting.language (Genuine setting.language setting.text) root) :
    Everywhere (Genuine setting.language setting.text) 0 root := by
  obtain ⟨below, symbol, state, made⟩ := h
  refine everywhere_iff.mpr ⟨?_, below⟩
  rw [made]
  exact genuine_of_inner (intact_node ..) (by rw [marks_node]; rfl)

/-- **However a fresh parse ends**, the tokens of its root are those that the lexer finds. -/
theorem genuine_parse (fresh : setting.old = none) (consistent : setting.language.Consistent) :
    (∀ steps root reused, Progress.advance setting steps (.running {}) = .finished root reused →
      Everywhere (Genuine setting.language setting.text) 0 root) ∧
    Everywhere (Genuine setting.language setting.text) 0 setting.parse.1 := by
  have keeps := recoveryKeeps_genuine consistent setting.text
  have stop (start : Nat) : Genuine setting.language setting.text start
      (token setting.language endSymbol 0 0 0 errorState) := genuine_token (.inr rfl) ..
  have remains (start size : Nat) : Genuine setting.language setting.text start
      (token setting.language errorSymbol 0 size 0 errorState) := genuine_token (.inl rfl) ..
  apply Run.fresh_parse fresh (I := HoldsOnStack (Genuine setting.language setting.text) setting)
  · exact holdsOnStack_start
  · intro run next h running
    exact h.genuine_turn consistent running
  · intro run root reused h finished
    exact genuine_root (h.finished keeps h.genuine_current stop remains finished)
  · intro run h
    exact genuine_root (h.gaveUp keeps h.genuine_current stop remains)

end Parse

/-- **Tokens in a tree are what the lexer says is there.**  However a fresh parse
of a loaded language ends, the lexer finds each token of its tree at the place
where it stands, with its symbol and its extents, in the lex state of the state
that it was read for; where that one finds nothing, in that of the error state. -/
theorem tokens_of_parse (table : Table) (origin : Nat) (language : Language)
    (loaded : table.load origin = .ok language) (config : Config) (text : Text) :
    (∀ steps root reused, Progress.advance (config.setting language text none) steps
      (.running {}) = .finished root reused → Everywhere (Lexed language text) 0 root) ∧
    Everywhere (Lexed language text) 0 (language.parse config text none).1.root := by
  obtain ⟨finished, parsed⟩ := @genuine_parse (config.setting language text none)
    (config.setting_old language text) (Table.consistent_of_load loaded)
  constructor
  · intro steps root reused done
    exact (finished steps root reused done).mono fun _ _ genuine => genuine.lexed
  · rw [Language.parse_fst]
    exact parsed.mono fun _ _ genuine => genuine.lexed

/-- A second letter is read for the state behind the first one.  That state reduces, nothing can be
done with the letter behind the word, and it is skipped; the lexer finds it in its place. -/
theorem tokens_of_parse_skipped :
    ∃ token, (Word.language.parse {} " a a".toList none).1.root.descend? [1, 0] = some (2, token) ∧
      token.symbol = Word.letter ∧ token.parseState = 2 ∧
      Word.language.lexeme? " a a".toList 2 0 = some token.lexeme := by
  obtain ⟨⟨_, token⟩, there, same⟩ := Option.map_eq_some_iff.mp
    (show ((Word.language.parse {} " a a".toList none).1.root.descend? [1, 0]).map (fun node =>
      (node.1, node.2.marks.token, node.2.symbol, node.2.parseState)) =
        some (2, true, Word.letter, 2) by decide +kernel)
  simp only [Prod.mk.injEq] at same
  obtain ⟨rfl, atom, letter, state⟩ := same
  have everywhere := (tokens_of_parse _ 0 Word.language Word.load_encode {} " a a".toList).2
  have lexed := everywhere_iff_descend?.mp everywhere [1, 0] 2 token there atom
    (by rw [letter]; decide) (by rw [letter]; decide)
  rw [state] at lexed
  refine ⟨token, there, letter, state, ?_⟩
  -- the lex state is the same for all states
  rcases lexed with own | ⟨-, fallback⟩
  · exact own
  · exact fallback

end Reparse
