/-
Reparse/Proofs/Header/Table.lean

The parse table of the header grammar, as a graph.

Every state but the start has one way into it, so the states below a state on
the stack are always the same: its `path`.  All moves but skips lead to a state
of higher `rank`.
-/
import Reparse.Proofs.Header.Automaton
import Reparse.Proofs.Run.OnStack
import Reparse.Table.Malformed

namespace Reparse.Header

set_option maxRecDepth 4096 in
/-- The table of the header grammar can be loaded. -/
theorem load_header : Table.header.load 0 = .ok language := rfl

/-! ### The graph -/

/-- The states, by how far a parse has come. -/
def states : List StateId :=
  [1, 11, 2, 6, 3, 7, 4, 8, 5, 10, 9, 16, 14, 13, 15, 12]

/-- How far a parse has come in a state. -/
def rank (state : StateId) : Nat :=
  states.idxOf state

/-- The symbols that lead from one state to another. -/
def edges : List (StateId × Symbol × StateId) :=
  [(1, documentErrorToken, 11), (1, leftBracket, 2), (1, leftBracketError, 2),
   (1, leftBracketInner, 2), (1, topNode, 12), (1, document, 13), (1, documentInner, 14),
   (1, documentError, 14),
   (2, documentLiteral, 3), (2, documentLiteralErrorToken, 6), (2, documentLiteralInner, 3),
   (2, documentLiteralError, 3),
   (3, documentLiteralErrorToken, 7), (3, rightBracket, 4), (3, rightBracketInner, 4),
   (3, rightBracketError, 4),
   (4, documentErrorToken, 8), (4, newlineCharacter, 5), (4, newlineCharacterInner, 5),
   (4, newlineCharacterError, 5),
   (5, documentErrorToken, 10), (5, newlineCharacter, 9), (5, newlineCharacterInner, 9),
   (5, newlineCharacterError, 9),
   (9, trailingEndError, 16), (13, eof, 15)]

/-- A state and those below it on the stack. -/
def path (state : StateId) : List StateId :=
  match state.toNat with
  | 2 => [2]
  | 3 => [3, 2]
  | 4 => [4, 3, 2]
  | 5 => [5, 4, 3, 2]
  | 6 => [6, 2]
  | 7 => [7, 3, 2]
  | 8 => [8, 4, 3, 2]
  | 9 => [9, 5, 4, 3, 2]
  | 10 => [10, 5, 4, 3, 2]
  | 11 => [11]
  | 12 => [12]
  | 13 => [13]
  | 14 => [14]
  | 15 => [15, 13]
  | 16 => [16, 9, 5, 4, 3, 2]
  | _ => []

/-- The state on top of a path. -/
def pathTop : List StateId → StateId
  | [] => startState
  | state :: _ => state

/-- The productions that states reduce by, whatever comes next or not. -/
def reductions : List (StateId × Symbol × UInt8) :=
  [(6, documentLiteralError, 1), (7, rightBracketError, 1), (8, newlineCharacterError, 1),
   (9, documentInner, 5), (10, newlineCharacterError, 1), (11, documentError, 1),
   (14, document, 1), (15, topNode, 2), (16, documentInner, 6)]

/-- The states that input may be skipped in. -/
def resting : List StateId := [9, 12, 13, 14]

theorem path_of_mem_edges {state target : StateId} {symbol : Symbol}
    (h : (state, symbol, target) ∈ edges) : path target = target :: path state := by
  have : ∀ edge ∈ edges, path edge.2.2 = edge.2.2 :: path edge.1 := by decide
  exact this _ h

theorem rank_lt_of_mem_edges {state target : StateId} {symbol : Symbol}
    (h : (state, symbol, target) ∈ edges) : rank state < rank target := by
  have : ∀ edge ∈ edges, rank edge.1 < rank edge.2.2 := by decide
  exact this _ h

/-! ### The table -/

/-- The actions of the table: a state, a token, and what to do. -/
def actions : List ((StateId × Symbol) × ParseAction) :=
  [((1, documentErrorToken), .shift 11), ((1, leftBracket), .shift 2),
   ((1, leftBracketError), .shift 2),
   ((2, documentLiteral), .shift 3), ((2, documentLiteralErrorToken), .shift 6),
   ((3, documentLiteralErrorToken), .shift 7), ((3, rightBracket), .shift 4),
   ((4, documentErrorToken), .shift 8), ((4, newlineCharacter), .shift 5),
   ((5, documentErrorToken), .shift 10), ((5, newlineCharacter), .shift 9),
   ((6, documentLiteralErrorToken), .reduce documentLiteralError 1),
   ((6, rightBracket), .reduce documentLiteralError 1),
   ((7, documentErrorToken), .reduce rightBracketError 1),
   ((7, newlineCharacter), .reduce rightBracketError 1),
   ((8, documentErrorToken), .reduce newlineCharacterError 1),
   ((8, newlineCharacter), .reduce newlineCharacterError 1),
   ((9, trailingEndError), .shift 16), ((9, eof), .reduce documentInner 5),
   ((10, trailingEndError), .reduce newlineCharacterError 1),
   ((10, eof), .reduce newlineCharacterError 1),
   ((11, eof), .reduce documentError 1), ((12, endSymbol), .accept), ((13, eof), .shift 15),
   ((14, eof), .reduce document 1), ((15, endSymbol), .reduce topNode 2),
   ((16, eof), .reduce documentInner 6)]

/-- The table has these actions and no others. -/
theorem action?_eq (state : StateId) (symbol : Symbol) :
    language.action? state symbol = actions.lookup (state, symbol) := by
  have size : language.actions.size = 170 := by decide +kernel
  have tokens : language.tokenCount.toNat = 10 := rfl
  -- the array is gone through once, with the index of each entry
  have all : ∀ entry ∈ language.actions.toList.zipIdx, entry.1.filter (· ≠ .recover) =
      actions.lookup (UInt16.ofNat (entry.2 / 10), UInt16.ofNat (entry.2 % 10)) := by
    decide +kernel
  have bounds : ∀ entry ∈ actions, entry.1.1.toNat < 17 ∧ entry.1.2.toNat < 10 := by decide
  rw [Language.action?, tokens]
  by_cases inside : state.toNat < 17 ∧ symbol.toNat < 10
  · obtain ⟨hs, hx⟩ := inside
    have terminal : language.isTerminal symbol = true := by
      rw [Language.isTerminal, decide_eq_true_eq, UInt16.lt_iff_toNat_lt, tokens]
      exact hx
    have within : state.toNat * 10 + symbol.toNat < language.actions.size := by omega
    have e := all (language.actions[state.toNat * 10 + symbol.toNat], state.toNat * 10 + symbol.toNat)
      (List.mem_zipIdx_iff_getElem?.mpr (by simp))
    rw [show (state.toNat * 10 + symbol.toNat) / 10 = state.toNat by omega,
      show (state.toNat * 10 + symbol.toNat) % 10 = symbol.toNat by omega,
      UInt16.ofNat_toNat, UInt16.ofNat_toNat] at e
    rw [if_pos terminal, Array.getElem?_eq_getElem within, ← e]
    rcases language.actions[state.toNat * 10 + symbol.toNat] with - | action
    · rfl
    · cases action <;> rfl
  · have none : actions.lookup (state, symbol) = none := by
      refine List.lookup_eq_none_iff.mpr fun entry m => ?_
      rw [bne_iff_ne]
      intro e
      exact inside (by simpa [← e] using bounds entry m)
    rw [none]
    split
    · rename_i terminal
      rw [Language.isTerminal, decide_eq_true_eq, UInt16.lt_iff_toNat_lt, tokens] at terminal
      rw [Array.getElem?_eq_none (by omega)]
    · rfl

theorem mem_actions {state : StateId} {symbol : Symbol} {action : ParseAction}
    (h : language.action? state symbol = some action) : ((state, symbol), action) ∈ actions := by
  rw [action?_eq, List.lookup_eq_some_iff] at h
  obtain ⟨before, after, e, -⟩ := h
  rw [e]
  simp

/-- Whether an action on a symbol is in the graph. -/
def drawn (state : StateId) (symbol : Symbol) : ParseAction → Bool
  | .shift target => (state, symbol, target) ∈ edges
  | .reduce made count => (state, made, count) ∈ reductions
  | .accept => state = 12 && symbol = endSymbol
  | .recover => false

theorem drawn_of_action? {state : StateId} {symbol : Symbol} {action : ParseAction}
    (h : language.action? state symbol = some action) : drawn state symbol action = true := by
  have all : ∀ entry ∈ actions, drawn entry.1.1 entry.1.2 entry.2 = true := by decide
  exact all _ (mem_actions h)

theorem mem_edges_of_shift {state target : StateId} {symbol : Symbol}
    (h : language.action? state symbol = some (.shift target)) :
    (state, symbol, target) ∈ edges := by
  simpa [drawn] using drawn_of_action? h

theorem mem_reductions_of_reduce {state : StateId} {symbol made : Symbol} {count : UInt8}
    (h : language.action? state symbol = some (.reduce made count)) :
    (state, made, count) ∈ reductions := by
  simpa [drawn] using drawn_of_action? h

theorem eq_of_accept {state : StateId} {symbol : Symbol}
    (h : language.action? state symbol = some .accept) : state = 12 ∧ symbol = endSymbol := by
  simpa [drawn] using drawn_of_action? h

theorem mem_reductions_of_default {state : StateId} {made : Symbol} {count : UInt8}
    (h : language.defaultReduction? state = some (made, count)) :
    (state, made, count) ∈ reductions := by
  have size : language.defaultReductions.size = 17 := by decide
  have all : ∀ i : Fin 17, (language.defaultReduction? (UInt16.ofNat i)).all
      (fun found => (UInt16.ofNat i, found.1, found.2) ∈ reductions) = true := by
    decide
  rcases Nat.lt_or_ge state.toNat 17 with inside | outside
  · simpa [h] using all ⟨_, inside⟩
  · rw [Language.defaultReduction?, Array.getElem?_eq_none (by omega)] at h
    simp at h

theorem repairs_eq_nil_of_le {state : StateId} (h : 17 ≤ state.toNat) :
    language.repairs state = [] := by
  have size : language.recoveryGotos.size = 17 := by decide
  rw [Language.repairs, Array.getElem?_eq_none (by omega)]
  rfl

theorem mem_edges_of_repair {state target : StateId} {symbol : Symbol}
    (h : (symbol, target) ∈ language.repairs state) : (state, symbol, target) ∈ edges := by
  have all : ∀ i : Fin 17, ∀ repair ∈ language.repairs (UInt16.ofNat i),
      (UInt16.ofNat i, repair.1, repair.2) ∈ edges := by
    decide
  rcases Nat.lt_or_ge state.toNat 17 with inside | outside
  · simpa using all ⟨_, inside⟩ (symbol, target) (by simpa using h)
  · rw [repairs_eq_nil_of_le outside] at h
    simp at h

/-- The states with error productions. -/
theorem mem_of_repairs_ne_nil {state : StateId} (h : language.repairs state ≠ []) :
    state ∈ ([1, 2, 3, 4, 5] : List StateId) := by
  have all : ∀ i : Fin 17, language.repairs (UInt16.ofNat i) ≠ [] →
      UInt16.ofNat i ∈ ([1, 2, 3, 4, 5] : List StateId) := by
    decide
  rcases Nat.lt_or_ge state.toNat 17 with inside | outside
  · simpa using all ⟨_, inside⟩ (by simpa using h)
  · exact absurd (repairs_eq_nil_of_le outside) h

theorem showsRepairs : language.ShowsRepairs where
  repairs {state symbol target} h := by
    have all : ∀ i : Fin 17, ∀ repair ∈ language.repairs (UInt16.ofNat i),
        (Subtree.symbolMarks language repair.1).recovery = true := by
      decide
    rcases Nat.lt_or_ge state.toNat 17 with inside | outside
    · simpa using all ⟨_, inside⟩ (symbol, target) (by simpa using h)
    · rw [repairs_eq_nil_of_le outside] at h
      simp at h
  visible {symbol} h := by
    have size : language.symbols.size = 21 := by decide
    have all : ∀ i : Fin 21, (Subtree.symbolMarks language (UInt16.ofNat i)).recovery = true →
        (Subtree.symbolMarks language (UInt16.ofNat i)).visible = true := by
      decide
    rcases Nat.lt_or_ge symbol.toNat 21 with inside | outside
    · simpa using all ⟨_, inside⟩ (by simpa using h)
    · rw [Subtree.symbolMarks, Language.flags, Array.getElem?_eq_none (by omega)] at h
      split at h
      · exact absurd h (by decide)
      · exact absurd h (by decide)

/-- Behind a nonterminal the table follows the edge. -/
theorem goto?_of_mem_edges {state target : StateId} {made : Symbol}
    (h : (state, made, target) ∈ edges) (nonterminal : language.isTerminal made = false) :
    language.goto? state made = some target := by
  have all : ∀ edge ∈ edges, language.isTerminal edge.2.1 = false →
      language.goto? edge.1 edge.2.1 = some edge.2.2 := by
    decide +kernel
  exact all _ h nonterminal

/-- The state below a reduction goes on behind the symbol that was made. -/
theorem goto?_of_mem_reductions {state : StateId} {made : Symbol} {count : UInt8}
    (h : (state, made, count) ∈ reductions) :
    count.toNat ≤ (path state).length ∧
      ∃ target, language.goto? (pathTop ((path state).drop count.toNat)) made = some target ∧
        (pathTop ((path state).drop count.toNat), made, target) ∈ edges ∧
        rank state < rank target ∧ (state ∈ resting → target ∈ resting) := by
  have all : ∀ entry ∈ reductions, entry.2.2.toNat ≤ (path entry.1).length ∧
      language.isTerminal entry.2.1 = false ∧
      ∃ edge ∈ edges, edge.1 = pathTop ((path entry.1).drop entry.2.2.toNat) ∧
        edge.2.1 = entry.2.1 ∧ rank entry.1 < rank edge.2.2 ∧
        (entry.1 ∈ resting → edge.2.2 ∈ resting) := by
    decide
  obtain ⟨enough, nonterminal, ⟨below, symbol, target⟩, edge, under, same, higher, rests⟩ := all _ h
  rw [show below = _ from under, show symbol = made from same] at edge
  exact ⟨enough, target, goto?_of_mem_edges edge nonterminal, edge, higher, rests⟩

end Reparse.Header
