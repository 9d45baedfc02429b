/-
Reparse/Proofs/Language/Consistent.lean

What a loaded language can be relied on for.

Loading looks for faults in the lists of a grammar.  It finds none just where
all the lists lead to where there is something: `Grammar.fault?_eq_none_iff`.
A parser looks things up in the dense tables made of the lists, which keep what
is listed last.  `Language.Consistent` says the same in terms of the tables:
they have a row for each state, and whatever is looked up leads to where there
is something.
-/
import Reparse.Language.Load
import Reparse.Subtree

namespace Reparse

/-! ### Consistent grammars -/

/-- Whether a symbol is a nonterminal of the symbol table. -/
def Grammar.IsNonterminal (grammar : Grammar) (symbol : Symbol) : Prop :=
  grammar.tokenCount.toNat ≤ symbol.toNat ∧ symbol.toNat < grammar.symbols.length

/-- A lex state that accepts a terminal, if anything, and steps to lex states. -/
structure LexState.Consistent (grammar : Grammar) (state : LexState) : Prop where
  accepts : ∀ symbol ∈ state.accept, symbol.toNat < grammar.tokenCount.toNat
  steps : ∀ transition ∈ state.transitions,
    transition.step.target.toNat < grammar.lexStates.length
  ends : ∀ step ∈ state.atEnd, step.target.toNat < grammar.lexStates.length

/-- A parse state with actions on terminals and gotos on nonterminals that lead to
parse states and reduce to nonterminals. -/
structure ParseState.Consistent (grammar : Grammar) (state : ParseState) : Prop where
  mode : state.lexState.toNat < grammar.lexStates.length
  keys : ∀ entry ∈ state.actions, entry.1.toNat < grammar.tokenCount.toNat
  shifts : ∀ entry ∈ state.actions, ∀ target, entry.2 = .shift target →
    target.toNat < grammar.parseStates.length
  reduces : ∀ entry ∈ state.actions, ∀ made count, entry.2 = .reduce made count →
    grammar.IsNonterminal made
  gotoKeys : ∀ entry ∈ state.gotos, grammar.IsNonterminal entry.1
  gotos : ∀ entry ∈ state.gotos, entry.2.toNat < grammar.parseStates.length

/-- A grammar with terminals and a start state, not too many of anything, all of whose
states are consistent and one of which accepts. -/
structure Grammar.Consistent (grammar : Grammar) : Prop where
  terminals : 1 ≤ grammar.tokenCount.toNat
  tokens : grammar.tokenCount.toNat ≤ grammar.symbols.length
  symbols : grammar.symbols.length < 65535
  startState : 2 ≤ grammar.parseStates.length
  states : grammar.parseStates.length ≤ 65536
  entries : grammar.parseStates.length * grammar.symbols.length ≤ 0x400000
  eachLexState : ∀ state ∈ grammar.lexStates, state.Consistent grammar
  eachParseState : ∀ state ∈ grammar.parseStates, state.Consistent grammar
  accepts : ∃ state ∈ grammar.parseStates, ∃ entry ∈ state.actions, entry.2 = .accept

namespace Grammar

variable {grammar : Grammar}

theorem isTerminal_iff {symbol : Symbol} :
    grammar.isTerminal symbol = true ↔ symbol.toNat < grammar.tokenCount.toNat := by
  simp [isTerminal, UInt16.lt_iff_toNat_lt]

theorem isNonterminal_iff {symbol : Symbol} :
    grammar.isNonterminal symbol = true ↔ grammar.IsNonterminal symbol := by
  simp [isNonterminal, IsNonterminal, UInt16.le_iff_toNat_le]

theorem Consistent.ne_errorSymbol (h : grammar.Consistent) {symbol : Symbol}
    (nonterminal : grammar.IsNonterminal symbol) : symbol ≠ errorSymbol := by
  rintro rfl
  exact Nat.lt_asymm nonterminal.2 h.symbols

theorem sizeFault?_eq_none_iff : grammar.sizeFault? = none ↔
    1 ≤ grammar.tokenCount.toNat ∧ grammar.tokenCount.toNat ≤ grammar.symbols.length ∧
      grammar.symbols.length < 65535 ∧ 2 ≤ grammar.parseStates.length ∧
      grammar.parseStates.length ≤ 65536 ∧
      grammar.parseStates.length * grammar.symbols.length ≤ 0x400000 := by
  have error : errorSymbol.toNat = 65535 := rfl
  have start : Reparse.startState.toNat = 1 := rfl
  simp only [sizeFault?, error, start, maxStates, maxTableEntries]
  grind

theorem lexFault?_eq_none_iff {state : LexState} {index : Nat} :
    grammar.lexFault? state index = none ↔ state.Consistent grammar := by
  have parts : grammar.lexFault? state index = none ↔
      (∀ symbol ∈ state.accept, symbol.toNat < grammar.tokenCount.toNat) ∧
        (∀ transition ∈ state.transitions,
          transition.step.target.toNat < grammar.lexStates.length) ∧
        ∀ step ∈ state.atEnd, step.target.toNat < grammar.lexStates.length := by
    simp only [lexFault?, Option.orElse_eq_orElse, Option.orElse_eq_or, Option.or_eq_none_iff,
      List.findSome?_eq_none_iff, List.forall_mem_append, List.forall_mem_map]
    refine and_congr ?_ (and_congr (by simp) (by simp))
    rcases state.accept with - | symbol <;> simp [isTerminal_iff]
  exact parts.trans ⟨fun ⟨accepts, steps, ends⟩ => ⟨accepts, steps, ends⟩,
    fun h => ⟨h.accepts, h.steps, h.ends⟩⟩

theorem actionFault?_eq_none_iff {index : Nat} {key : Symbol} {action : ParseAction} :
    grammar.actionFault? index (key, action) = none ↔
      key.toNat < grammar.tokenCount.toNat ∧
        (∀ target, action = .shift target → target.toNat < grammar.parseStates.length) ∧
        ∀ made count, action = .reduce made count → grammar.IsNonterminal made := by
  simp only [actionFault?, ← isTerminal_iff, ← isNonterminal_iff]
  cases grammar.isTerminal key with
  | false => simp
  | true => cases action <;> simp

theorem gotoFault?_eq_none_iff {index : Nat} {key : Symbol} {target : StateId} :
    grammar.gotoFault? index (key, target) = none ↔
      grammar.IsNonterminal key ∧ target.toNat < grammar.parseStates.length := by
  simp only [gotoFault?, ← isNonterminal_iff]
  cases grammar.isNonterminal key <;> simp

theorem parseFault?_eq_none_iff {state : ParseState} {index : Nat} :
    grammar.parseFault? state index = none ↔ state.Consistent grammar := by
  have parts : grammar.parseFault? state index = none ↔
      state.lexState.toNat < grammar.lexStates.length ∧
        (∀ entry ∈ state.actions, grammar.actionFault? index entry = none) ∧
        ∀ entry ∈ state.gotos, grammar.gotoFault? index entry = none := by
    simp [parseFault?]
  rw [parts]
  constructor
  · rintro ⟨mode, actions, gotos⟩
    exact
      { mode
        keys := fun entry m => (actionFault?_eq_none_iff.mp (actions entry m)).1
        shifts := fun entry m => (actionFault?_eq_none_iff.mp (actions entry m)).2.1
        reduces := fun entry m => (actionFault?_eq_none_iff.mp (actions entry m)).2.2
        gotoKeys := fun entry m => (gotoFault?_eq_none_iff.mp (gotos entry m)).1
        gotos := fun entry m => (gotoFault?_eq_none_iff.mp (gotos entry m)).2 }
  · intro h
    exact ⟨h.mode,
      fun entry m => actionFault?_eq_none_iff.mpr ⟨h.keys entry m, h.shifts entry m, h.reduces entry m⟩,
      fun entry m => gotoFault?_eq_none_iff.mpr ⟨h.gotoKeys entry m, h.gotos entry m⟩⟩

/-- Nothing is found in a list with places if nothing is found in any of its members. -/
theorem findSome?_zipIdx_eq_none_iff {α β : Type} {find : α × Nat → Option β} {fine : α → Prop}
    (h : ∀ a index, find (a, index) = none ↔ fine a) (list : List α) :
    list.zipIdx.findSome? find = none ↔ ∀ a ∈ list, fine a := by
  rw [List.findSome?_eq_none_iff]
  constructor
  · intro all a m
    obtain ⟨index, inside, rfl⟩ := List.getElem_of_mem m
    exact (h _ index).mp (all (_, index) (List.mem_zipIdx_iff_getElem?.mpr (by simp)))
  · rintro all ⟨a, index⟩ m
    exact (h a index).mpr (all a (List.fst_mem_of_mem_zipIdx m))

theorem accepts_iff : grammar.accepts = true ↔
    ∃ state ∈ grammar.parseStates, ∃ entry ∈ state.actions, entry.2 = .accept := by
  simp [accepts]

/-- **The search for faults finds none just in consistent grammars.** -/
theorem fault?_eq_none_iff : grammar.fault? = none ↔ grammar.Consistent := by
  simp only [fault?, Option.orElse_eq_orElse, Option.orElse_eq_or, Option.or_eq_none_iff]
  rw [sizeFault?_eq_none_iff, findSome?_zipIdx_eq_none_iff fun _ _ => lexFault?_eq_none_iff,
    findSome?_zipIdx_eq_none_iff fun _ _ => parseFault?_eq_none_iff]
  constructor
  · rintro ⟨⟨terminals, tokens, symbols, startState, states, entries⟩, -, lex, parse, accepts⟩
    exact
      { terminals, tokens, symbols, startState, states, entries
        eachLexState := lex, eachParseState := parse
        accepts := accepts_iff.mp (by simpa using accepts) }
  · intro h
    refine ⟨⟨h.terminals, h.tokens, h.symbols, h.startState, h.states, h.entries⟩, ?_,
      h.eachLexState, h.eachParseState, if_pos (accepts_iff.mpr h.accepts)⟩
    -- the error state comes up once more with all states
    rw [fallbackFault?]
    split
    · rfl
    · rename_i state rest all
      exact if_pos (h.eachParseState state (by rw [all]; exact List.mem_cons_self)).mode

end Grammar

/-! ### What is listed last -/

/-- The last value that is listed for a key. -/
def lastListed {κ α : Type} [DecidableEq κ] (entries : List (κ × α)) (key : κ) : Option α :=
  (entries.filter fun entry => entry.1 = key).getLast?.map (·.2)

section LastListed

variable {κ α : Type} [DecidableEq κ] {entries : List (κ × α)} {key : κ} {value : α}

theorem lastListed_append (front back : List (κ × α)) (key : κ) :
    lastListed (front ++ back) key = (lastListed back key).or (lastListed front key) := by
  simp only [lastListed, List.filter_append, List.getLast?_append, Option.map_or]

theorem lastListed_eq_none (h : ∀ entry ∈ entries, entry.1 ≠ key) :
    lastListed entries key = none := by
  simpa [lastListed] using fun a b m => h (a, b) m

theorem mem_of_lastListed (h : lastListed entries key = some value) : (key, value) ∈ entries := by
  obtain ⟨⟨found, _⟩, last, rfl⟩ := Option.map_eq_some_iff.mp h
  obtain ⟨m, same⟩ := List.mem_filter.mp (List.mem_of_getLast? last)
  obtain rfl : found = key := by simpa using same
  exact m

theorem lastListed_isSome (h : (key, value) ∈ entries) : (lastListed entries key).isSome := by
  have m : (key, value) ∈ entries.filter fun entry => entry.1 = key :=
    List.mem_filter.mpr ⟨h, decide_eq_true rfl⟩
  rw [lastListed, Option.isSome_map, List.getLast?_isSome]
  exact List.ne_nil_of_mem m

/-- Entries with other keys may be left out. -/
theorem lastListed_filter {keep : κ × α → Bool} (kept : ∀ entry, entry.1 = key → keep entry = true) :
    lastListed (entries.filter keep) key = lastListed entries key := by
  rw [lastListed, lastListed, List.filter_filter]
  congr 2
  refine List.filter_congr fun entry _ => ?_
  by_cases same : entry.1 = key
  · rw [kept entry same, Bool.and_true]
  · rw [decide_eq_false same, Bool.false_and]

/-- Keys may be renamed as long as no other one comes to stand for the one looked for. -/
theorem lastListed_map {κ' : Type} [DecidableEq κ'] {rename : κ → κ'}
    (apart : ∀ entry ∈ entries, rename entry.1 = rename key → entry.1 = key) :
    lastListed (entries.map fun entry => (rename entry.1, entry.2)) (rename key) =
      lastListed entries key := by
  have same : entries.filter (fun entry => rename entry.1 = rename key) =
      entries.filter fun entry => entry.1 = key :=
    List.filter_congr fun entry m =>
      decide_eq_decide.mpr ⟨apart entry m, congrArg rename⟩
  rw [lastListed, lastListed, List.filter_map, List.getLast?_map, Option.map_map, ← same]
  rfl

end LastListed

/-! ### Consistent languages -/

/-- Whether a symbol is a nonterminal of the symbol table. -/
def Language.IsNonterminal (language : Language) (symbol : Symbol) : Prop :=
  language.tokenCount.toNat ≤ symbol.toNat ∧ symbol.toNat < language.symbolCount

/-- A language whose tables are complete and lead nowhere outside. -/
structure Language.Consistent (language : Language) : Prop where
  terminals : 0 < language.tokenCount.toNat
  tokens : language.tokenCount.toNat ≤ language.symbolCount
  symbols : language.symbolCount < errorSymbol.toNat
  states : startState.toNat < language.stateCount
  actionRows : language.actions.size = language.stateCount * language.tokenCount.toNat
  gotoRows : language.gotos.size = language.stateCount * language.nonterminalCount
  defaultRows : language.defaultReductions.size = language.stateCount
  repairRows : language.recoveryGotos.size = language.stateCount
  modes : ∀ mode ∈ language.lexModes, mode.toNat < language.lexStates.size
  accepts : ∀ state ∈ language.lexStates, ∀ {symbol}, state.accept = some symbol →
    language.isTerminal symbol = true
  steps : ∀ state ∈ language.lexStates, ∀ {c step}, state.step? c = some step →
    step.target.toNat < language.lexStates.size
  ends : ∀ state ∈ language.lexStates, ∀ {step}, state.atEnd = some step →
    step.target.toNat < language.lexStates.size
  shifts : ∀ {state symbol target}, language.action? state symbol = some (.shift target) →
    target.toNat < language.stateCount
  reduces : ∀ {state symbol made count},
    language.action? state symbol = some (.reduce made count) → language.IsNonterminal made
  gotos : ∀ {state symbol target}, language.goto? state symbol = some target →
    target.toNat < language.stateCount
  defaults : ∀ {state made count}, language.defaultReduction? state = some (made, count) →
    language.IsNonterminal made
  repairs : ∀ {state symbol target}, (symbol, target) ∈ language.repairs state →
    language.IsNonterminal symbol ∧ target.toNat < language.stateCount ∧
      (Subtree.symbolMarks language symbol).recovery = true

namespace Grammar

variable {grammar : Grammar} {version : UInt32} {origin : Nat}

theorem isNonterminal_toLanguage {symbol : Symbol} :
    (grammar.toLanguage version origin).IsNonterminal symbol ↔ grammar.IsNonterminal symbol := by
  simp [IsNonterminal, Language.IsNonterminal, Language.symbolCount, toLanguage]

/-! ### What is in the tables -/

/-- What stands in a dense table was listed. -/
theorem mem_of_fillTable {α : Type} {size : Nat} {entries : List (Nat × α)} {i : Nat} {value : α}
    (h : (fillTable size entries)[i]? = some (some value)) : (i, value) ∈ entries := by
  rw [getElem?_fillTable] at h
  split at h
  · exact mem_of_lastListed (Option.some.inj h)
  · cases h

theorem size_fillTable {α : Type} (size : Nat) (entries : List (Nat × α)) :
    (fillTable size entries).size = size := by
  have set (table : Array (Option α)) : (entries.foldl
      (fun table entry => table.setIfInBounds entry.1 (some entry.2)) table).size = table.size := by
    induction entries generalizing table with
    | nil => rfl
    | cons entry entries ih => rw [List.foldl_cons, ih, Array.size_setIfInBounds]
  exact (set _).trans Array.size_replicate

theorem exists_of_action? {state : StateId} {symbol : Symbol} {action : ParseAction}
    (h : (grammar.toLanguage version origin).action? state symbol = some action) :
    ∃ listed ∈ grammar.parseStates, ∃ key, (key, action) ∈ listed.actions := by
  simp only [Language.action?] at h
  split at h
  · split at h
    · cases h
    · rename_i found
      obtain rfl := h
      have m := mem_of_fillTable found
      simp only [actionEntries, List.mem_flatMap, List.mem_map, Prod.exists, Prod.mk.injEq] at m
      obtain ⟨listed, index, there, key, listedAction, m, -, rfl⟩ := m
      exact ⟨listed, (List.mem_zipIdx there).2.2 ▸ List.getElem_mem .., key, m⟩
    · cases h
  · cases h

theorem exists_of_goto? {state : StateId} {symbol : Symbol} {target : StateId}
    (h : (grammar.toLanguage version origin).goto? state symbol = some target) :
    ∃ listed ∈ grammar.parseStates, ∃ key, (key, target) ∈ listed.gotos := by
  simp only [Language.goto?] at h
  split at h
  · cases h
  · have m := mem_of_fillTable (Option.join_eq_some_iff.mp h)
    simp only [gotoEntries, List.mem_flatMap, List.mem_map, Prod.exists, Prod.mk.injEq] at m
    obtain ⟨listed, index, there, key, listedTarget, m, -, rfl⟩ := m
    exact ⟨listed, (List.mem_zipIdx there).2.2 ▸ List.getElem_mem .., key, m⟩

theorem exists_of_defaultReduction? {state : StateId} {made : Symbol} {count : UInt8}
    (h : (grammar.toLanguage version origin).defaultReduction? state = some (made, count)) :
    ∃ listed ∈ grammar.parseStates, ∃ key, (key, .reduce made count) ∈ listed.actions := by
  simp only [Language.defaultReduction?, toLanguage, List.getElem?_toArray, List.getElem?_map,
    Option.join_eq_some_iff, Option.map_eq_some_iff] at h
  obtain ⟨listed, there, e⟩ := h
  refine ⟨listed, List.mem_of_getElem? there, ?_⟩
  simp only [ParseState.defaultReduction?] at e
  split at e
  · rename_i key symbol found rest actions
    split at e
    · cases e
      exact ⟨key, by simp [actions]⟩
    · cases e
  · cases e

theorem exists_of_mem_repairs {state : StateId} {symbol : Symbol} {target : StateId}
    (h : (symbol, target) ∈ (grammar.toLanguage version origin).repairs state) :
    ∃ listed ∈ grammar.parseStates, (symbol, target) ∈ listed.gotos ∧
      (grammar.symbols[symbol.toNat]?.map (·.isRecovery)).getD false = true := by
  simp only [Language.repairs, toLanguage, List.getElem?_toArray, List.getElem?_map] at h
  rcases e : grammar.parseStates[state.toNat]? with - | listed
  · simp [e] at h
  · simp only [e, Option.map_some, Option.getD_some, ParseState.recoveryGotos, List.mem_filter,
      List.getElem?_toArray] at h
    exact ⟨listed, List.mem_of_getElem? e, h⟩

theorem stateCount_toLanguage :
    (grammar.toLanguage version origin).stateCount = grammar.parseStates.length := by
  simp [Language.stateCount, toLanguage]

theorem size_lexStates_toLanguage :
    (grammar.toLanguage version origin).lexStates.size = grammar.lexStates.length := by
  simp [toLanguage]

/-- **A consistent grammar** gives a consistent language. -/
theorem consistent_toLanguage (h : grammar.Consistent) :
    (grammar.toLanguage version origin).Consistent where
  terminals := h.terminals
  tokens := h.tokens
  symbols := h.symbols
  states := stateCount_toLanguage ▸ h.startState
  actionRows := by
    rw [stateCount_toLanguage]
    exact size_fillTable ..
  gotoRows := by
    rw [stateCount_toLanguage]
    exact size_fillTable ..
  defaultRows := by simp [toLanguage, Language.stateCount]
  repairRows := by simp [toLanguage, Language.stateCount]
  modes := by
    intro mode m
    rw [size_lexStates_toLanguage]
    obtain ⟨state, listed, rfl⟩ := List.mem_map.mp (List.mem_toArray.mp m)
    exact (h.eachParseState state listed).mode
  accepts := fun state m symbol e =>
    isTerminal_iff.mpr ((h.eachLexState state (List.mem_toArray.mp m)).accepts symbol e)
  steps := by
    intro state m c step e
    rw [size_lexStates_toLanguage]
    obtain ⟨transition, found, rfl⟩ := Option.map_eq_some_iff.mp e
    exact (h.eachLexState state (List.mem_toArray.mp m)).steps transition
      (List.mem_of_find?_eq_some found)
  ends := by
    intro state m step e
    rw [size_lexStates_toLanguage]
    exact (h.eachLexState state (List.mem_toArray.mp m)).ends step e
  shifts := by
    intro state symbol target e
    obtain ⟨listed, m, key, e⟩ := exists_of_action? e
    rw [stateCount_toLanguage]
    exact (h.eachParseState listed m).shifts _ e target rfl
  reduces := by
    intro state symbol made count e
    obtain ⟨listed, m, key, e⟩ := exists_of_action? e
    exact isNonterminal_toLanguage.mpr ((h.eachParseState listed m).reduces _ e made count rfl)
  gotos := by
    intro state symbol target e
    obtain ⟨listed, m, key, e⟩ := exists_of_goto? e
    rw [stateCount_toLanguage]
    exact (h.eachParseState listed m).gotos _ e
  defaults := by
    intro state made count e
    obtain ⟨listed, m, key, e⟩ := exists_of_defaultReduction? e
    exact isNonterminal_toLanguage.mpr ((h.eachParseState listed m).reduces _ e made count rfl)
  repairs := by
    intro state symbol target e
    obtain ⟨listed, m, e, recovery⟩ := exists_of_mem_repairs e
    have nonterminal : (grammar.toLanguage version origin).IsNonterminal symbol :=
      isNonterminal_toLanguage.mpr ((h.eachParseState listed m).gotoKeys _ e)
    refine ⟨nonterminal, stateCount_toLanguage ▸ (h.eachParseState listed m).gotos _ e, ?_⟩
    have other := h.ne_errorSymbol (isNonterminal_toLanguage.mp nonterminal)
    rcases found : grammar.symbols[symbol.toNat]? with - | info
    · simp [found] at recovery
    · simpa [Subtree.symbolMarks, Language.flags, toLanguage, other, found,
        SymbolInfo.isRecovery] using recovery

end Grammar

/-- **A language that was loaded is consistent.** -/
theorem Table.consistent_of_load {table : Table} {origin : Nat} {language : Language}
    (h : table.load origin = .ok language) : language.Consistent := by
  obtain ⟨version, grammar, -, -, -, fine, rfl⟩ := load_eq_ok_iff.mp h
  exact Grammar.consistent_toLanguage (Grammar.fault?_eq_none_iff.mp fine)

end Reparse
