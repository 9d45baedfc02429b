/-
Reparse/Proofs/Language/Dense.lean

The dense tables of a language hold what its grammar lists.

A table has a row for each state, and all rows lie one after the other.  With
every column within the width of a row no two entries share a place that do not
share state and symbol (`place_inj`), so what stands at a place is what was
listed last for it (`getElem?_fillTable_rows`).  What a language answers is then
told by the lists: `represents_toLanguage`.
-/
import Reparse.Language.Load
import Reparse.Proofs.Language.Consistent

namespace Reparse

/-! ### Rows and columns -/

/-- A place belongs to one row and one column. -/
theorem place_inj {width row row' column column' : Nat} (narrow : column < width)
    (narrow' : column' < width) (same : row * width + column = row' * width + column') :
    row = row' ∧ column = column' := by
  have rows : row = row' := by
    have quotient := congrArg (· / width) same
    simp only [Nat.mul_comm _ width, Nat.mul_add_div (Nat.zero_lt_of_lt narrow),
      Nat.div_eq_of_lt narrow, Nat.div_eq_of_lt narrow'] at quotient
    exact quotient
  subst rows
  exact ⟨rfl, Nat.add_left_cancel same⟩

theorem place_lt {width rows row column : Nat} (narrow : column < width) (inside : row < rows) :
    row * width + column < rows * width := by
  have next : (row + 1) * width ≤ rows * width := Nat.mul_le_mul_right width inside
  rw [Nat.succ_mul] at next
  omega

/-- What a row lists last for a key is what the whole table lists last for its place. -/
theorem lastListed_rows {σ α : Type} {listed : σ → List (Symbol × α)} {column : Symbol → Nat}
    {width : Nat} {key : Symbol} (narrow : column key < width) {states : List σ}
    (fits : ∀ state ∈ states, ∀ entry ∈ listed state, column entry.1 < width ∧
      (column entry.1 = column key → entry.1 = key)) (start n : Nat) :
    lastListed ((states.zipIdx start).flatMap fun (state, index) =>
        (listed state).map fun (symbol, value) => (index * width + column symbol, value))
      ((start + n) * width + column key) =
      states[n]?.bind fun state => lastListed (listed state) key := by
  induction states generalizing start n with
  | nil => rfl
  | cons state states ih =>
    obtain ⟨here, rest⟩ := List.forall_mem_cons.mp fits
    rw [List.zipIdx_cons, List.flatMap_cons, lastListed_append]
    cases n with
    | zero =>
      -- the rows behind are in other places
      rw [lastListed_eq_none, Option.none_or]
      · exact @lastListed_map _ _ _ (listed state) key _ _ (fun symbol => start * width + column symbol)
          fun entry m same => (here entry m).2 (Nat.add_left_cancel same)
      · intro entry m same
        simp only [List.mem_flatMap, List.mem_map] at m
        obtain ⟨⟨other, index⟩, there, entry, m, rfl⟩ := m
        have later := List.le_snd_of_mem_zipIdx there
        have fit := (rest other (List.fst_mem_of_mem_zipIdx there) entry m).1
        have row := (place_inj fit narrow same).1
        simp only at later row
        omega
    | succ n =>
      have later : start + (n + 1) = start + 1 + n := by omega
      rw [later, ih rest, List.getElem?_cons_succ, lastListed_eq_none, Option.or_none]
      intro place m same
      obtain ⟨entry, there, rfl⟩ := List.mem_map.mp m
      have row := (place_inj (here entry there).1 narrow same).1
      omega

/-- **A table of rows** has at each place what the row lists last for its column. -/
theorem getElem?_fillTable_rows {σ α : Type} {listed : σ → List (Symbol × α)}
    {column : Symbol → Nat} {width : Nat} {key : Symbol} (narrow : column key < width)
    {states : List σ} (fits : ∀ state ∈ states, ∀ entry ∈ listed state,
      column entry.1 < width ∧ (column entry.1 = column key → entry.1 = key))
    {n : Nat} (inside : n < states.length) :
    (fillTable (states.length * width) (states.zipIdx.flatMap fun (state, index) =>
        (listed state).map fun (symbol, value) => (index * width + column symbol, value)))[
      n * width + column key]? = some (lastListed (listed states[n]) key) := by
  have row := lastListed_rows narrow fits 0 n
  rw [Nat.zero_add, List.getElem?_eq_getElem inside, Option.bind_some] at row
  rw [getElem?_fillTable, if_pos (place_lt narrow inside), ← row]
  rfl

/-! ### Look-ups -/

theorem ParseState.defaultReduction?_eq_some_iff {state : ParseState} {made : Symbol}
    {count : UInt8} : state.defaultReduction? = some (made, count) ↔
      state.actions ≠ [] ∧ ∀ entry ∈ state.actions, entry.2 = .reduce made count := by
  rw [defaultReduction?]
  rcases state.actions with - | ⟨⟨key, action⟩, rest⟩
  · simp
  · cases action with
    | reduce symbol number =>
      simp only [ne_eq, reduceCtorEq, not_false_eq_true, true_and, List.forall_mem_cons,
        List.all_eq_true, decide_eq_true_eq]
      constructor
      · intro h
        split at h
        · rename_i all
          cases h
          exact ⟨rfl, all⟩
        · cases h
      · rintro ⟨same, all⟩
        cases same
        exact if_pos all
    | _ => simp

namespace Grammar

variable {grammar : Grammar} {version : UInt32} {origin : Nat} {state : StateId} {symbol : Symbol}

theorem isTerminal_toLanguage :
    (grammar.toLanguage version origin).isTerminal symbol = grammar.isTerminal symbol := rfl

theorem action?_toLanguage (h : grammar.Consistent)
    (inside : state.toNat < grammar.parseStates.length)
    (terminal : symbol.toNat < grammar.tokenCount.toNat) :
    (grammar.toLanguage version origin).action? state symbol =
      (lastListed grammar.parseStates[state.toNat].actions symbol).filter (· ≠ .recover) := by
  have fits : ∀ state ∈ grammar.parseStates, ∀ entry ∈ state.actions,
      entry.1.toNat < grammar.tokenCount.toNat ∧ (entry.1.toNat = symbol.toNat → entry.1 = symbol) :=
    fun state m entry listed => ⟨(h.eachParseState state m).keys entry listed, UInt16.toNat_inj.mp⟩
  have cell : (grammar.toLanguage version origin).actions[
      state.toNat * (grammar.toLanguage version origin).tokenCount.toNat + symbol.toNat]? =
      some (lastListed grammar.parseStates[state.toNat].actions symbol) :=
    getElem?_fillTable_rows terminal fits inside
  rw [Language.action?, isTerminal_toLanguage, if_pos (isTerminal_iff.mpr terminal), cell]
  rcases lastListed grammar.parseStates[state.toNat].actions symbol with - | action
  · rfl
  · cases action <;> rfl

theorem action?_eq_none (other : ¬ symbol.toNat < grammar.tokenCount.toNat) :
    (grammar.toLanguage version origin).action? state symbol = none :=
  if_neg fun terminal => other (isTerminal_iff.mp terminal)

theorem goto?_toLanguage (h : grammar.Consistent)
    (inside : state.toNat < grammar.parseStates.length)
    (nonterminal : grammar.IsNonterminal symbol) :
    (grammar.toLanguage version origin).goto? state symbol =
      lastListed grammar.parseStates[state.toNat].gotos symbol := by
  have narrow {symbol : Symbol} (h : grammar.IsNonterminal symbol) :
      symbol.toNat - grammar.tokenCount.toNat < grammar.symbols.length - grammar.tokenCount.toNat :=
    Nat.sub_lt_sub_right h.1 h.2
  have fits : ∀ state ∈ grammar.parseStates, ∀ entry ∈ state.gotos,
      entry.1.toNat - grammar.tokenCount.toNat <
          grammar.symbols.length - grammar.tokenCount.toNat ∧
        (entry.1.toNat - grammar.tokenCount.toNat = symbol.toNat - grammar.tokenCount.toNat →
          entry.1 = symbol) := by
    intro state m entry listed
    have key := (h.eachParseState state m).gotoKeys entry listed
    refine ⟨narrow key, fun same => UInt16.toNat_inj.mp ?_⟩
    have := key.1
    have := nonterminal.1
    omega
  have cell := @getElem?_fillTable_rows _ _ _
    (fun symbol => symbol.toNat - grammar.tokenCount.toNat) _ _ (narrow nonterminal) _ fits _ inside
  have listed : ¬ (symbol == errorSymbol || grammar.isTerminal symbol) = true := by
    have terminal : ¬ grammar.isTerminal symbol = true :=
      fun terminal => Nat.not_lt_of_le nonterminal.1 (isTerminal_iff.mp terminal)
    simp [h.ne_errorSymbol nonterminal, terminal]
  exact (if_neg listed).trans (congrArg Option.join cell)

theorem goto?_eq_none (other : symbol.toNat < grammar.tokenCount.toNat ∨ symbol = errorSymbol) :
    (grammar.toLanguage version origin).goto? state symbol = none := by
  refine if_pos ?_
  rcases other with terminal | rfl
  · exact Bool.or_eq_true_iff.mpr (.inr (isTerminal_iff.mpr terminal))
  · rfl

theorem defaultReduction?_toLanguage (inside : state.toNat < grammar.parseStates.length) :
    (grammar.toLanguage version origin).defaultReduction? state =
      grammar.parseStates[state.toNat].defaultReduction? := by
  simp [Language.defaultReduction?, toLanguage, inside]

end Grammar

/-! ### Languages of grammars -/

/-- What a language answers in a state is what is listed for the state: of several
entries for a symbol the last one, for no symbol of the other kind anything, and the
reduction by default if nothing else is listed. -/
structure Language.Represents (language : Language) (grammar : Grammar) (state : StateId)
    (listed : ParseState) : Prop where
  actions : ∀ symbol, symbol.toNat < grammar.tokenCount.toNat →
    language.action? state symbol = (lastListed listed.actions symbol).filter (· ≠ .recover)
  noActions : ∀ symbol, ¬ symbol.toNat < grammar.tokenCount.toNat →
    language.action? state symbol = none
  gotos : ∀ symbol, grammar.IsNonterminal symbol →
    language.goto? state symbol = lastListed listed.gotos symbol
  noGotos : ∀ symbol, symbol.toNat < grammar.tokenCount.toNat ∨ symbol = errorSymbol →
    language.goto? state symbol = none
  defaults : ∀ made count, language.defaultReduction? state = some (made, count) ↔
    listed.actions ≠ [] ∧ ∀ entry ∈ listed.actions, entry.2 = .reduce made count
  byDefault : ∀ made count, language.defaultReduction? state = some (made, count) →
    ∀ symbol, language.action? state symbol = none ∨
      language.action? state symbol = some (.reduce made count)

/-- **The dense tables represent the lists** of a grammar without faults, in every state. -/
theorem Grammar.represents_toLanguage {grammar : Grammar} (h : grammar.fault? = none)
    (version : UInt32) (origin : Nat) {state : StateId}
    (inside : state.toNat < grammar.parseStates.length) :
    (grammar.toLanguage version origin).Represents grammar state
      grammar.parseStates[state.toNat] := by
  have h := fault?_eq_none_iff.mp h
  have defaults (made : Symbol) (count : UInt8) :
      (grammar.toLanguage version origin).defaultReduction? state = some (made, count) ↔
        grammar.parseStates[state.toNat].actions ≠ [] ∧
          ∀ entry ∈ grammar.parseStates[state.toNat].actions, entry.2 = .reduce made count := by
    rw [defaultReduction?_toLanguage inside]
    exact ParseState.defaultReduction?_eq_some_iff
  refine
    { actions := fun symbol => action?_toLanguage h inside
      noActions := fun symbol => action?_eq_none
      gotos := fun symbol => goto?_toLanguage h inside
      noGotos := fun symbol => goto?_eq_none
      defaults, byDefault := fun made count reduces symbol => ?_ }
  by_cases terminal : symbol.toNat < grammar.tokenCount.toNat
  · rw [action?_toLanguage h inside terminal]
    rcases last : lastListed grammar.parseStates[state.toNat].actions symbol with - | action
    · exact .inl rfl
    · obtain rfl := ((defaults made count).mp reduces).2 _ (mem_of_lastListed last)
      exact .inr rfl
  · exact .inl (action?_eq_none terminal)

namespace Forked

abbrev letter : Symbol := 1
abbrev mark : Symbol := 2
abbrev fault : Symbol := 3
abbrev early : Symbol := 4
abbrev late : Symbol := 5

/-- A grammar with two gotos for one error production in its start state. -/
def grammar : Grammar where
  name := "forked"
  tokenCount := 3
  symbols :=
    [⟨"end", .named⟩, ⟨"letter", .union .visible .named⟩, ⟨"mark", .union .visible .named⟩,
     ⟨"fault", .union .recovery (.union .visible .named)⟩, ⟨"early", .union .visible .named⟩,
     ⟨"late", .union .visible .named⟩]
  lexStates :=
    [{ atEnd := some (.advance 1)
       transitions := [⟨.one 'a', .advance 2⟩, ⟨.one 'b', .advance 3⟩] },
     { accept := some endSymbol },
     { accept := some letter },
     { accept := some mark }]
  parseStates :=
    [{ lexState := 0 },
     { lexState := 0
       actions := [(mark, .shift 4)]
       gotos := [(fault, 2), (fault, 3), (early, 7), (late, 7)] },
     { lexState := 0, actions := [(letter, .shift 5)] },
     { lexState := 0, actions := [(letter, .shift 6)] },
     { lexState := 0, actions := [(letter, .reduce fault 1)] },
     { lexState := 0, actions := [(endSymbol, .reduce early 2)] },
     { lexState := 0, actions := [(endSymbol, .reduce late 2)] },
     { lexState := 0, actions := [(endSymbol, .accept)] }]

theorem represents_toLanguage_forked :
    grammar.fault? = none ∧ startState.toNat < grammar.parseStates.length ∧
      lastListed grammar.parseStates[startState.toNat].gotos fault = some 3 ∧
      (grammar.toLanguage currentVersion 0).Represents grammar startState
        grammar.parseStates[startState.toNat] := by
  have fine : grammar.fault? = none := by decide +kernel
  have inside : startState.toNat < grammar.parseStates.length := by decide
  exact ⟨fine, inside, by decide, grammar.represents_toLanguage fine currentVersion 0 inside⟩

end Forked

end Reparse
