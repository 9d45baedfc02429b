/-
Reparse/Proofs/Language/Repairs.lean

Where an error production leads that is put in.

A production that was reduced leads to its goto in the dense table.  An error
production that is put in goes by the list of repairs of the state, which has
all gotos on error productions that are listed for it.  The table has the last
of them (`goto?_eq_lastListed_repairs`), so both ways agree on a symbol that is
listed with one state only (`goto?_of_once`).  If it is listed with more, they
may part: a repair takes the first state that fits (`Forked.repairs_part`).
-/
import Reparse.Parser
import Reparse.Proofs.Language.Dense
import Reparse.Proofs.Language.Load

namespace Reparse

namespace Grammar

variable {grammar : Grammar} {version : UInt32} {origin : Nat} {state : StateId} {symbol : Symbol}
  {target : StateId}

theorem repairs_toLanguage (inside : state.toNat < grammar.parseStates.length) :
    (grammar.toLanguage version origin).repairs state =
      grammar.parseStates[state.toNat].recoveryGotos grammar.symbols.toArray := by
  simp [Language.repairs, toLanguage, inside]

theorem state_lt_of_mem_repairs
    (m : (symbol, target) ∈ (grammar.toLanguage version origin).repairs state) :
    state.toNat < grammar.parseStates.length := by
  refine Decidable.byContradiction fun outside => ?_
  have none : grammar.parseStates[state.toNat]? = none :=
    List.getElem?_eq_none (Nat.le_of_not_lt outside)
  simp [Language.repairs, toLanguage, none] at m

/-- The table has the last goto that is listed for a repair. -/
theorem goto?_eq_lastListed_repairs (h : grammar.Consistent)
    (m : (symbol, target) ∈ (grammar.toLanguage version origin).repairs state) :
    (grammar.toLanguage version origin).goto? state symbol =
      lastListed ((grammar.toLanguage version origin).repairs state) symbol := by
  have inside := state_lt_of_mem_repairs m
  rw [repairs_toLanguage inside, ParseState.recoveryGotos] at m ⊢
  obtain ⟨listed, recovery⟩ := List.mem_filter.mp m
  have nonterminal := (h.eachParseState _ (List.getElem_mem inside)).gotoKeys _ listed
  rw [goto?_toLanguage h inside nonterminal]
  refine (lastListed_filter ?_).symm
  rintro ⟨_, _⟩ rfl
  exact recovery

end Grammar

namespace Language

variable {table : Table} {origin : Nat} {language : Language} {state : StateId} {symbol : Symbol}
  {target : StateId}

/-- **The goto on a repair** is one of those that are listed for it, the last one. -/
theorem goto?_of_mem_repairs (loaded : table.load origin = .ok language)
    (m : (symbol, target) ∈ language.repairs state) :
    ∃ last, language.goto? state symbol = some last ∧ (symbol, last) ∈ language.repairs state ∧
      lastListed (language.repairs state) symbol = some last := by
  obtain ⟨version, grammar, -, -, consistent, rfl⟩ := Table.load_eq_ok_iff_consistent.mp loaded
  have same := Grammar.goto?_eq_lastListed_repairs consistent m
  obtain ⟨last, found⟩ := Option.isSome_iff_exists.mp (lastListed_isSome m)
  exact ⟨last, same.trans found, mem_of_lastListed found, found⟩

/-- Where a repair is listed with one state only, both ways lead to that state. -/
theorem goto?_of_once (loaded : table.load origin = .ok language)
    (m : (symbol, target) ∈ language.repairs state)
    (once : ∀ other, (symbol, other) ∈ language.repairs state → other = target) :
    language.goto? state symbol = some target := by
  obtain ⟨last, found, listed, -⟩ := goto?_of_mem_repairs loaded m
  rw [found, once last listed]

end Language

namespace Forked

/-- **A repair may lead elsewhere than a reduction.**  In the start state the error
production leads to state 3 where it was reduced, and the letter behind it comes late.
Where it is put in it leads to state 2, and the letter comes early. -/
theorem repairs_part :
    ∃ language, (Table.encode grammar).load 0 = .ok language ∧
      (fault, 2) ∈ language.repairs startState ∧ language.goto? startState fault = some 3 ∧
      (language.parse {} "ba".toList none).1.root.symbol = late ∧
      (language.parse {} "a".toList none).1.root.symbol = early :=
  ⟨grammar.toLanguage currentVersion 0, rfl, by decide +kernel, by decide +kernel,
    by decide +kernel, by decide +kernel⟩

end Forked

end Reparse
