/-
Reparse/Proofs/Header/Halts.lean

A header parse comes to an end, from any old tree.

With an old tree a parse may be anywhere: what it takes over need not match the
text, and may reach behind its end.  Still every step leads to a higher rank of
the table or skips input, and there is input to skip only inside of the text.
So what is left of ranks and text bounds the steps, whatever the old tree, and
however many recoveries are allowed.
-/
import Reparse.Proofs.Header.Path
import Reparse.Proofs.Tree.Grown

namespace Reparse.Header

open Subtree

variable {text : Text} {limit : Nat} {old : Option Subtree} {run : Run}

theorem consistent : language.Consistent :=
  Grammar.consistent_toLanguage (Grammar.fault?_eq_none_iff.mp (by decide +kernel))

/-- Behind a symbol of the table, a goto follows an edge. -/
theorem mem_edges_of_goto? {state target : StateId} {made : Symbol}
    (known : made = errorSymbol ∨ made.toNat < language.symbolCount)
    (h : language.goto? state made = some target) : (state, made, target) ∈ edges := by
  have all : ∀ i : Fin 17, ∀ j : Fin 21,
      (language.goto? (UInt16.ofNat i) (UInt16.ofNat j)).all
        (fun target => (UInt16.ofNat i, UInt16.ofNat j, target) ∈ edges) = true := by
    decide +kernel
  have symbols : language.symbolCount = 21 := rfl
  have size : language.gotos.size = 187 := by decide +kernel
  have width : language.nonterminalCount = 11 := rfl
  have inside : made.toNat < 21 := by
    rcases known with rfl | known
    · simp [Language.goto?] at h
    · rwa [symbols] at known
  rcases Nat.lt_or_ge state.toNat 17 with below | outside
  · simpa [h] using all ⟨_, below⟩ ⟨_, inside⟩
  · simp only [Language.goto?, width] at h
    split at h
    · cases h
    · rw [Array.getElem?_eq_none (by omega)] at h
      cases h

/-- What is left of the ranks and of the text. -/
def left (text : Text) (run : Run) : Nat :=
  (15 - rank run.state) + (text.size - run.position)

/-- The stack of a run is linked by edges of the table, whatever tree the run may take
subtrees from. -/
structure LinkedRun (text : Text) (limit : Nat) (old : Option Subtree) (run : Run) : Prop where
  linked : Linked run.stack
  reads : run.Reads (setting text limit old)

theorem linkedRun_start : LinkedRun text limit old {} where
  linked := trivial
  reads _ h := by cases h

/-- **A step of a header parse** leaves less of the ranks and of the text. -/
theorem LinkedRun.step (h : LinkedRun text limit old run) (small : text.size < UInt32.size)
    (known : ∀ root, old = some root → Throughout (Known language) root) {next : Run}
    (running : run.step (setting text limit old) = .running next) :
    LinkedRun text limit old next ∧ left text next < left text run := by
  have below := rank_lt h.linked.top_mem
  rcases Run.running_cases running with ⟨subtree, target, unread, found, rfl⟩ | running
  · -- a subtree is taken over: the state comes to a higher rank
    obtain ⟨root, here, there, fits, leadsTo⟩ := Run.reusable?_eq_some found
    have symbol := ((known root here).startingAt there).self.symbol
    have edge : (run.state, subtree.symbol, target) ∈ edges :=
      (Run.reuseTarget?_eq_some leadsTo).elim mem_edges_of_shift (mem_edges_of_goto? symbol)
    have linked : Linked (⟨target, subtree⟩ :: run.stack) :=
      (linked_cons (Run.not_extra_of_fits fits).1).mpr ⟨edge, h.linked⟩
    have higher := rank_lt_of_mem_edges edge
    have above := rank_lt linked.top_mem
    refine ⟨⟨linked, ?_⟩, ?_⟩
    · intro lookahead e
      rw [Run.push, unread] at e
      cases e
    · simp only [left, Run.push, Run.state, Stack.top] at higher below above ⊢
      omega
  · obtain ⟨reads, position, -⟩ := h.reads.turn running
    obtain ⟨linked, further⟩ := h.linked.turn h.reads running
    refine ⟨⟨linked, reads⟩, ?_⟩
    obtain ⟨state, read, -⟩ := h.reads.current
    have above := rank_lt linked.top_mem
    simp only [left, Run.state] at further below above ⊢
    -- a move comes to a higher rank, or it takes the text on
    rcases further with higher | ⟨same, more, position⟩
    · omega
    · rw [read] at more position
      have wide := lookahead_pos small more
      have inside := lookahead_inside small more
      simp only [setting_language, setting_text] at wide inside position
      rw [same]
      omega

/-- A header parse ends within what is left. -/
theorem LinkedRun.exists_ends (h : LinkedRun text limit old run) (small : text.size < UInt32.size)
    (known : ∀ root, old = some root → Throughout (Known language) root) (steps : Nat)
    (enough : left text run < steps) : ∃ root, Run.Ends (setting text limit old) root steps run := by
  induction steps generalizing run with
  | zero => omega
  | succ steps ih =>
    rcases e : run.step (setting text limit old) with next | ⟨root, reused⟩
    · obtain ⟨hnext, fewer⟩ := h.step small known e
      obtain ⟨root, ends⟩ := ih hnext (by omega)
      exact ⟨root, .later e ends⟩
    · exact ⟨root, .now e⟩

/-- **A header parse always ends.**  Whatever tree of the language it may take
subtrees from, and however few or many recoveries it may make, it comes to
accept or to give up within as many steps as there are bytes and states. -/
theorem parse_halts (config : Config) (text : Text) (small : text.size < 0x80000000)
    {old : Option Tree}
    (grown : ∀ tree, old = some tree → tree.language = language → tree.Grown language) :
    ∃ count last token root, count < text.size + 16 ∧
      Progress.advance (config.setting language text old) count (.running {}) = .running last ∧
      ((last.move (config.setting language text old) = .accept token ∧
          root = last.accept (config.setting language text old) token) ∨
        (last.move (config.setting language text old) = .giveUp token ∧
          root = last.giveUp (config.setting language text old) token)) ∧
      language.parse config text old = (⟨root, language⟩, last.reused) := by
  have known := config.known_old consistent text grown
  have start : LinkedRun text config.maxRecoveries.toNat (config.reusableRoot? language old) {} :=
    linkedRun_start
  obtain ⟨root, ends⟩ := start.exists_ends (Nat.lt_trans small (by decide)) known (text.size + 16)
    (by simp only [left]; omega)
  obtain ⟨count, fewer, last, reused, here, finished⟩ := ends.last
  obtain ⟨rfl, token, how⟩ := Run.finished_cases finished
  refine ⟨count, last, token, root, fewer, here, how, ?_⟩
  have parse : (config.setting language text old).parse = (root, last.reused) := by
    have enough : count < stepLimit := by simp only [stepLimit]; omega
    have done := Run.advance_of_finished here finished enough
    rw [Setting.parse]
    exact done ▸ rfl
  show ((⟨(config.setting language text old).parse.1, language⟩ : Tree),
    (config.setting language text old).parse.2) = _
  rw [parse]

/-- The tree of a document of which much was cut out. -/
def torn : Tree :=
  (language.parse {} "[DOCUMENT]\n\n\x00".toList none).1.edit ⟨3, 9, 4⟩

/-- A torn tree of another text does not keep a parse going. -/
theorem parse_halts_torn :
    Text.size "x".toList < 0x80000000 ∧ torn.Grown language ∧ ∃ count last token, count < 17 ∧
      Progress.advance (({} : Config).setting language "x".toList (some torn)) count
        (.running {}) = .running last ∧
      (last.move (({} : Config).setting language "x".toList (some torn)) = .accept token ∨
        last.move (({} : Config).setting language "x".toList (some torn)) = .giveUp token) := by
  have small : Text.size "x".toList < 0x80000000 := by decide
  have grown : torn.Grown language := .edit _ _ (.parse _ _ none fun _ e => by cases e)
  obtain ⟨count, last, token, root, fewer, here, how, -⟩ :=
    parse_halts {} "x".toList small fun tree e _ => Option.some.inj e ▸ grown
  exact ⟨small, grown, count, last, token, fewer, here, how.imp And.left And.left⟩

end Reparse.Header
