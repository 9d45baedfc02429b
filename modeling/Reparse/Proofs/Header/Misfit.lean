/-
Reparse/Proofs/Header/Misfit.lean

What becomes of a header with a slot that does not fit.

The slot gets its error production at once, or its wrong token is put on the
stack and wrapped into the error production by the next step.  Only without any
recoveries, or at the bare end of the text, the parse gives up instead.
-/
import Reparse.Proofs.Header.Fault
import Reparse.Proofs.Header.Stage

namespace Reparse.Header

open Subtree

variable {text : Text} {limit : Nat} {old : Option Subtree} {run : Run} {slot : Slot}
  {stack : Stack} {rest : Text}

/-- The error production that stands for a slot in front of a text. -/
def Slot.fault (slot : Slot) (text : Text) : Symbol :=
  if slot = .opening ∧ text.head? = some '\n' then leftBracketError else slot.repair

theorem Slot.fault_of_ne {slot : Slot} {text : Text}
    (h : slot = .opening → ∀ more, text ≠ '\n' :: more) : slot.fault text = slot.repair := by
  refine if_neg fun ⟨first, line⟩ => ?_
  cases text with
  | nil => cases line
  | cons c more => exact h first more (by rw [Option.some.inj line])

/-! ### The table at a slot -/

theorem action?_wrong (slot : Slot) :
    language.action? slot.state slot.wrong = some (.shift slot.pending) := by
  rw [action?_eq]
  cases slot <;> rfl

theorem action?_ends (slot : Slot) {symbol : Symbol} (h : symbol = endSymbol ∨ symbol = eof) :
    language.action? slot.state symbol = none := by
  rw [action?_eq]
  rcases h with rfl | rfl <;> cases slot <;> rfl

theorem repairs_slot (slot : Slot) :
    language.repairs slot.state ≠ [] ∧
      ∀ repair ∈ language.repairs slot.state, repair.1 = slot.repair := by
  cases slot <;> decide

theorem defaultReduction?_slot (slot : Slot) :
    language.defaultReduction? slot.state = none := by
  cases slot <;> decide

theorem repairs_pending (slot : Slot) : language.repairs slot.pending = [] := by
  cases slot <;> decide

theorem defaultReduction?_pending (slot : Slot) :
    language.defaultReduction? slot.pending = some (slot.repair, 1) := by
  cases slot <;> decide

/-- Behind the wrong token of a slot there is nothing to do but to reduce. -/
theorem action?_pending {slot : Slot} {symbol : Symbol} {action : ParseAction}
    (h : language.action? slot.pending symbol = some action) :
    action = .reduce slot.repair 1 := by
  have all : ∀ entry ∈ actions, entry.1.1 = slot.pending → entry.2 = .reduce slot.repair 1 := by
    cases slot <;> decide
  exact all _ (mem_actions h) rfl

/-! ### The wrong token -/

/-- A run that has put the wrong token into a slot. -/
structure Pending (slot : Slot) (run : Run) : Prop where
  state : run.state = slot.pending
  recoveries : run.recoveries = 0
  fine : firstRepairAmong? run.stack.subtrees = none
  intact : run.stack.hasConsumedRecovery = false

/-- However the wrong token of a slot is reduced, it becomes its error production. -/
theorem Pending.firstRepair_reduce? (pending : Pending slot run) {token : Subtree}
    {stack : Stack} (reduced : run.stack.reduce? language slot.repair 1 token = some stack) :
    firstRepairAmong? stack.subtrees = some slot.repair := by
  obtain ⟨children, others, -, before, after⟩ := firstRepairAmong?_reduce? reduced
  have left := before.symm
  simp only [pending.fine, Option.or_eq_none_iff] at left
  rw [after, slot_repair, if_pos rfl, left.1.1, left.2]
  rfl

/-- It can be reduced in front of any token. -/
theorem Pending.exists_reduced (h : Orderly text limit old run) (pending : Pending slot run)
    (lookahead : Lookahead) :
    ∃ stack, run.stack.reduce? language slot.repair 1 lookahead.token = some stack ∧
      run.defaultReduction? (setting text limit old) lookahead = some stack := by
  have default : language.defaultReduction? run.state = some (slot.repair, 1) := by
    rw [pending.state, defaultReduction?_pending]
  obtain ⟨stack, reduced, -⟩ :=
    exists_reduce? h.linked (mem_reductions_of_default default) lookahead.token
  refine ⟨stack, reduced, ?_⟩
  rw [Run.defaultReduction?, setting_language, default]
  exact reduced

/-- The wrong token of a slot becomes its error production. -/
theorem Pending.turn (h : Orderly text limit old run) (pending : Pending slot run) :
    (limit = 0 ∧ ∃ root reused,
        run.turn (setting text limit old) = .finished root reused ∧
        root.marks.hasError = true) ∨
      ∃ next, run.turn (setting text limit old) = .running next ∧
        firstRepairAmong? next.stack.subtrees = some slot.repair := by
  have state := pending.state
  have repairs : language.repairs run.state = [] := state ▸ repairs_pending slot
  generalize e : run.turn (setting text limit old) = progress
  obtain ⟨move, choice, rfl⟩ := Run.exists_choice e
  generalize run.current (setting text limit old) = lookahead at choice
  obtain ⟨stack, reduced, default⟩ := pending.exists_reduced h lookahead
  cases choice with
  | shift action =>
    rw [setting_language, state] at action
    cases action?_pending action
  | reduce action reduced =>
    rw [setting_language, state] at action
    cases action?_pending action
    exact .inr ⟨_, rfl, pending.firstRepair_reduce? reduced⟩
  | accept action =>
    rw [setting_language, state] at action
    cases action?_pending action
  | reduceByDefault _ action reduced =>
    rw [setting_language, state, defaultReduction?_pending] at action
    cases action
    exact .inr ⟨_, rfl, pending.firstRepair_reduce? reduced⟩
  | insert _ repair => simp [repairs] at repair
  | wrap _ repair => simp [repairs] at repair
  | skip _ none => rw [default] at none; cases none
  | giveUp reason =>
    refine .inl ⟨?_, _, _, rfl, hasError_giveUp _⟩
    rcases reason with spent | consumed | ⟨-, none⟩ | ⟨symbol, count, action, none⟩
    · rw [pending.recoveries] at spent
      exact Nat.le_zero.mp spent
    · rw [pending.intact] at consumed
      cases consumed
    · rw [default] at none
      cases none
    · rw [setting_language, state] at action
      cases action?_pending action
      rw [setting_language, reduced] at none
      cases none

/-! ### Slots that do not fit -/

/-- A token that shows that the text is over is no reason to stop. -/
theorem At.turn_ends (here : At text run (some slot) stack rest) {symbol : Symbol}
    {padding size : Nat} (h : symbol = endSymbol ∧ '\x00' ∉ rest ∨ symbol = eof)
    (token : (run.current (setting text limit old)).token.bare = leaf symbol padding size) :
    ((limit = 0 ∨ '\x00' ∉ rest) ∧ ∃ root reused,
        run.turn (setting text limit old) = .finished root reused ∧
        root.marks.hasError = true) ∨
      ∃ next, run.turn (setting text limit old) = .running next ∧
        firstRepairAmong? next.stack.subtrees = some slot.repair := by
  have read : (run.current (setting text limit old)).token.symbol = symbol := by
    rw [← bare_symbol, token, leaf_symbol]
  generalize e : run.turn (setting text limit old) = progress
  obtain ⟨move, choice, rfl⟩ := Run.exists_choice e
  generalize run.current (setting text limit old) = lookahead at choice read
  have state : run.state = slot.state := here.state
  have none : language.action? run.state lookahead.token.symbol = none := by
    rw [state, read]
    exact action?_ends slot (h.imp And.left id)
  -- no error production is on the stack, so that the first one is what comes on top
  have push (entry : Entry) : firstRepairAmong? (Stack.subtrees (entry :: run.stack)) =
      firstRepair? entry.subtree := by
    rw [Stack.subtrees_cons, firstRepairAmong?_append, firstRepairAmong?_singleton,
      here.fine, Option.none_or]
  cases choice with
  | shift action => rw [setting_language, none] at action; cases action
  | reduce action => rw [setting_language, none] at action; cases action
  | accept action => rw [setting_language, none] at action; cases action
  | reduceByDefault _ default =>
    rw [setting_language, state, defaultReduction?_slot] at default
    cases default
  | insert _ repair =>
    rw [setting_language, state] at repair
    obtain rfl := (repairs_slot slot).2 _ repair
    refine .inr ⟨_, rfl, ?_⟩
    simp only [push, setting_language, firstRepair?_missing (slot_repair slot)]
  | wrap _ repair =>
    rw [setting_language, state] at repair
    obtain rfl := (repairs_slot slot).2 _ repair
    refine .inr ⟨_, rfl, ?_⟩
    simp only [Run.push, push, setting_language, firstRepair?_node, if_pos (slot_repair slot)]
  | skip _ _ useless =>
    rw [read, setting_language, state] at useless
    rcases useless with error | repairs
    · have : symbol ≠ errorSymbol := by rcases h with ⟨rfl, -⟩ | rfl <;> decide
      exact absurd error this
    · exact absurd repairs (repairs_slot slot).1
  | giveUp reason =>
    refine .inl ⟨?_, _, _, rfl, hasError_giveUp _⟩
    rcases reason with spent | consumed | ⟨ends, -⟩ | ⟨made, count, action, -⟩
    · rw [setting_maxRecoveries, here.recoveries] at spent
      exact .inl (Nat.le_zero.mp spent)
    · rw [here.intact] at consumed
      cases consumed
    · rcases h with ⟨-, nul⟩ | rfl
      · exact .inr nul
      · rw [read] at ends
        cases ends
    · rw [setting_language, none] at action
      cases action

/-- A slot puts a token that it can shift on top of what is filled. -/
theorem At.turn_shift (here : At text run (some slot) stack rest) {symbol : Symbol}
    {target : StateId} {padding size : Nat}
    (token : (run.current (setting text limit old)).token.bare = leaf symbol padding size)
    (action : language.action? slot.state symbol = some (.shift target)) :
    ∃ next, run.turn (setting text limit old) = .running next ∧
      next.stack.bare = ⟨target, leaf symbol padding size⟩ :: stack ∧ next.recoveries = 0 := by
  have e := Header.turn_shift token _ (by rw [here.state]; exact action)
  rw [here.bare, here.stack_bare] at e
  obtain ⟨next, running, same⟩ := Progress.exists_running e
  exact ⟨next, running, congrArg Run.stack same, congrArg Run.recoveries same⟩

/-- Behind a wrong token its slot waits to be repaired. -/
theorem ReadUpTo.pending (filled : ReadUpTo text (some slot) stack rest) {next : Run}
    {padding size : Nat}
    (same : next.stack.bare = ⟨slot.pending, leaf slot.wrong padding size⟩ :: stack)
    (recoveries : next.recoveries = 0) : Pending slot next := by
  have fine : firstRepairAmong? next.stack.subtrees = none := by
    rw [← firstRepairAmong?_bare, same, Stack.subtrees_cons, firstRepairAmong?_append,
      filled.firstRepair, firstRepairAmong?_singleton, firstRepair?_leaf (slot_wrong_plain slot).1]
    rfl
  refine ⟨?_, recoveries, fine, Stack.hasConsumedRecovery_of_firstRepairAmong? fine⟩
  rw [Run.state, ← Stack.top_bare, same]
  rfl

/-- **A slot that does not fit**: its wrong token is put on the stack, or its
error production is there at once, or the parse is over. -/
theorem At.turn_misfit (limit : Nat) (old : Option Subtree)
    (here : At text run (some slot) stack rest)
    (misfit : ¬ ∃ padding size more, slot.Takes rest padding size more) :
    ((limit = 0 ∨ '\x00' ∉ rest) ∧ ∃ root reused,
        run.turn (setting text limit old) = .finished root reused ∧
        root.marks.hasError = true) ∨
      ∃ next, run.turn (setting text limit old) = .running next ∧
        (firstRepairAmong? next.stack.subtrees = some (slot.fault rest) ∨
          slot.fault rest = slot.repair ∧ Pending slot next) := by
  rcases Slot.found?_of_misfit misfit with ⟨other, padding, size, found⟩ |
    ⟨rfl, more, padding, size, rfl, found⟩ | ⟨other, none, padding, found⟩
  · -- a wrong token is shifted, and an error production is pending
    have fault := Slot.fault_of_ne other
    have token := lookahead_of_found? here.small_rest found
    rw [← here.current limit old] at token
    obtain ⟨next, running, stack, recoveries⟩ := here.turn_shift token (action?_wrong slot)
    exact .inr ⟨next, running, .inr ⟨fault, here.filled.pending stack recoveries⟩⟩
  · -- the bracket has an error token of its own, which is shifted like the bracket
    have token := lookahead_of_found? here.small_rest found
    rw [← here.current limit old] at token
    have opens : language.action? Slot.opening.state leftBracketError = some (.shift 2) := by
      rw [action?_eq]
      rfl
    obtain ⟨next, running, stack, -⟩ := here.turn_shift token opens
    refine .inr ⟨next, running, .inl ?_⟩
    rw [← firstRepairAmong?_bare, stack, Stack.subtrees_cons, firstRepairAmong?_append,
      here.filled.firstRepair, firstRepairAmong?_singleton, firstRepair?_eq, marks_leaf,
      leaf_symbol, if_pos (by decide)]
    rfl
  · -- the text is over or the NUL character comes
    have fault := Slot.fault_of_ne other
    obtain ⟨symbol, ends, size, found⟩ : ∃ symbol, (symbol = endSymbol ∧ '\x00' ∉ rest ∨
        symbol = eof) ∧ ∃ size, Scan.found? language { state := 0 } rest =
          some (symbol, padding, size) := by
      rcases found with ⟨found, nul⟩ | found
      · exact ⟨endSymbol, .inl ⟨rfl, nul⟩, 0, found⟩
      · exact ⟨eof, .inr rfl, 1, found⟩
    have token := lookahead_of_fallback here.small_rest none found
    rw [← here.current limit old] at token
    rcases here.turn_ends ends token with spent | ⟨next, running, e⟩
    · exact .inl spent
    · exact .inr ⟨next, running, .inl (fault ▸ e)⟩

/-- **A text with a slot that does not fit** has an error, and the first one is
that of the slot. -/
theorem misfit_ends (small : text.size < UInt32.size)
    (filled : ReadUpTo text (some slot) stack rest)
    (misfit : ¬ ∃ padding size more, slot.Takes rest padding size more) {root : Subtree}
    {steps : Nat} (ends : Run.Ends (setting text limit none) root steps {}) :
    root.marks.hasError = true ∧
      (1 ≤ limit → '\x00' ∈ rest → firstRepair? root = some (slot.fault rest)) := by
  obtain ⟨run, reached, here⟩ := filled.steps small limit
  have orderly := (orderly_start small).of_steps reached
  obtain ⟨fewer, ends⟩ := ends.of_steps reached
  rcases here.turn_misfit limit none misfit with
    ⟨spent, other, reused, finished, error⟩ | ⟨next, running, e | ⟨fault, pending⟩⟩
  · obtain rfl := eq_of_finished ends finished
    exact ⟨error, fun some nul => absurd spent (by simp [nul]; omega)⟩
  · obtain ⟨fewer, ends⟩ := ends_of_running ends running
    have faulty := (orderly.turn running).1.firstRepair_ends ends e
    exact ⟨faulty.1, fun _ _ => faulty.2⟩
  · replace orderly := (orderly.turn running).1
    obtain ⟨fewer, ends⟩ := ends_of_running ends running
    rcases pending.turn orderly with ⟨spent, other, reused, finished, error⟩ | ⟨last, running, e⟩
    · obtain rfl := eq_of_finished ends finished
      exact ⟨error, fun some _ => by omega⟩
    · obtain ⟨fewer, ends⟩ := ends_of_running ends running
      have faulty := (orderly.turn running).1.firstRepair_ends ends e
      exact ⟨faulty.1, fun _ _ => by rw [fault]; exact faulty.2⟩

end Reparse.Header
