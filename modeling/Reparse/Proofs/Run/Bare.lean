/-
Reparse/Proofs/Run/Bare.lean

A parse never looks at what its subtrees depend on or where they were put on.

`Run.bare` forgets both on the whole stack and in the lookahead, and also how
many subtrees were reused.  Neither the choice of a move nor what it does asks
for any of it, so two runs with the same bare form take the same moves and end
with the same bare root: `turn_bare`.
-/
import Reparse.Proofs.Run.Choice
import Reparse.Proofs.Subtree.Bare

namespace Reparse

open Subtree

/-! ### Bare stacks -/

namespace Entry

def bare (entry : Entry) : Entry := ⟨entry.state, entry.subtree.bare⟩

@[simp] theorem bare_state (entry : Entry) : entry.bare.state = entry.state := rfl

@[simp] theorem bare_subtree (entry : Entry) : entry.bare.subtree = entry.subtree.bare := rfl

@[simp] theorem bare_bare (entry : Entry) : entry.bare.bare = entry.bare := by
  simp [bare]

end Entry

namespace Stack

def bare (stack : Stack) : Stack := stack.map (·.bare)

@[simp] theorem bare_nil : bare [] = [] := rfl

@[simp] theorem bare_cons (entry : Entry) (stack : Stack) :
    bare (entry :: stack) = entry.bare :: bare stack := rfl

@[simp] theorem bare_append (above below : Stack) :
    bare (above ++ below) = bare above ++ bare below := by
  simp [bare]

@[simp] theorem bare_bare (stack : Stack) : (bare stack).bare = bare stack := by
  simp [bare, Function.comp_def]

@[simp] theorem top_bare (stack : Stack) : (bare stack).top = stack.top := by
  cases stack <;> rfl

@[simp] theorem subtrees_bare (stack : Stack) :
    (bare stack).subtrees = stack.subtrees.map Subtree.bare := by
  simp [subtrees, bare, Function.comp_def]

@[simp] theorem extras_bare (stack : Stack) : (bare stack).extras = bare stack.extras := by
  simp [extras, bare, List.takeWhile_map, Function.comp_def]

@[simp] theorem belowExtras_bare (stack : Stack) :
    (bare stack).belowExtras = bare stack.belowExtras := by
  simp [belowExtras, bare, List.dropWhile_map, Function.comp_def]

@[simp] theorem hasConsumedRecovery_bare (stack : Stack) :
    (bare stack).hasConsumedRecovery = stack.hasConsumedRecovery := by
  simp [hasConsumedRecovery, bare, List.any_map, Function.comp_def,
    Subtree.hasConsumedRecovery_bare]

/-! ### Putting subtrees together -/

theorem takeOff_bare (count : Nat) (stack : Stack) (taken : List Subtree) :
    takeOff count (bare stack) (taken.map Subtree.bare) =
      ((takeOff count stack taken).1.map Subtree.bare, bare (takeOff count stack taken).2) := by
  fun_induction takeOff count stack taken with
  | case1 stack taken => simp [takeOff]
  | case2 count taken => simp [takeOff]
  | case3 count taken entry stack extra ih => simpa [takeOff, extra] using ih
  | case4 count taken entry stack extra ih => simpa [takeOff, extra] using ih

theorem reduce?_bare (language : Language) (stack : Stack) (symbol : Symbol) (count : UInt8)
    (token : Subtree) :
    (reduce? language (bare stack) symbol count token.bare).map bare =
      (reduce? language stack symbol count token).map bare := by
  have ht := takeOff_bare count.toNat stack.belowExtras []
  simp only [List.map_nil] at ht
  simp only [reduce?, belowExtras_bare, extras_bare, ht, top_bare, Option.map_map]
  congr 1
  funext target
  have hn := bare_node_map language symbol (takeOff count.toNat stack.belowExtras []).1
    (Stack.top (takeOff count.toNat stack.belowExtras []).2)
  simp only [bare_eq_iff] at hn
  obtain ⟨hs, hp, hz, hm, hc⟩ := hn
  simp only [Function.comp_apply, bare_append, bare_cons, bare_bare, Entry.bare]
  congr 1
  · simp [bare, Entry.bare, Function.comp_def]
  · congr 2
    exact bare_eq_iff.mpr ⟨hs, hp, hz, hm, hc⟩

theorem bare_joinErrorTokens (first second : Subtree) :
    (joinErrorTokens first.bare second.bare).bare = (joinErrorTokens first second).bare := by
  obtain ⟨head, children⟩ := first
  simp [joinErrorTokens, bare_mk, Subtree.head, Subtree.children, Subtree.size,
    Function.comp_def]

theorem map_bare_addSkipped (children : List Subtree) (token : Subtree) :
    (addSkipped (children.map Subtree.bare) token.bare).map Subtree.bare =
      (addSkipped children token).map Subtree.bare := by
  fun_induction addSkipped children token with
  | case1 => simp [addSkipped]
  | case2 last token joined =>
    simp only [List.map, addSkipped, bare_isErrorToken, if_pos joined, bare_joinErrorTokens]
  | case3 last token joined =>
    simp only [List.map, addSkipped, bare_isErrorToken, if_neg joined, Subtree.bare_bare]
  | case4 token first second rest ih => simpa [addSkipped] using ih

theorem bare_mergeErrors (language : Language) (previous token : Subtree) (state : StateId) :
    (mergeErrors language previous.bare token.bare state).bare =
      (mergeErrors language previous token state).bare := by
  simp only [mergeErrors, bare_isErrorToken, bare_marks, bare_children]
  by_cases joined : (previous.isErrorToken && token.isErrorToken) = true
  · rw [if_pos joined, if_pos joined, bare_joinErrorTokens]
  · rw [if_neg joined, if_neg joined]
    apply bare_errorNode_congr
    by_cases atom : previous.marks.token = true
    · simpa [atom] using map_bare_addSkipped [previous] token
    · simpa [atom] using map_bare_addSkipped previous.children token

theorem skip_bare (language : Language) (stack : Stack) (token : Subtree) :
    bare (skip language (bare stack) token.bare) = bare (skip language stack token) := by
  have alone : ∀ p : StateId,
      (if token.isErrorToken then token.bare else errorNode language [token.bare] p).bare =
        (if token.isErrorToken then token else errorNode language [token] p).bare := by
    intro p
    by_cases e : token.isErrorToken = true
    · simp [e]
    · simpa [e] using bare_errorNode_congr p p (by simp)
  cases stack with
  | nil => simpa [skip, bare, Entry.bare, top] using alone startState
  | cons entry rest =>
    by_cases e : (entry.subtree.symbol = errorSymbol ∧ entry.subtree.marks.extra = true)
    · simp [skip, e, Entry.bare, top, bare_mergeErrors]
    · simpa [skip, e, Entry.bare, top] using alone entry.state

end Stack

/-! ### Bare runs -/

def Lookahead.bare (lookahead : Lookahead) : Lookahead :=
  ⟨lookahead.token.bare, lookahead.mode⟩

@[simp] theorem Lookahead.bare_token (lookahead : Lookahead) :
    lookahead.bare.token = lookahead.token.bare := rfl

@[simp] theorem Lookahead.bare_mode (lookahead : Lookahead) :
    lookahead.bare.mode = lookahead.mode := rfl

@[simp] theorem Lookahead.bare_bare (lookahead : Lookahead) :
    lookahead.bare.bare = lookahead.bare := by
  simp [Lookahead.bare]

/-- A run without all that no later move depends on. -/
def Run.bare (run : Run) : Run :=
  { run with
    stack := run.stack.bare, lookahead := run.lookahead.map (·.bare), reused := 0 }

def Progress.bare : Progress → Progress
  | .running run => .running run.bare
  | .finished root _ => .finished root.bare 0

theorem Progress.exists_running {progress : Progress} {run : Run}
    (h : progress.bare = .running run) : ∃ next, progress = .running next ∧ next.bare = run := by
  cases progress with
  | running next => exact ⟨next, rfl, Progress.running.inj h⟩
  | finished root reused => cases h

def Move.bare : Move → Move
  | .reuse subtree target => .reuse subtree.bare target
  | .shift token target => .shift token.bare target
  | .reduce lookahead stack => .reduce lookahead.bare stack.bare
  | .accept token => .accept token.bare
  | .reduceByDefault lookahead stack => .reduceByDefault lookahead.bare stack.bare
  | .insert lookahead symbol target => .insert lookahead.bare symbol target
  | .wrap token symbol target => .wrap token.bare symbol target
  | .skip token => .skip token.bare
  | .giveUp token => .giveUp token.bare

namespace Run

variable (setting : Setting) (run : Run)

@[simp] theorem bare_stack : run.bare.stack = run.stack.bare := rfl

@[simp] theorem bare_position : run.bare.position = run.position := rfl

@[simp] theorem bare_lookahead : run.bare.lookahead = run.lookahead.map (·.bare) := rfl

@[simp] theorem bare_inserted : run.bare.inserted = run.inserted := rfl

@[simp] theorem bare_recoveries : run.bare.recoveries = run.recoveries := rfl

@[simp] theorem bare_state : run.bare.state = run.state := Stack.top_bare run.stack

@[simp] theorem bare_bare : run.bare.bare = run.bare := by
  simp [bare, Option.map_map, Function.comp_def]

/-! ### Results -/

theorem bare_giveUp (token : Subtree) :
    (run.bare.giveUp setting token.bare).bare = (run.giveUp setting token).bare := by
  apply bare_node_congr
  simp only [bare_stack, Stack.subtrees_bare, bare_symbol, bare_position, bare_totalSize,
    bare_isErrorToken, bare_size, List.map_append, List.map_map]
  congr 1
  · exact List.map_congr_left fun tree _ => Subtree.bare_bare tree
  · obtain ⟨head, children⟩ := token
    split
    · simp
    · split
      · simp [bare_mk, Subtree.head, Subtree.children, Function.comp_def]
      · split <;> simp

theorem bare_accept (token : Subtree) :
    (run.bare.accept setting token.bare).bare = (run.accept setting token).bare := by
  have below := Stack.belowExtras_bare run.stack
  rcases e : run.stack.belowExtras with - | ⟨entry, rest⟩
  · simp only [accept, bare_stack, below, e, Stack.bare_nil]
    exact bare_giveUp setting run token
  · simp only [accept, bare_stack, below, e, Stack.bare_cons, Entry.bare_subtree, bare_symbol]
    apply bare_node_congr
    by_cases atom : entry.subtree.marks.token = true
    · simp [atom, Function.comp_def]
    · simp [atom, Function.comp_def]

/-! ### Moves -/

/-- What a move does, up to the parts forgotten, is what its bare form does. -/
theorem make_bare (move : Move) :
    (run.bare.make setting move.bare).bare = (run.make setting move).bare := by
  cases move with
  | reuse subtree target =>
    simp [make, Move.bare, Progress.bare, bare, push, Entry.bare, Option.map_map,
      Function.comp_def]
  | shift token target => simp [make, Move.bare, Progress.bare, bare, push, Entry.bare]
  | reduce lookahead stack => simp [make, Move.bare, Progress.bare, bare]
  | accept token => simp only [make, Move.bare, Progress.bare, bare_accept]
  | reduceByDefault lookahead stack => simp [make, Move.bare, Progress.bare, bare]
  | insert lookahead symbol target =>
    simp [make, Move.bare, Progress.bare, bare, Entry.bare, state]
  | wrap token symbol target =>
    have h : (Subtree.node setting.language symbol [token.bare] run.state).bare =
        (Subtree.node setting.language symbol [token] run.state).bare :=
      bare_node_map setting.language symbol [token] run.state
    have ht : (Subtree.node setting.language symbol [token.bare] run.state).totalSize =
        (Subtree.node setting.language symbol [token] run.state).totalSize := by
      rw [← bare_totalSize, h, bare_totalSize]
    simp [make, Move.bare, Progress.bare, push, bare, Entry.bare, state] at h ht ⊢
    exact ⟨h, ht⟩
  | skip token =>
    simp [make, Move.bare, Progress.bare, bare, Stack.skip_bare]
  | giveUp token => simp only [make, Move.bare, Progress.bare, bare_giveUp]

theorem bare_recovery (lookahead : Lookahead) :
    (run.bare.recovery setting lookahead.bare).bare = (run.recovery setting lookahead).bare := by
  have hd : (run.bare.defaultReduction? setting lookahead.bare).map Stack.bare =
      (run.defaultReduction? setting lookahead).map Stack.bare := by
    simp only [defaultReduction?, bare_state]
    rcases setting.language.defaultReduction? run.state with - | ⟨symbol, count⟩
    · rfl
    · exact Stack.reduce?_bare ..
  have hi : run.bare.insertion? setting = run.insertion? setting := by
    funext symbol
    simp [insertion?]
  have hw : run.bare.wrapping? setting = run.wrapping? setting := by
    funext symbol
    simp [wrapping?]
  simp only [recovery, bare_recoveries, hi, hw, Lookahead.bare_token, bare_symbol, bare_stack,
    Stack.hasConsumedRecovery_bare]
  split
  · simp [Move.bare]
  · rcases e : run.defaultReduction? setting lookahead with - | stack <;>
      rcases e' : run.bare.defaultReduction? setting lookahead.bare with - | stack'
    · simp only
      split
      · simp [Move.bare]
      · rcases run.insertion? setting lookahead.token.symbol with - | ⟨symbol, target⟩
        · rcases run.wrapping? setting lookahead.token.symbol with - | ⟨symbol, target⟩
          · simp only
            split <;> simp [Move.bare]
          · simp [Move.bare]
        · simp [Move.bare]
    · simp [e, e'] at hd
    · simp [e, e'] at hd
    · simp only [e, e', Option.map_some, Option.some.injEq] at hd
      simp [Move.bare, hd]

theorem bare_moveOn (lookahead : Lookahead) :
    (run.bare.moveOn setting lookahead.bare).bare = (run.moveOn setting lookahead).bare := by
  rw [moveOn, moveOn, bare_state, Lookahead.bare_token, bare_symbol]
  rcases e : setting.language.action? run.state lookahead.token.symbol with - | action
  · exact bare_recovery ..
  · cases action with
    | shift target => simp [Move.bare]
    | reduce symbol count =>
      have hr := Stack.reduce?_bare setting.language run.stack symbol count lookahead.token
      simp only [bare_stack]
      rcases e₁ : run.stack.reduce? setting.language symbol count lookahead.token with - | stack <;>
        rcases e₂ : run.stack.bare.reduce? setting.language symbol count lookahead.token.bare
          with - | stack'
      · simp [Move.bare]
      · simp [e₁, e₂] at hr
      · simp [e₁, e₂] at hr
      · simp only [e₁, e₂, Option.map_some, Option.some.injEq] at hr
        simp [Move.bare, hr]
    | accept =>
      simp only
      split
      · simp [Move.bare]
      · exact bare_recovery ..
    | recover => exact bare_recovery ..

theorem bare_current : (run.bare.current setting).bare = (run.current setting).bare := by
  rcases e : run.lookahead with - | lookahead
  · simp [current, e]
  · simp only [current, bare_lookahead, e, Option.map_some, bare_state, Lookahead.bare_token,
      bare_symbol, Lookahead.bare_mode]
    split
    · simp
    · simp

/-- **A parse is blind to what its subtrees depend on**: the step on the
current token, up to the parts forgotten, is that of the bare run. -/
theorem turn_bare : (run.bare.turn setting).bare = (run.turn setting).bare := by
  rw [turn, ← make_bare setting run.bare, ← bare_moveOn setting run.bare, bare_bare, bare_current,
    bare_moveOn, make_bare, turn]

end Run

end Reparse
