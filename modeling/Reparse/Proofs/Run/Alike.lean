/-
Reparse/Proofs/Run/Alike.lean

Parses that differ in what does not matter.

Two runs are `Alike` if they have the same bare stack and lookahead, the same
position and the same insertions.  They may have made different numbers of
recoveries, which no move asks for but to compare it with the limit.  So where
both may still recover, or have none to make, they take the same move and stay
alike, or end with roots that look the same: `Alike.turn`.
-/
import Reparse.Proofs.Run.Bare

namespace Reparse

open Subtree

/-! ### Alike runs -/

/-- Whether two runs look the same up to the recoveries made. -/
structure Run.Alike (a b : Run) : Prop where
  stack : a.stack.bare = b.stack.bare
  position : a.position = b.position
  lookahead : a.lookahead.map (·.bare) = b.lookahead.map (·.bare)
  inserted : a.inserted = b.inserted

/-- Whether two steps come to alike runs, or to roots that look the same. -/
inductive Progress.Alike : Progress → Progress → Prop
  | running {a b : Run} (h : a.Alike b) : Alike (.running a) (.running b)
  | finished {a b : Subtree} {m n : Nat} (h : a.bare = b.bare) :
      Alike (.finished a m) (.finished b n)

namespace Run

variable {a b c : Run}

theorem alike_of_bare (h : a.bare = b.bare) : a.Alike b where
  stack := show a.bare.stack = b.bare.stack by rw [h]
  position := show a.bare.position = b.bare.position by rw [h]
  lookahead := show a.bare.lookahead = b.bare.lookahead by rw [h]
  inserted := show a.bare.inserted = b.bare.inserted by rw [h]

theorem Alike.symm (h : a.Alike b) : b.Alike a :=
  ⟨h.stack.symm, h.position.symm, h.lookahead.symm, h.inserted.symm⟩

theorem Alike.trans (h : a.Alike b) (h' : b.Alike c) : a.Alike c :=
  ⟨h.stack.trans h'.stack, h.position.trans h'.position, h.lookahead.trans h'.lookahead,
    h.inserted.trans h'.inserted⟩

theorem Alike.state (h : a.Alike b) : a.state = b.state := by
  rw [Run.state, Run.state, ← Stack.top_bare, h.stack, Stack.top_bare]

/-- The run as if it had made so many recoveries. -/
def counting (run : Run) (count : Nat) : Run := { run with recoveries := count }

/-- Alike runs differ, when bare, in their recoveries only. -/
theorem Alike.bare_eq (h : a.Alike b) : b.bare = a.bare.counting b.recoveries := by
  obtain ⟨stack, position, lookahead, inserted⟩ := h
  simp only [bare, counting, stack, position, lookahead, inserted]

end Run

namespace Progress

variable {p q r : Progress}

theorem alike_of_bare (h : p.bare = q.bare) : p.Alike q := by
  cases p with
  | running a =>
    cases q with
    | running b => exact .running (Run.alike_of_bare (Progress.running.inj h))
    | finished root reused => cases h
  | finished root reused =>
    cases q with
    | running b => cases h
    | finished other reused' => exact .finished (Progress.finished.inj h).1

theorem Alike.trans (h : p.Alike q) (h' : q.Alike r) : p.Alike r := by
  cases h with
  | running h => cases h' with | running h' => exact .running (h.trans h')
  | finished h => cases h' with | finished h' => exact .finished (h.trans h')

theorem Alike.symm (h : p.Alike q) : q.Alike p := by
  cases h with
  | running h => exact .running h.symm
  | finished h => exact .finished h.symm

end Progress

/-! ### Alike steps -/

namespace Run

variable {setting : Setting} {a b : Run}

/-- Whether the limit of recoveries does not matter for the next move: there is
a recovery left, or the text is complete. -/
def Free (setting : Setting) (run : Run) : Prop :=
  run.recoveries < setting.maxRecoveries ∨
    setting.language.action? run.state (run.current setting).token.symbol = some .accept ∧
      (run.current setting).token.symbol = endSymbol

/-- How many recoveries were made matters for the limit only. -/
theorem moveOn_recoveries {run : Run} (count : Nat)
    (free : run.recoveries < setting.maxRecoveries) (free' : count < setting.maxRecoveries)
    (lookahead : Lookahead) :
    (run.counting count).moveOn setting lookahead = run.moveOn setting lookahead := by
  have same : (run.counting count).recovery setting lookahead = run.recovery setting lookahead := by
    rw [recovery, recovery, if_neg (Nat.not_le.mpr free), if_neg (by exact Nat.not_le.mpr free')]
    rfl
  rw [moveOn, moveOn, same]
  rfl

theorem moveOn_complete {run : Run} {lookahead : Lookahead}
    (action : setting.language.action? run.state lookahead.token.symbol = some .accept)
    (complete : lookahead.token.symbol = endSymbol) :
    moveOn setting run lookahead = .accept lookahead.token := by
  simp only [moveOn, action, if_pos complete]

/-- A move does the same whatever recoveries were made before. -/
theorem make_recoveries (setting : Setting) (run : Run) (count : Nat) (move : Move) :
    ((run.counting count).make setting move).Alike (run.make setting move) := by
  cases move with
  | reuse | shift | reduce | reduceByDefault | insert | wrap | skip =>
    exact .running ⟨rfl, rfl, rfl, rfl⟩
  | accept | giveUp => exact .finished rfl

theorem current_bare_symbol (setting : Setting) (run : Run) :
    (run.bare.current setting).token.symbol = (run.current setting).token.symbol := by
  have := congrArg (fun lookahead => lookahead.token.symbol) (bare_current setting run)
  simpa using this

/-- **Alike runs take alike steps**, if the limit of recoveries does not matter. -/
theorem Alike.turn (h : a.Alike b) (free : a.Free setting) (free' : b.Free setting) :
    (a.turn setting).Alike (b.turn setting) := by
  have state : b.state = a.state := h.state.symm
  have current : (b.current setting).token.symbol = (a.current setting).token.symbol := by
    rw [← current_bare_symbol, h.bare_eq, ← current_bare_symbol setting a]
    rfl
  have move : (a.bare.counting b.recoveries).moveOn setting (a.bare.current setting) =
      a.bare.moveOn setting (a.bare.current setting) := by
    have complete (accept : setting.language.action? a.state (a.current setting).token.symbol =
        some .accept) (stop : (a.current setting).token.symbol = endSymbol) :
        (a.bare.counting b.recoveries).moveOn setting (a.bare.current setting) =
          a.bare.moveOn setting (a.bare.current setting) := by
      rw [← current_bare_symbol] at accept stop
      rw [← bare_state] at accept
      rw [moveOn_complete accept stop, moveOn_complete (by exact accept) stop]
    rcases free with left | ⟨accept, stop⟩
    · rcases free' with right | ⟨accept, stop⟩
      · exact moveOn_recoveries _ (show a.bare.recoveries < _ from left) right _
      · rw [state, current] at accept
        exact complete accept (current ▸ stop)
    · exact complete accept stop
  have bares : (b.bare.turn setting).Alike (a.bare.turn setting) := by
    have made := make_recoveries setting a.bare b.recoveries
      (a.bare.moveOn setting (a.bare.current setting))
    rw [← move] at made
    rw [h.bare_eq]
    exact made.trans (Progress.alike_of_bare (by rw [move]; rfl))
  have left : (a.bare.turn setting).Alike (a.turn setting) :=
    Progress.alike_of_bare (turn_bare setting a)
  have right : (b.bare.turn setting).Alike (b.turn setting) :=
    Progress.alike_of_bare (turn_bare setting b)
  exact (left.symm.trans bares.symm).trans right

end Run

end Reparse
