/-
Reparse/Run/Step.lean

A parse as a sequence of moves.
-/
import Reparse.Run.Move

namespace Reparse

/-- Where a parse is: under way, or done with a root and a number of reused
subtrees. -/
inductive Progress where
  | running (run : Run)
  | finished (root : Subtree) (reused : Nat)

namespace Run

/-- What a move does. -/
def make (setting : Setting) (run : Run) : Move → Progress
  | .reuse subtree target =>
    .running { run.push target subtree with reused := run.reused + 1 }
  | .shift token target => .running { run.push target token with lookahead := none }
  | .reduce lookahead stack => .running { run with stack, lookahead := some lookahead }
  | .accept token => .finished (run.accept setting token) run.reused
  | .reduceByDefault lookahead stack =>
    .running { run with
      stack, lookahead := some lookahead, recoveries := run.recoveries + 1 }
  | .insert lookahead symbol target =>
    let node := Subtree.missing setting.language symbol run.state
    .running { run with
      stack := ⟨target, node⟩ :: run.stack
      lookahead := some lookahead
      inserted := (run.state, run.position) :: run.inserted
      recoveries := run.recoveries + 1 }
  | .wrap token symbol target =>
    let node := Subtree.node setting.language symbol [token] run.state
    .running { run.push target node with
      lookahead := none, recoveries := run.recoveries + 1 }
  | .skip token =>
    .running { run with
      stack := run.stack.skip setting.language token
      position := run.position + token.totalSize
      lookahead := none
      recoveries := run.recoveries + 1 }
  | .giveUp token => .finished (run.giveUp setting token) run.reused

/-- One step of a parse. -/
def step (setting : Setting) (run : Run) : Progress :=
  run.make setting (run.move setting)

end Run

namespace Progress

/-- At most `steps` more steps. -/
def advance (setting : Setting) : Nat → Progress → Progress
  | 0, progress => progress
  | _ + 1, .finished root reused => .finished root reused
  | steps + 1, .running run => advance setting steps (run.step setting)

end Progress

/-- No parse makes more steps than this.  A grammar may have states that
reduce in a circle; a parse that is caught there gives up in the end. -/
def stepLimit : Nat := 0x4000000000000000

/-- The root of a parse and how many subtrees it took from the old tree. -/
def Setting.parse (setting : Setting) : Subtree × Nat :=
  match Progress.advance setting stepLimit (.running {}) with
  | .finished root reused => (root, reused)
  | .running run => (run.giveUp setting (run.current setting).token, run.reused)

end Reparse
