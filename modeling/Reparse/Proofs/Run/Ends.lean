/-
Reparse/Proofs/Run/Ends.lean

How a parse comes to its root.

`Ends` follows a run to its root and counts the steps.  A run that ends in time
gives the root of the parse, and what every step preserves holds there.
-/
import Reparse.Proofs.Run.OnStack

namespace Reparse

namespace Run

/-- A run comes to a root in at most so many steps. -/
inductive Ends (setting : Setting) (root : Subtree) : Nat → Run → Prop
  | now {steps : Nat} {run : Run} {reused : Nat}
      (finished : run.step setting = .finished root reused) : Ends setting root (steps + 1) run
  | later {steps : Nat} {run next : Run} (running : run.step setting = .running next)
      (rest : Ends setting root steps next) : Ends setting root (steps + 1) run

/-- A run comes to another one. -/
inductive Steps (setting : Setting) : Run → Run → Prop
  | refl {run : Run} : Steps setting run run
  | head {run next last : Run} (running : run.step setting = .running next)
      (rest : Steps setting next last) : Steps setting run last

theorem Steps.trans {setting : Setting} {a b c : Run} (h : Steps setting a b)
    (h' : Steps setting b c) : Steps setting a c := by
  induction h with
  | refl => exact h'
  | head running rest ih => exact .head running (ih h')

variable {setting : Setting} {root : Subtree}

/-- What a run comes to ends with the same root. -/
theorem Ends.of_steps {steps : Nat} {run last : Run} (h : Ends setting root steps run)
    (hs : Steps setting run last) : ∃ fewer, Ends setting root fewer last := by
  induction hs generalizing steps with
  | refl => exact ⟨steps, h⟩
  | head running rest ih =>
    cases h with
    | now finished => rw [running] at finished; cases finished
    | later running' rest' =>
      obtain rfl := Progress.running.inj (running.symm.trans running')
      exact ih rest'

theorem Steps.of_invariant {I : Run → Prop}
    (step : ∀ run next, I run → run.step setting = .running next → I next) {run last : Run}
    (h : Steps setting run last) (start : I run) : I last := by
  induction h with
  | refl => exact start
  | head running rest ih => exact ih (step _ _ start running)

theorem Ends.advance {steps : Nat} {run : Run} (h : Ends setting root steps run) (limit : Nat)
    (hl : steps ≤ limit) :
    ∃ reused, Progress.advance setting limit (.running run) = .finished root reused := by
  induction h generalizing limit with
  | @now steps run reused finished =>
    obtain ⟨limit, rfl⟩ : ∃ k, limit = k + 1 := ⟨limit - 1, by omega⟩
    refine ⟨reused, ?_⟩
    rw [Progress.advance, finished]
    cases limit <;> rfl
  | later running rest ih =>
    obtain ⟨limit, rfl⟩ : ∃ k, limit = k + 1 := ⟨limit - 1, by omega⟩
    obtain ⟨reused, h⟩ := ih limit (by omega)
    exact ⟨reused, by rw [Progress.advance, running, h]⟩

/-- A run that ends in time has the root of the parse. -/
theorem Ends.parse {steps : Nat} (h : Ends setting root steps {}) (hl : steps ≤ stepLimit) :
    setting.parse.1 = root := by
  obtain ⟨reused, h⟩ := h.advance _ hl
  rw [Setting.parse, h]

/-- The last step of a parse is to accept, or to give up. -/
theorem finished_cases {run : Run} {reused : Nat} (h : run.step setting = .finished root reused) :
    reused = run.reused ∧ ∃ token,
      (run.move setting = .accept token ∧ root = run.accept setting token) ∨
        (run.move setting = .giveUp token ∧ root = run.giveUp setting token) := by
  rw [step] at h
  generalize run.move setting = move at h
  cases move with
  | accept token => cases h; exact ⟨rfl, token, .inl ⟨rfl, rfl⟩⟩
  | giveUp token => cases h; exact ⟨rfl, token, .inr ⟨rfl, rfl⟩⟩
  | reuse | shift | reduce | reduceByDefault | insert | wrap | skip => cases h

/-- The run that a parse ends in, and how many steps there are before. -/
theorem Ends.last {steps : Nat} {run : Run} (h : Ends setting root steps run) :
    ∃ count < steps, ∃ last reused,
      Progress.advance setting count (.running run) = .running last ∧
      last.step setting = .finished root reused := by
  induction h with
  | now finished => exact ⟨0, Nat.succ_pos _, _, _, rfl, finished⟩
  | later running rest ih =>
    obtain ⟨count, fewer, last, reused, here, finished⟩ := ih
    exact ⟨count + 1, Nat.succ_lt_succ fewer, last, reused,
      by rw [Progress.advance, running, here], finished⟩

/-- Behind its last run a parse stays at its root. -/
theorem advance_of_finished {count steps : Nat} {run last : Run} {reused : Nat}
    (here : Progress.advance setting count (.running run) = .running last)
    (finished : last.step setting = .finished root reused) (h : count < steps) :
    Progress.advance setting steps (.running run) = .finished root reused := by
  obtain ⟨steps, rfl⟩ : ∃ k, steps = k + 1 := ⟨steps - 1, by omega⟩
  induction count generalizing run steps with
  | zero =>
    obtain rfl := Progress.running.inj here
    rw [Progress.advance, finished]
    cases steps <;> rfl
  | succ count ih =>
    rw [Progress.advance] at here ⊢
    rcases e : run.step setting with next | ⟨root', reused'⟩
    · obtain ⟨steps, rfl⟩ : ∃ k, steps = k + 1 := ⟨steps - 1, by omega⟩
      rw [e] at here
      exact ih here steps (by omega)
    · -- a parse that is at its root does not run on
      rw [e] at here
      cases count <;> cases here

/-- What so many steps of a run come to: a run, or the root of a run before. -/
theorem advance_cases (setting : Setting) (steps : Nat) (run : Run) :
    (∃ last, Steps setting run last ∧
        Progress.advance setting steps (.running run) = .running last) ∨
      ∃ last root reused, Steps setting run last ∧ last.step setting = .finished root reused ∧
        Progress.advance setting steps (.running run) = .finished root reused := by
  induction steps generalizing run with
  | zero => exact .inl ⟨run, .refl, rfl⟩
  | succ steps ih =>
    rw [Progress.advance]
    rcases e : run.step setting with next | ⟨root, reused⟩
    · rcases ih next with ⟨last, reached, here⟩ | ⟨last, root, reused, reached, done, here⟩
      · exact .inl ⟨last, .head e reached, here⟩
      · exact .inr ⟨last, root, reused, .head e reached, done, here⟩
    · exact .inr ⟨run, root, reused, .refl, e, by cases steps <;> rfl⟩

/-- A parse ends where its last run ends, or it was stopped and gives up there. -/
theorem parse_cases (setting : Setting) :
    ∃ last, Steps setting {} last ∧
      ((∃ reused, last.step setting = .finished setting.parse.1 reused) ∨
        setting.parse.1 = last.giveUp setting (last.current setting).token) := by
  rcases advance_cases setting stepLimit {} with
    ⟨last, reached, e⟩ | ⟨last, root, reused, reached, done, e⟩
  · exact ⟨last, reached, .inr (by rw [Setting.parse, e])⟩
  · exact ⟨last, reached, .inl ⟨reused, by rw [done, Setting.parse, e]⟩⟩

/-- What every step preserves holds at the end. -/
theorem Ends.of_invariant {I : Run → Prop} {R : Subtree → Prop}
    (step : ∀ run next, I run → run.step setting = .running next → I next)
    (finish : ∀ run root reused, I run → run.step setting = .finished root reused → R root)
    {steps : Nat} {run : Run} (h : Ends setting root steps run) (start : I run) : R root := by
  induction h with
  | now finished => exact finish _ _ _ start finished
  | later running rest ih => exact ih (step _ _ start running)

/-- **What every step of a parse preserves** holds of its root, also if it was stopped. -/
theorem every_parse {I : Run → Prop} {R : Subtree → Prop} (start : I {})
    (step : ∀ run next, I run → run.step setting = .running next → I next)
    (finished : ∀ run root reused, I run → run.step setting = .finished root reused → R root)
    (stopped : ∀ run, I run → R (run.giveUp setting (run.current setting).token)) :
    (∀ steps root reused, Progress.advance setting steps (.running {}) = .finished root reused →
      R root) ∧ R setting.parse.1 := by
  have along {run : Run} (reached : Steps setting {} run) : I run := reached.of_invariant step start
  constructor
  · intro steps root reused done
    rcases advance_cases setting steps {} with
      ⟨last, -, e⟩ | ⟨last, root', reused', reached, ends, e⟩
    · rw [e] at done
      cases done
    · rw [e] at done
      cases done
      exact finished last root reused (along reached) ends
  · obtain ⟨last, reached, ⟨reused, ends⟩ | stops⟩ := parse_cases setting
    · exact finished last _ reused (along reached) ends
    · rw [stops]
      exact stopped last (along reached)

/-- The same of a fresh parse, where every step is one on the current token. -/
theorem fresh_parse (fresh : setting.old = none) {I : Run → Prop} {R : Subtree → Prop}
    (start : I {}) (turn : ∀ run next, I run → run.turn setting = .running next → I next)
    (finished : ∀ run root reused, I run → run.turn setting = .finished root reused → R root)
    (stopped : ∀ run, I run → R (run.giveUp setting (run.current setting).token)) :
    (∀ steps root reused, Progress.advance setting steps (.running {}) = .finished root reused →
      R root) ∧ R setting.parse.1 := by
  refine every_parse start ?_ ?_ stopped
  · intro run next h running
    exact turn run next h ((step_of_fresh fresh run).symm.trans running)
  · intro run root reused h done
    exact finished run root reused h ((step_of_fresh fresh run).symm.trans done)

end Run

end Reparse
