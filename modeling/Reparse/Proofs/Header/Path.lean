/-
Reparse/Proofs/Header/Path.lean

The stack of a header parse is a path through the graph of the table.

A stack is `Linked` if each entry was put on along an edge, or is an extra in
front of a resting state.  Then the states of its entries that are no extras
are the path of its top, so every reduction finds a goto.  A parse is `Orderly`
with such a stack; every step but the last adds to rank or position, which
bounds the steps and the recoveries by the size of the text.
-/
import Reparse.Proofs.Header.Token
import Reparse.Proofs.Run.Along
import Reparse.Proofs.Run.Ends

namespace Reparse.Header

open Subtree

/-! ### Linked stacks -/

/-- A stack that was put on along the edges of the table. -/
def Linked : Stack → Prop
  | [] => True
  | entry :: below =>
    (if entry.subtree.marks.extra then entry.state = Stack.top below ∧ entry.state ∈ resting
      else (Stack.top below, entry.subtree.symbol, entry.state) ∈ edges) ∧ Linked below

theorem linked_iff_along {stack : Stack} : Linked stack ↔
    stack.Along (fun state symbol target => (state, symbol, target) ∈ edges) (· ∈ resting) := by
  induction stack with
  | nil => exact Iff.rfl
  | cons entry below ih => rw [Linked, Stack.Along, ih]

/-- The entries that are no extras. -/
def inner (stack : Stack) : Stack :=
  stack.filter fun entry => !entry.subtree.marks.extra

@[simp] theorem inner_nil : inner [] = [] := rfl

theorem inner_cons_extra {entry : Entry} {below : Stack} (h : entry.subtree.marks.extra = true) :
    inner (entry :: below) = inner below := by
  simp [inner, h]

theorem inner_cons {entry : Entry} {below : Stack} (h : entry.subtree.marks.extra = false) :
    inner (entry :: below) = entry :: inner below := by
  simp [inner, h]

theorem linked_extra {entry : Entry} {below : Stack} (h : entry.subtree.marks.extra = true) :
    Linked (entry :: below) ↔
      (entry.state = Stack.top below ∧ entry.state ∈ resting) ∧ Linked below := by
  simp [Linked, h]

theorem linked_cons {entry : Entry} {below : Stack} (h : entry.subtree.marks.extra = false) :
    Linked (entry :: below) ↔
      (Stack.top below, entry.subtree.symbol, entry.state) ∈ edges ∧ Linked below := by
  simp [Linked, h]

/-- The states on a linked stack are the path of its top. -/
theorem Linked.inner_states {stack : Stack} (h : Linked stack) :
    (inner stack).map (·.state) = path stack.top := by
  induction stack with
  | nil => rfl
  | cons entry below ih =>
    rcases e : entry.subtree.marks.extra with - | -
    · obtain ⟨edge, hb⟩ := (linked_cons e).mp h
      rw [inner_cons e, List.map_cons, ih hb]
      exact (path_of_mem_edges edge).symm
    · obtain ⟨⟨same, -⟩, hb⟩ := (linked_extra e).mp h
      rw [inner_cons_extra e, ih hb, ← same]
      rfl

theorem Linked.top_mem {stack : Stack} (h : Linked stack) : stack.top ∈ states := by
  induction stack with
  | nil => decide
  | cons entry below ih =>
    rcases e : entry.subtree.marks.extra with - | -
    · have : ∀ edge ∈ edges, edge.2.2 ∈ states := by decide
      exact this _ ((linked_cons e).mp h).1
    · obtain ⟨⟨same, -⟩, hb⟩ := (linked_extra e).mp h
      rw [Stack.top, same]
      exact ih hb

theorem Linked.pathTop {stack : Stack} (h : Linked stack) : pathTop (path stack.top) = stack.top := by
  have : ∀ state ∈ states, Header.pathTop (path state) = state := by decide
  exact this _ h.top_mem

theorem Linked.suffix {stack below : Stack} (h : Linked stack) (hs : below <:+ stack) :
    Linked below :=
  linked_iff_along.mpr ((linked_iff_along.mp h).suffix hs)

theorem inner_belowExtras (stack : Stack) : inner stack.belowExtras = inner stack := by
  induction stack with
  | nil => rfl
  | cons entry below ih =>
    rcases e : entry.subtree.marks.extra with - | -
    · simp [Stack.belowExtras, e]
    · rw [inner_cons_extra e, ← ih]
      simp [Stack.belowExtras, e]

theorem Linked.belowExtras {stack : Stack} (h : Linked stack) :
    Linked stack.belowExtras ∧ stack.belowExtras.top = stack.top ∧
      inner stack.belowExtras = inner stack :=
  ⟨h.suffix (List.dropWhile_suffix _), (linked_iff_along.mp h).top_belowExtras,
    inner_belowExtras stack⟩

theorem inner_takeOff (count : Nat) (stack : Stack) (taken : List Subtree)
    (hc : count ≤ (inner stack).length) :
    inner (Stack.takeOff count stack taken).2 = (inner stack).drop count := by
  fun_induction Stack.takeOff count stack taken with
  | case1 stack taken => rfl
  | case2 count taken => simp at hc
  | case3 count taken entry stack extra ih =>
    rw [inner_cons_extra extra] at hc ⊢
    exact ih hc
  | case4 count taken entry stack extra ih =>
    rw [inner_cons (by simpa using extra)] at hc ⊢
    exact ih (by simpa using hc)

theorem extras_states {stack : Stack} (h : Linked stack) :
    stack.extras = [] ∨ stack.top ∈ resting :=
  (linked_iff_along.mp h).extras

/-- What a reduction takes off leaves the state that the path says. -/
theorem Linked.top_takeOff {stack : Stack} (h : Linked stack) {count : Nat}
    (hc : count ≤ (path stack.top).length) (taken : List Subtree) :
    Stack.top (Stack.takeOff count stack.belowExtras taken).2 =
      Header.pathTop ((path stack.top).drop count) := by
  obtain ⟨hb, -, hi⟩ := h.belowExtras
  have states := h.inner_states
  have enough : count ≤ (inner stack.belowExtras).length := by
    rw [hi, ← List.length_map (f := (·.state)), states]
    exact hc
  have hrest := hb.suffix (Stack.takeOff_suffix count stack.belowExtras taken)
  rw [← hrest.pathTop, ← hrest.inner_states, ← states, ← hi, ← List.map_drop]
  exact congrArg (fun s => Header.pathTop (s.map (·.state))) (inner_takeOff count _ taken enough)

/-- A state that reduces finds the state to go to. -/
theorem exists_reduce? {stack : Stack} (h : Linked stack) {made : Symbol} {count : UInt8}
    (hr : (stack.top, made, count) ∈ reductions) (token : Subtree) :
    ∃ reduced, stack.reduce? language made count token = some reduced ∧ Linked reduced ∧
      language.goto? (pathTop ((path stack.top).drop count.toNat)) made = some reduced.top ∧
      rank stack.top < rank reduced.top := by
  obtain ⟨hc, target, goto, edge, higher, keeps⟩ := goto?_of_mem_reductions hr
  have restTop := h.top_takeOff hc []
  rw [← restTop] at goto edge
  obtain ⟨reduced, e⟩ : ∃ reduced, stack.reduce? language made count token = some reduced :=
    ⟨_, Stack.reduce?_eq_some_iff.mpr ⟨_, _, target, rfl, goto, rfl⟩⟩
  obtain ⟨along, top⟩ := (linked_iff_along.mp h).reduce? e fun children rest taken target' goto' => by
    rw [taken] at goto edge
    obtain rfl := Option.some.inj (goto.symm.trans goto')
    exact ⟨edge, keeps⟩
  rw [restTop] at top goto
  rw [← Option.some.inj (top.symm.trans goto)] at higher
  exact ⟨reduced, e, linked_iff_along.mpr along, top, higher⟩

/-! ### Orderly parses -/

/-- The setting of a parse with the header language. -/
def setting (text : Text) (limit : Nat) (old : Option Subtree) : Setting where
  language := language
  text := text
  maxRecoveries := limit
  old := old

section Setting

variable (text : Text) (limit : Nat) (old : Option Subtree)

@[simp] theorem setting_language : (setting text limit old).language = language := rfl

@[simp] theorem setting_text : (setting text limit old).text = text := rfl

@[simp] theorem setting_maxRecoveries : (setting text limit old).maxRecoveries = limit := rfl

@[simp] theorem setting_old : (setting text limit old).old = old := rfl

end Setting

variable {text : Text} {limit : Nat} {old : Option Subtree} {run : Run}

/-- A subtree as a header parse makes it. -/
structure Sturdy (tree : Subtree) : Prop where
  intact : Intact language tree
  atom : language.isTerminal tree.symbol = true → tree.children = []

theorem isTerminal_eq_false_of_repair {state target : StateId} {symbol : Symbol}
    (h : (symbol, target) ∈ language.repairs state) : language.isTerminal symbol = false := by
  have all : ∀ i : Fin 17, ∀ repair ∈ language.repairs (UInt16.ofNat i),
      language.isTerminal repair.1 = false := by decide
  rcases Nat.lt_or_ge state.toNat 17 with inside | outside
  · simpa using all ⟨_, inside⟩ (symbol, target) (by simpa using h)
  · rw [repairs_eq_nil_of_le outside] at h
    simp at h

theorem isTerminal_eq_false_of_reduction {state : StateId} {made : Symbol} {count : UInt8}
    (h : (state, made, count) ∈ reductions) : language.isTerminal made = false := by
  have all : ∀ entry ∈ reductions, language.isTerminal entry.2.1 = false := by decide
  exact all _ h

theorem sturdy_lookahead (text : Text) (position : Nat) (state : StateId) :
    Sturdy (language.lookahead text position state).token :=
  ⟨intact_lookahead .., fun _ => children_lookahead ..⟩

theorem sturdy_node {symbol : Symbol} (h : language.isTerminal symbol = false)
    (children : List Subtree) (state : StateId) : Sturdy (node language symbol children state) where
  intact := intact_node ..
  atom e := by simp [h] at e

theorem recoveryKeeps_sturdy : RecoveryKeeps language fun _ tree => Sturdy tree where
  intact h := h.intact
  missing repair _ := ⟨intact_missing (showsRepairs.repairs repair) _, fun _ => rfl⟩
  wrapped repair _ _ _ := sturdy_node (isTerminal_eq_false_of_repair repair) ..
  skipped _ _ := ⟨intact_errorNode .., fun e => by
    rw [symbol_errorNode] at e
    exact absurd e (by decide)⟩
  joined h error _ _ _ _ _ :=
    ⟨h.intact.extended (isErrorToken_iff.mp error).2 _ _,
      fun _ => h.intact.atom (isErrorToken_iff.mp error).2⟩

/-- What every step of a header parse keeps, in a text below four gigabytes. -/
structure Orderly (text : Text) (limit : Nat) (old : Option Subtree) (run : Run) : Prop where
  small : text.size < UInt32.size
  holds : HoldsOnStack (fun _ tree => Sturdy tree) (setting text limit old) run
  linked : Linked run.stack
  inside : run.position ≤ text.size
  budget : run.recoveries ≤ rank run.state + run.position

/-- How far a run has come. -/
def progress (run : Run) : Nat :=
  rank run.state + run.position

theorem orderly_start (small : text.size < UInt32.size) : Orderly text limit old {} where
  small := small
  holds := holdsOnStack_start
  linked := trivial
  inside := Nat.zero_le _
  budget := Nat.zero_le _

theorem rank_lt {state : StateId} (h : state ∈ states) : rank state < 16 := by
  have : ∀ state ∈ states, rank state < 16 := by decide
  exact this _ h

theorem Orderly.progress_le (h : Orderly text limit old run) :
    progress run ≤ text.size + 15 := by
  have := rank_lt h.linked.top_mem
  have := h.inside
  simp only [progress, Run.state]
  omega

theorem linked_skip {stack : Stack} (h : Linked stack) (token : Subtree)
    (extra : token.isErrorToken = true → token.marks.extra = true)
    (rests : stack.top ∈ resting) :
    Linked (stack.skip language token) ∧ (stack.skip language token).top = stack.top := by
  have := (linked_iff_along.mp h).skip language token extra rests
  exact ⟨linked_iff_along.mpr this.1, this.2⟩

theorem ne_errorSymbol_of_action? {state : StateId} {symbol : Symbol} {action : ParseAction}
    (h : language.action? state symbol = some action) : symbol ≠ errorSymbol := by
  rintro rfl
  have all : ∀ entry ∈ actions, entry.1.2 ≠ errorSymbol := by decide
  exact all _ (mem_actions h) rfl

theorem slot_of_repairs {state : StateId} (h : language.repairs state ≠ []) :
    ∃ slot : Slot, slot.state = state := by
  have : ∀ state ∈ ([1, 2, 3, 4, 5] : List StateId), ∃ slot ∈ ([.opening, .word, .closing,
      .newline, .lastNewline] : List Slot), slot.state = state := by decide
  obtain ⟨slot, -, e⟩ := this _ (mem_of_repairs_ne_nil h)
  exact ⟨slot, e⟩

/-- Input is skipped in resting states only. -/
theorem rests_of_skip {position : Nat} {state : StateId} {lookahead : Lookahead}
    (linked : Linked run.stack) (read : lookahead = language.lookahead text position state)
    (mode : language.lexMode state = language.lexMode run.state ∨
      (language.action? run.state lookahead.token.symbol).isSome)
    (default : run.defaultReduction? (setting text limit old) lookahead = none)
    (useless : lookahead.token.symbol = errorSymbol ∨ language.repairs run.state = []) :
    run.state ∈ resting := by
  have all : ∀ state ∈ states, language.repairs state ≠ [] ∨
      (language.defaultReduction? state).isSome ∨ state ∈ resting := by decide
  rcases all _ linked.top_mem with repairs | reduces | rests
  · obtain ⟨slot, hs⟩ := slot_of_repairs repairs
    have skipped := useless.resolve_right repairs
    rcases mode with mode | action
    · rw [read] at skipped
      exact absurd skipped (lookahead_ne_error text position slot (mode.trans (hs ▸ rfl)))
    · obtain ⟨action, e⟩ := Option.isSome_iff_exists.mp action
      exact absurd skipped (ne_errorSymbol_of_action? e)
  · obtain ⟨⟨made, count⟩, e⟩ := Option.isSome_iff_exists.mp reduces
    obtain ⟨reduced, hr, -⟩ := exists_reduce? linked (mem_reductions_of_default e) lookahead.token
    rw [Run.defaultReduction?, setting_language, show run.state = run.stack.top from rfl, e] at default
    exact absurd (hr.symm.trans default) (by simp)
  · exact rests

/-- **A step on the current token** follows the edges of the table.  It leads
to a higher rank or skips input. -/
theorem Linked.turn (h : Linked run.stack) (reads : run.Reads (setting text limit old))
    {next : Run} (running : run.turn (setting text limit old) = .running next) :
    Linked next.stack ∧ (rank run.state < rank next.state ∨
      next.state = run.state ∧
        (run.current (setting text limit old)).token.symbol ≠ endSymbol ∧
        next.position =
          run.position + (run.current (setting text limit old)).token.totalSize) := by
  have found {made : Symbol} {count : UInt8} {stack : Stack}
      (reduces : language.action? run.state (run.current (setting text limit old)).token.symbol =
          some (.reduce made count) ∨ language.defaultReduction? run.state = some (made, count))
      (reduced : run.stack.reduce? language made count
        (run.current (setting text limit old)).token = some stack) :
      Linked stack ∧ rank run.state < rank stack.top := by
    obtain ⟨_, e, linked, -, higher⟩ := exists_reduce? h
      (reduces.elim mem_reductions_of_reduce mem_reductions_of_default) _
    obtain rfl := Option.some.inj (reduced.symm.trans e)
    exact ⟨linked, higher⟩
  obtain ⟨state, read, mode⟩ := reads.current
  obtain ⟨along, comes⟩ := (linked_iff_along.mp h).turn reads
    (fun action => ⟨ne_errorSymbol_of_action? action, mem_edges_of_shift action⟩)
    mem_edges_of_repair
    (fun reduces reduced => linked_iff_along.mp (found reduces reduced).1)
    (rests_of_skip h read mode) running
  refine ⟨linked_iff_along.mpr along, ?_⟩
  cases comes with
  | edge edge => exact .inl (rank_lt_of_mem_edges edge)
  | reduced reduces reduced => exact .inl (found reduces reduced).2
  | skipped same more position => exact .inr ⟨same, more, position⟩

/-- **A step of an orderly parse** on the current token keeps it orderly and
gets further, and never falls back in the table. -/
theorem Orderly.turn (h : Orderly text limit old run) {next : Run}
    (running : run.turn (setting text limit old) = .running next) :
    Orderly text limit old next ∧ progress run < progress next ∧
      rank run.state ≤ rank next.state := by
  obtain ⟨state, read, -⟩ := h.holds.reads.current
  have holds : HoldsOnStack (fun _ tree => Sturdy tree) (setting text limit old) next := by
    refine h.holds.make recoveryKeeps_sturdy (Run.choice_moveOn _ run _) read
      (by rw [read]; exact sturdy_lookahead ..)
      (fun symbol count children rest target reduces _ _ _ => ?_) running
    have made := sturdy_node (isTerminal_eq_false_of_reduction
      (reduces.elim mem_reductions_of_reduce mem_reductions_of_default)) children rest.top
    exact ⟨made.intact.needing _, made.atom⟩
  obtain ⟨-, position, recoveries⟩ := h.holds.reads.turn running
  obtain ⟨linked, further⟩ := h.linked.turn h.holds.reads running
  have pos := @lookahead_pos text h.small run.position state
  have le := lookahead_le state h.inside
  have budget := h.budget
  have inside := h.inside
  simp only [setting_language, setting_text] at read
  rw [read] at position further
  -- each step is worth the recovery it may take
  have worth : progress run < progress next ∧ rank run.state ≤ rank next.state := by
    simp only [progress]
    rcases further with higher | ⟨same, more, position⟩
    · omega
    · have wide := pos more
      rw [same]
      omega
  refine ⟨⟨h.small, holds, linked, by omega, ?_⟩, worth⟩
  have gained := worth.1
  simp only [progress] at gained
  omega

/-! ### Fresh parses -/

theorem step_fresh (text : Text) (limit : Nat) (run : Run) :
    run.step (setting text limit none) = run.turn (setting text limit none) :=
  Run.step_of_fresh rfl run

/-- A fresh parse ends before it has made more steps than there are bytes and
states. -/
theorem exists_ends (h : Orderly text limit none run) (steps : Nat)
    (enough : text.size + 16 ≤ steps + progress run) :
    ∃ root, Run.Ends (setting text limit none) root steps run := by
  induction steps generalizing run with
  | zero =>
    have := h.progress_le
    omega
  | succ steps ih =>
    rcases e : run.step (setting text limit none) with next | ⟨root, reused⟩
    · obtain ⟨hnext, further⟩ := h.turn ((step_fresh text limit run).symm.trans e)
      obtain ⟨root, ends⟩ := ih hnext (by omega)
      exact ⟨root, .later e ends⟩
    · exact ⟨root, .now e⟩

end Reparse.Header
