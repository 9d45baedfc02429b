/-
Reparse/Proofs/Header/Growing.lean

A header parse that takes over what belongs to its text.

An old tree is `Usable` for a text if what no edit has touched belongs to it.
What a parse takes over of such a tree is either the token that it would read
there, and then the step is the one on that token, or it is a whole header at
the start (`Leap`).  Either way all that comes of the parse belongs to the text:
`Growing.step` and `Growing.finished`.
-/
import Reparse.Proofs.Header.Course
import Reparse.Proofs.Header.Halts
import Reparse.Proofs.Run.Alike

namespace Reparse.Header

open Subtree

variable {text : Text} {limit : Nat} {old : Option Subtree} {run next : Run}

/-! ### Usable trees -/

/-- Whether a subtree is fresh for the text ahead of its place. -/
def FreshAt (text : Text) (position : Nat) (tree : Subtree) : Prop :=
  Fresh (text.ahead position) tree

/-- Whether a subtree is no complete document, or one with errors. -/
def Partial (tree : Subtree) : Prop :=
  tree.symbol = topNode → tree.marks.hasError = true

/-- Whether a parse may take over what is left unmarked in an old tree. -/
structure Usable (text : Text) (old : Option Subtree) : Prop where
  known : ∀ root, old = some root → Throughout (Known language) root
  fresh : ∀ root, old = some root → EverywhereAmong (fun position tree =>
    tree.marks.hasChanges = false → Everywhere (FreshAt text) position tree ∧ Partial tree) 0
      root.children

theorem usable_none (text : Text) : Usable text none where
  known _ h := by cases h
  fresh _ h := by cases h

theorem fits_eq_true {state : StateId} {tree : Subtree}
    (h : Run.fits language state tree = true) :
    tree.marks.hasChanges = false ∧ tree.marks.hasError = false ∧
      (language.isTerminal tree.symbol = true →
        language.lexMode tree.parseState = language.lexMode state) := by
  simp only [Run.fits] at h
  split at h
  · cases h
  · rename_i fine
    simp only [Bool.or_eq_true, not_or, Bool.not_eq_true] at fine
    refine ⟨fine.1.1.1.1.1, fine.1.1.1.1.2, fun terminal => ?_⟩
    rw [if_pos terminal] at h
    exact of_decide_eq_true h

/-- What a parse takes over from an old tree at a state. -/
structure Found (text : Text) (run : Run) (tree : Subtree) (target : StateId) : Prop where
  fresh : Everywhere (FreshAt text) run.position tree
  fine : tree.marks.hasError = false
  plain : tree.marks.extra = false
  edge : (run.state, tree.symbol, target) ∈ edges
  how : (language.action? run.state tree.symbol = some (.shift target) ∧
      language.lexMode tree.parseState = language.lexMode run.state) ∨
    run.state = 1 ∧ (tree.symbol = document ∨ tree.symbol = documentInner)

theorem Usable.found (usable : Usable text old) {tree : Subtree} {target : StateId}
    (h : run.reusable? (setting text limit old) = some (tree, target)) :
    Found text run tree target := by
  obtain ⟨root, here, there, fits, leadsTo⟩ := Run.reusable?_eq_some h
  obtain ⟨unchanged, fine, mode⟩ := fits_eq_true fits
  have symbol := ((usable.known root here).startingAt there).self.symbol
  obtain ⟨fresh, part⟩ := mem_startingAt (usable.fresh root here) there unchanged
  have edge : (run.state, tree.symbol, target) ∈ edges :=
    (Run.reuseTarget?_eq_some leadsTo).elim mem_edges_of_shift (mem_edges_of_goto? symbol)
  refine ⟨fresh, fine, (Run.not_extra_of_fits fits).1, edge, ?_⟩
  rcases terminal : language.isTerminal tree.symbol with - | -
  · -- the other symbols of the graph have errors, or nothing makes them
    have all : ∀ edge ∈ edges, language.isTerminal edge.2.1 = false →
        edge.1 = 1 ∧ (edge.2.1 = document ∨ edge.2.1 = documentInner) ∨ edge.2.1 = topNode ∨
          edge.2.1 ∈ unmade ∨ (symbolMarks language edge.2.1).recovery = true := by decide
    have self := (everywhere_iff.mp fresh).1
    rcases all _ edge terminal with header | top | unmade | recovery
    · exact .inr header
    · rw [part top] at fine
      cases fine
    · exact absurd unmade self.made
    · rw [hasError_of_recovery self.sturdy.intact recovery] at fine
      cases fine
  · left
    refine ⟨?_, mode terminal⟩
    rw [setting_language, Run.reuseTarget?, if_pos terminal] at leadsTo
    split at leadsTo
    · rename_i shift
      exact shift.trans (congrArg _ (congrArg _ (Option.some.inj leadsTo)))
    · cases leadsTo

/-! ### Taking over -/

/-- The run behind a subtree that is taken over. -/
def taking (run : Run) (tree : Subtree) (target : StateId) : Run :=
  { run.push target tree with reused := run.reused + 1 }

theorem HoldsOnStack.taking {P : Nat → Subtree → Prop}
    (h : HoldsOnStack P (setting text limit old) run)
    {tree : Subtree} (ht : Everywhere P run.position tree) (unread : run.lookahead = none)
    (target : StateId) : HoldsOnStack P (setting text limit old) (taking run tree target) where
  row := (h.row_push ht target).1
  width := (h.row_push ht target).2
  reads lookahead e := by
    rw [show (Header.taking run tree target).lookahead = run.lookahead from rfl, unread] at e
    cases e

/-- An orderly parse stays orderly if what it takes over lies inside of the text. -/
theorem Orderly.taking (h : Orderly text limit old run) {tree : Subtree} {target : StateId}
    (found : Found text run tree target) (unread : run.lookahead = none)
    (inside : run.position + tree.totalSize ≤ text.size) :
    Orderly text limit old (taking run tree target) ∧
      progress run < progress (taking run tree target) := by
  have higher : rank run.state < rank (Header.taking run tree target).state :=
    rank_lt_of_mem_edges found.edge
  have further : (Header.taking run tree target).position = run.position + tree.totalSize := rfl
  have budget := h.budget
  refine ⟨⟨h.small,
    HoldsOnStack.taking h.holds (found.fresh.mono fun _ _ fresh => fresh.sturdy) unread target,
    (linked_cons found.plain).mpr ⟨found.edge, h.linked⟩, inside, ?_⟩, ?_⟩
  · rw [show (Header.taking run tree target).recoveries = run.recoveries from rfl]
    omega
  · simp only [progress]
    omega

/-- A run that has taken over a whole header. -/
structure Leap (text : Text) (run next : Run) : Prop where
  start : run.state = 1
  header : ∃ stack calm more, ReadUpTo text none stack (calm ++ '\x00' :: more) ∧ Calm calm ∧
    next.position = totalSizes stack.subtrees ∧
    (next.stack.bare = [⟨14, innerOf stack⟩] ∨ next.stack.bare = [⟨13, documentOf stack⟩])
  unread : next.lookahead = none
  inserted : next.inserted = run.inserted

/-- What a growing parse keeps: all that is on the stack belongs to the text. -/
structure Growing (text : Text) (limit : Nat) (old : Option Subtree) (run : Run) : Prop where
  orderly : Orderly text limit old run
  fresh : HoldsOnStack (FreshAt text) (setting text limit old) run
  course : Course text run

theorem growing_start (small : text.size < UInt32.size) : Growing text limit old {} where
  orderly := orderly_start small
  fresh := holdsOnStack_start
  course := .at (.start small)

/-- A step on the current token keeps a parse growing. -/
theorem Growing.turn (h : Growing text limit old run) (enough : text.size + 15 ≤ limit)
    (running : run.turn (setting text limit old) = .running next) :
    Growing text limit old next := by
  obtain ⟨state, read, -⟩ := h.orderly.holds.reads.current
  refine ⟨(h.orderly.turn running).1, ?_, h.course.turn h.orderly enough running⟩
  refine h.fresh.make (recoveryKeeps_fresh text) (Run.choice_moveOn _ run _) read ?_ ?_ running
  · rw [read]
    exact fresh_lookahead text run.position state
  · intro symbol count children rest target reduces taken _ row
    exact fresh_reduction h.orderly h.course rfl reduces taken row

/-- A token that is taken over is the one in front. -/
theorem Found.turn {tree : Subtree} {target : StateId} (found : Found text run tree target)
    (unread : run.lookahead = none)
    (shift : language.action? run.state tree.symbol = some (.shift target))
    (mode : language.lexMode tree.parseState = language.lexMode run.state) :
    (run.turn (setting text limit old)).bare = .running (taking run tree target).bare ∧
      tree.totalSize = (language.lookahead text run.position run.state).token.totalSize := by
  have lexed := (everywhere_iff.mp found.fresh).1.token run.state target mode.symm shift
  have same : (language.lookahead text run.position run.state).token.bare = tree.bare := by
    rw [Language.lookahead_ahead]
    exact lexed.token_bare mode
  have current : (run.current (setting text limit old)).token.bare = tree.bare := by
    rw [Run.current, unread]
    exact same
  refine ⟨?_, by rw [← bare_totalSize, ← same, bare_totalSize]⟩
  rw [turn_shift current target (by rw [bare_symbol]; exact shift)]
  simp [taking, Run.bare, Run.push, Entry.bare, unread]

/-- A header is taken over as a whole. -/
theorem Found.leap (h : Orderly text limit old run) {tree : Subtree} {target : StateId}
    (found : Found text run tree target) (unread : run.lookahead = none) (start : run.state = 1)
    (symbol : tree.symbol = document ∨ tree.symbol = documentInner) :
    Leap text run (taking run tree target) ∧
      run.position + tree.totalSize ≤ text.size := by
  have bottom : run.stack = [] := h.linked.eq_nil start
  have position : run.position = 0 := by
    have width := h.holds.width
    rw [bottom] at width
    exact width.symm
  obtain ⟨stack, calm, more, filled, quiet, same, -⟩ :=
    (everywhere_iff.mp found.fresh).1.header (by simpa using symbol) found.fine
  rw [position, Text.ahead_zero] at filled
  have width : tree.totalSize = totalSizes stack.subtrees := by
    rw [← bare_totalSize, same, totalSize_headerOf]
  refine ⟨⟨start, ⟨stack, calm, more, filled, quiet, ?_, ?_⟩, unread, rfl⟩, ?_⟩
  · show run.position + tree.totalSize = _
    rw [position, width, Nat.zero_add]
  · have edge := found.edge
    rw [start] at edge
    have put : (taking run tree target).stack.bare = [⟨target, headerOf tree.symbol stack⟩] := by
      simp [taking, Run.push, bottom, Entry.bare, same]
    rw [put]
    rcases symbol with e | e
    · rw [e] at edge ⊢
      have all : ∀ edge ∈ edges, edge.1 = 1 → edge.2.1 = document → edge.2.2 = 13 := by decide
      rw [show target = 13 from all _ edge rfl rfl]
      exact .inr rfl
    · rw [e] at edge ⊢
      have all : ∀ edge ∈ edges, edge.1 = 1 → edge.2.1 = documentInner → edge.2.2 = 14 := by decide
      rw [show target = 14 from all _ edge rfl rfl]
      exact .inl rfl
  · obtain ⟨taken, split, size, -⟩ := filled.split
    have whole := congrArg Text.size split
    rw [Text.size_append, size] at whole
    omega

/-- **A step of a growing parse** is the one on the current token, or leaps over
a whole header.  It keeps the parse growing. -/
theorem Growing.step (h : Growing text limit old run) (enough : text.size + 15 ≤ limit)
    (usable : Usable text old) (running : run.step (setting text limit old) = .running next) :
    Growing text limit old next ∧ progress run < progress next ∧
      ((run.turn (setting text limit old)).bare = .running next.bare ∨ Leap text run next) := by
  rcases Run.running_cases running with ⟨tree, target, unread, reusable, taken⟩ | running
  · obtain rfl : next = taking run tree target := taken
    have found := usable.found reusable
    have fresh := HoldsOnStack.taking h.fresh found.fresh unread target
    rcases found.how with ⟨shift, mode⟩ | ⟨start, symbol⟩
    · obtain ⟨same, width⟩ := @Found.turn text limit old _ _ _ found unread shift mode
      have inside := lookahead_le run.state h.orderly.inside
      obtain ⟨orderly, further⟩ := h.orderly.taking found unread (width ▸ inside)
      refine ⟨⟨orderly, fresh, ?_⟩, further, .inl same⟩
      obtain ⟨other, turned, alike⟩ := Progress.exists_running same
      exact (h.course.turn h.orderly enough turned).congr alike
    · obtain ⟨leap, inside⟩ := found.leap h.orderly unread start symbol
      obtain ⟨orderly, further⟩ := h.orderly.taking found unread inside
      refine ⟨⟨orderly, fresh, .late ?_⟩, further, .inr leap⟩
      have all : ∀ edge ∈ edges, edge.1 = 1 → edge.2.1 = document ∨ edge.2.1 = documentInner →
          rank 9 < rank edge.2.2 := by decide
      exact all _ found.edge start symbol
  · exact ⟨h.turn enough running, (h.orderly.turn running).2.1, .inl (by rw [running]; rfl)⟩

/-! ### Results -/

/-- What fills up the end of a tree belongs to any text. -/
theorem fresh_filler {symbol : Symbol} (filler : symbol = endSymbol ∨ symbol = errorSymbol)
    (size : Nat) (text : Text) : Fresh text (Subtree.token language symbol 0 size 0 errorState) := by
  have all : ∀ symbol ∈ [endSymbol, errorSymbol], symbol ∉ unmade ++ rules.map (·.1) ∧
      symbol ∉ edges.map (·.2.1) := by decide
  obtain ⟨simple, useless⟩ := all symbol (by simpa using filler)
  refine ⟨⟨intact_token .., fun _ => rfl⟩, fun m => simple (List.mem_append_left _ m), ?_, ?_⟩
  · intro state target _ shift
    exact absurd (List.mem_map_of_mem (mem_edges_of_shift shift)) useless
  · intro header _
    have composed : ∀ symbol ∈ [document, documentInner], symbol ∈ rules.map (·.1) := by decide
    exact absurd (List.mem_append_right _ (composed _ header)) simple

/-- **All below the root of a growing parse belongs to the text.** -/
theorem Growing.finished (h : Growing text limit old run) {root : Subtree} {reused : Nat}
    (finished : run.turn (setting text limit old) = .finished root reused) :
    EverywhereAmong (FreshAt text) 0 root.children := by
  obtain ⟨state, read, -⟩ := h.orderly.holds.reads.current
  have token : FreshAt text run.position (run.current (setting text limit old)).token := by
    rw [read]
    exact fresh_lookahead text run.position state
  exact (h.fresh.finished (recoveryKeeps_fresh text) token (fun _ => fresh_filler (.inl rfl) _ _)
    (fun _ _ => fresh_filler (.inr rfl) _ _) finished).1

end Reparse.Header
