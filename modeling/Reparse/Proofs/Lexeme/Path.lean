/-
Reparse/Proofs/Lexeme/Path.lean

The path of the automaton through a text, and the token at the end of it.

`Path` says which states the automaton comes to, and where.  There is one path
only, and a scan follows it: of the states from the last skipping step on, the
last one that accepts makes the token (`Tells.follow`).  A scan that reads the
text by positions, with subtractions that fail below zero and a limit on the
states that it visits, gives the same token: no more states than two behind the
characters ahead are visited (`Guarded.token?_eq`).  Only what 32 bits cannot hold
of a length is lost to the token (`Vast.lexeme?_longest_vast`).
-/
import Reparse.Proofs.Header.Automaton
import Reparse.Proofs.Lexeme.Cut
import Reparse.Proofs.Lexeme.Vast
import Reparse.Proofs.Subtree.Guarded

namespace Reparse

/-! ### Paths -/

/-- A state that the automaton comes to. -/
structure Visit where
  state : LexStateId
  /-- How far the automaton has come. -/
  cursor : Nat
  /-- Whether the step that leads to the state skips all that lies in front. -/
  skips : Bool
deriving DecidableEq

namespace Visit

/-- The visit that a step over `width` bytes leads to. -/
def next (visit : Visit) (width : Nat) : LexStep → Visit
  | .advance target => ⟨target, visit.cursor + width, false⟩
  | .skip target => ⟨target, visit.cursor + width, true⟩

@[simp] theorem next_state (visit : Visit) (width : Nat) (step : LexStep) :
    (visit.next width step).state = step.target := by
  cases step <;> rfl

@[simp] theorem next_cursor (visit : Visit) (width : Nat) (step : LexStep) :
    (visit.next width step).cursor = visit.cursor + width := by
  cases step <;> rfl

/-- The token that is recognized on the visit. -/
def accepts? (language : Language) (visit : Visit) : Option Symbol :=
  (language.lexState visit.state).accept

end Visit

namespace Scan

variable {language : Language} {visit : Visit} {text : Text} {path : List Visit} {scan : Scan}

/-- What the automaton visits in front of a text, one visit after the other: it goes on with each
character as long as there is a step on it, and takes one more step at the end of the text. -/
inductive Path (language : Language) : Visit → Text → List Visit → Prop
  | stop {visit : Visit} {c : Char} {rest : Text}
      (none : (language.lexState visit.state).step? c = none) : Path language visit (c :: rest) [visit]
  | step {visit : Visit} {c : Char} {rest : Text} {step : LexStep} {path : List Visit}
      (some : (language.lexState visit.state).step? c = some step)
      (further : Path language (visit.next c.utf8Size step) rest path) :
      Path language visit (c :: rest) (visit :: path)
  | rest {visit : Visit} (none : (language.lexState visit.state).atEnd = none) :
      Path language visit [] [visit]
  | atEnd {visit : Visit} {step : LexStep} (some : (language.lexState visit.state).atEnd = some step) :
      Path language visit [] [visit, visit.next 0 step]

theorem exists_path (language : Language) (visit : Visit) (text : Text) :
    ∃ path, Path language visit text path := by
  induction text generalizing visit with
  | nil =>
    rcases e : (language.lexState visit.state).atEnd with - | step
    · exact ⟨_, .rest e⟩
    · exact ⟨_, .atEnd e⟩
  | cons c rest ih =>
    rcases e : (language.lexState visit.state).step? c with - | step
    · exact ⟨_, .stop e⟩
    · obtain ⟨path, further⟩ := ih (visit.next c.utf8Size step)
      exact ⟨_, .step e further⟩

/-- **There is one path only.** -/
theorem Path.unique {other : List Visit} (h : Path language visit text path)
    (h' : Path language visit text other) : other = path := by
  induction h generalizing other with
  | stop none =>
    cases h' with
    | stop => rfl
    | step some =>
      rw [none] at some
      cases some
  | step some further ih =>
    cases h' with
    | stop none =>
      rw [some] at none
      cases none
    | step some' further' =>
      obtain rfl := Option.some.inj (some.symm.trans some')
      rw [ih further']
  | rest none =>
    cases h' with
    | rest => rfl
    | atEnd some =>
      rw [none] at some
      cases some
  | atEnd some =>
    cases h' with
    | rest none =>
      rw [some] at none
      cases none
    | atEnd some' =>
      obtain rfl := Option.some.inj (some.symm.trans some')
      rfl

theorem Path.head {first : Visit} {further : List Visit}
    (h : Path language visit text (first :: further)) : first = visit := by
  cases h <;> rfl

/-! ### The token of a path -/

/-- The token of the last visit that accepts one, and where it ends. -/
def lastAccepted (language : Language) (visits : List Visit) : Option (Symbol × Nat) :=
  visits.reverse.findSome? fun visit => (visit.accepts? language).map fun symbol =>
    (symbol, visit.cursor)

theorem lastAccepted_append (visits : List Visit) (visit : Visit) :
    lastAccepted language (visits ++ [visit]) =
      match visit.accepts? language with
      | some symbol => some (symbol, visit.cursor)
      | none => lastAccepted language visits := by
  rw [lastAccepted, List.reverse_append, List.reverse_singleton, List.singleton_append,
    List.findSome?_cons]
  cases visit.accepts? language <;> rfl

theorem lastAccepted_cons (visit : Visit) (visits : List Visit) :
    lastAccepted language (visit :: visits) = (lastAccepted language visits).or
      ((visit.accepts? language).map fun symbol => (symbol, visit.cursor)) := by
  rw [lastAccepted, List.reverse_cons, List.findSome?_append, List.findSome?_singleton]
  rfl

theorem lastAccepted_eq_none_iff {visits : List Visit} :
    lastAccepted language visits = none ↔ ∀ visit ∈ visits, visit.accepts? language = none := by
  rw [lastAccepted, List.findSome?_eq_none_iff]
  simp only [List.mem_reverse, Option.map_eq_none_iff]

theorem lastAccepted_eq_some {visits : List Visit} {symbol : Symbol} {stop : Nat}
    (h : lastAccepted language visits = some (symbol, stop)) :
    ∃ before last after, visits = before ++ last :: after ∧
      last.accepts? language = some symbol ∧ last.cursor = stop ∧
      ∀ visit ∈ after, visit.accepts? language = none := by
  obtain ⟨after, last, before, split, found, none⟩ := List.findSome?_eq_some_iff.mp h
  obtain ⟨symbol', accepted, same⟩ := Option.map_eq_some_iff.mp found
  obtain ⟨rfl, rfl⟩ := Prod.mk.inj same
  refine ⟨before.reverse, last, after.reverse, ?_, accepted, rfl, ?_⟩
  · rw [← List.reverse_reverse visits, split]
    simp
  · intro visit later
    exact Option.map_eq_none_iff.mp (none visit (List.mem_reverse.mp later))

/-- What a scan has found behind the visits of a path.  They are parted in front of the first one
that the token may be of, where the last skipping step leads to, or where the path begins. -/
structure Tells (language : Language) (path front : List Visit) (first : Visit)
    (taken : List Visit) (scan : Scan) : Prop where
  parts : path = front ++ first :: taken
  skips : first.skips = true ∨ front = []
  advances : ∀ visit ∈ taken, visit.skips = false
  start : scan.tokenStart = first.cursor
  accepted : scan.accepted = lastAccepted language (first :: taken)

theorem tells_start (language : Language) (mode : LexStateId) :
    Tells language [⟨mode, 0, false⟩] [] ⟨mode, 0, false⟩ []
      (({ state := mode } : Scan).visit language) where
  parts := rfl
  skips := .inr rfl
  advances _ none := by cases none
  start := visit_tokenStart _
  accepted := (visit_accepted _).trans (lastAccepted_append [] ⟨mode, 0, false⟩).symm

/-- A scan that looks ahead has found the same. -/
theorem Tells.peek {front taken : List Visit} {first : Visit}
    (h : Tells language path front first taken (scan.visit language)) (c : Char) :
    Tells language path front first taken (scan.peek language c) where
  parts := h.parts
  skips := h.skips
  advances := h.advances
  start := h.start
  accepted := h.accepted

/-- **A step** finds what the visit that it leads to says. -/
theorem Tells.take {front taken : List Visit} {first : Visit}
    (h : Tells language path front first taken scan) (here : scan.cursor = visit.cursor)
    (width : Nat) (step : LexStep) :
    ∃ front first taken, Tells language (path ++ [visit.next width step]) front first taken
      ((scan.take width step).visit language) := by
  cases step with
  | advance target =>
    refine ⟨front, first, taken ++ [visit.next width (.advance target)], ?_, h.skips, ?_, ?_, ?_⟩
    · rw [h.parts, List.append_assoc, List.cons_append]
    · intro other within
      rcases List.mem_append.mp within with within | within
      · exact h.advances other within
      · rw [List.mem_singleton.mp within]
        rfl
    · rw [visit_tokenStart]
      exact h.start
    · rw [← List.cons_append, lastAccepted_append, ← h.accepted, visit_accepted]
      rw [show (visit.next width (.advance target)).cursor = scan.cursor + width by simp [here]]
      rfl
  | skip target =>
    -- nothing in front of a skipping step belongs to the token
    refine ⟨path, visit.next width (.skip target), [], rfl, .inl rfl, ?_, ?_, ?_⟩
    · intro other none
      cases none
    · rw [visit_tokenStart]
      show scan.cursor + width = visit.cursor + width
      rw [here]
    · rw [← List.nil_append [visit.next width (.skip target)], lastAccepted_append, visit_accepted]
      rw [show (visit.next width (.skip target)).cursor = scan.cursor + width by simp [here]]
      rfl

/-- **A scan** finds what its path says. -/
theorem Tells.follow {passed : List Visit} (h : Path language visit text path)
    (state : scan.state = visit.state) (here : scan.cursor = visit.cursor)
    (tells : ∃ front first taken,
      Tells language (passed ++ [visit]) front first taken (scan.visit language)) :
    ∃ front first taken,
      Tells language (passed ++ path) front first taken (scan.follow language text) := by
  induction h generalizing scan passed with
  | stop none =>
    obtain ⟨front, first, taken, tells⟩ := tells
    rw [follow_stop (state ▸ none)]
    exact ⟨front, first, taken, tells.peek _⟩
  | @step visit c rest step path some further ih =>
    obtain ⟨front, first, taken, tells⟩ := tells
    rw [follow_step (state ▸ some)]
    rw [show passed ++ visit :: path = passed ++ [visit] ++ path by simp]
    apply ih
    · rw [take_state, Visit.next_state]
    · rw [take_cursor, peek_cursor, Visit.next_cursor, here]
    · exact (tells.peek c).take ((peek_cursor scan c).trans here) c.utf8Size step
  | rest none =>
    rw [follow_end (state ▸ none)]
    exact tells
  | @atEnd visit step some =>
    obtain ⟨front, first, taken, tells⟩ := tells
    rw [follow_atEnd (state ▸ some)]
    rw [show passed ++ [visit, visit.next 0 step] = passed ++ [visit] ++ [visit.next 0 step] by simp]
    exact tells.take ((visit_cursor scan).trans here) 0 step

/-! ### Positions -/

/-- The scan with offsets that count from the start of the text. -/
def placed (position : Nat) (scan : Scan) : Scan where
  state := scan.state
  cursor := position + scan.cursor
  tokenStart := position + scan.tokenStart
  examined := position + scan.examined
  accepted := scan.accepted.map fun (symbol, stop) => (symbol, position + stop)

theorem placed_visit (position : Nat) (scan : Scan) :
    (scan.placed position).visit language = (scan.visit language).placed position := by
  simp only [visit, placed]
  split <;> rfl

theorem placed_look (position : Nat) (scan : Scan) (width : Nat) :
    (scan.placed position).look width = (scan.look width).placed position := by
  simp only [look, placed, Nat.add_assoc, Nat.add_max_add_left]

theorem placed_take (position : Nat) (scan : Scan) (width : Nat) (step : LexStep) :
    (scan.placed position).take width step = (scan.take width step).placed position := by
  cases step with
  | advance target => simp only [take, placed, Nat.add_assoc]
  | skip target => simp only [take, placed, Nat.add_assoc, Option.map_none]

end Scan

namespace Guarded

variable {language : Language} {text ahead : Text} {position : Nat} {mode : LexStateId} {scan : Scan}

/-- The character at a position; there is none at the end of the text, nor inside a character. -/
def char? (text : Text) (position : Nat) : Option Char :=
  (text.drop? position).bind (·.head?)

/-- A scan by positions of the text that visits at most so many states, and has no answer if these
are not enough.  Once a step at the end of the text is taken, the scan has `ended`. -/
def scan? (language : Language) (text : Text) : Nat → Bool → Scan → Option Scan
  | 0, _, _ => none
  | visits + 1, ended, scan =>
    let scan := scan.visit language
    let state := language.lexState scan.state
    match char? text scan.cursor with
    | some c =>
      let scan := scan.look c.utf8Size
      match state.step? c with
      | none => some scan
      | some step => scan? language text visits ended (scan.take c.utf8Size step)
    | none =>
      match if ended then none else state.atEnd with
      | none => some scan
      | some step => scan? language text visits true (scan.take 0 step)

/-- The token that a scan from a position on finds, or that there is none.  Of each difference the
token gets the low 32 bits. -/
def token? (language : Language) (text : Text) (visits position : Nat) (mode : LexStateId) :
    Option (Option Lexeme) := do
  let scan ← scan? language text visits false
    { state := mode, cursor := position, tokenStart := position, examined := position }
  match scan.accepted with
  | none => some none
  | some (symbol, stop) =>
    let padding ← minus? scan.tokenStart position
    let size ← minus? stop scan.tokenStart
    let lookahead ← minus? (max scan.examined stop) stop
    some (some ⟨symbol, Span.lowBits padding, Span.lowBits size, Span.lowBits lookahead⟩)

/-! ### Answers -/

/-- What a visit sees is the first character of the text ahead. -/
theorem char?_visit (here : text.drop? (position + scan.cursor) = some ahead) :
    char? text ((scan.visit language).placed position).cursor = ahead.head? := by
  show char? text (position + (scan.visit language).cursor) = ahead.head?
  rw [Scan.visit_cursor, char?, here, Option.bind_some]

/-- **A scan comes to its end in time**: two visits more than there are characters are enough. -/
theorem scan?_eq (here : text.drop? (position + scan.cursor) = some ahead) :
    scan? language text (ahead.length + 2) false (scan.placed position) =
      some ((scan.follow language ahead).placed position) := by
  have seen := @char?_visit language text ahead position scan here
  have state : ((scan.visit language).placed position).state = scan.state := Scan.visit_state scan
  induction ahead generalizing scan with
  | nil =>
    rw [scan?]
    dsimp only
    rw [Scan.placed_visit, seen, state]
    rcases e : (language.lexState scan.state).atEnd with - | step
    · rw [Scan.follow_end e]
      rfl
    · -- behind the step at the end of the text there is no other
      have last := @char?_visit language text [] position ((scan.visit language).take 0 step)
        (by rw [Scan.take_cursor, Scan.visit_cursor]; exact here)
      rw [Scan.follow_atEnd e]
      dsimp only [List.head?_nil]
      rw [if_neg Bool.false_ne_true]
      dsimp only [List.length_nil]
      rw [Scan.placed_take, scan?]
      dsimp only
      rw [Scan.placed_visit, last]
      rfl
  | cons c rest ih =>
    rw [List.length_cons, scan?]
    dsimp only
    rw [Scan.placed_visit, seen, state]
    dsimp only [List.head?_cons]
    rw [Scan.placed_look]
    rcases e : (language.lexState scan.state).step? c with - | step
    · rw [Scan.follow_stop e]
      rfl
    · rw [Scan.follow_step e]
      dsimp only
      rw [Scan.placed_take]
      have there : text.drop? (position + (scan.cursor + c.utf8Size)) = some rest := by
        rw [← Nat.add_assoc]
        exact Text.drop?_cons here
      have cursor : ((scan.peek language c).take c.utf8Size step).cursor =
          scan.cursor + c.utf8Size := by
        rw [Scan.take_cursor, Scan.peek_cursor]
      rw [← cursor] at there
      exact ih there (char?_visit there) (Scan.visit_state _)

/-- **No difference is below zero** when a token is made of a scan. -/
theorem token?_eq (here : text.drop? position = some ahead) :
    token? language text (ahead.length + 2) position mode =
      some (language.lexeme? text position mode) := by
  have bounded := Scan.bounded_follow language mode ahead
  have scanned := @scan?_eq language text ahead position { state := mode } here
  rw [token?, Scan.lexeme?_of_drop? here]
  show (scan? language text _ false (({ state := mode } : Scan).placed position)).bind _ = _
  rw [scanned, Option.bind_some, Scan.lexeme?]
  generalize Scan.follow language { state := mode } ahead = scan at bounded
  rcases e : scan.accepted with - | ⟨symbol, stop⟩
  · simp only [Scan.placed, e, Option.map_none]
  · obtain ⟨start, within⟩ := bounded.accepted e
    have examined : max (position + scan.examined) (position + stop) =
        position + scan.examined := by
      have := bounded.cursor
      omega
    simp only [Scan.placed, e, Option.map_some, examined]
    rw [minus?_eq (Nat.le_add_right position scan.tokenStart)]
    rw [minus?_eq (Nat.add_le_add_left start position)]
    rw [minus?_eq (Nat.add_le_add_left (Nat.le_trans within bounded.cursor) position)]
    simp only [Option.bind_eq_bind, Option.bind_some, Nat.add_sub_cancel_left,
      Nat.add_sub_add_left]

end Guarded

/-! ### Tokens -/

namespace Language

variable {language : Language} {text : Text} {position : Nat} {mode : LexStateId}

/-- **A scan ends, and its token is the longest there is.**  From a place to cut on, two visits more
than there are characters ahead are enough to find the token or that there is none, and no
difference is below zero.  There is one path of the automaton.  Its last skipping step leads to the
`first` visit that the token may be of; without such a step it is the one that the path begins
with.  There is no token exactly if no visit from there on accepts one.  Otherwise the token and
what it depends on lie within the text, and it is the token of the `last` visit that accepts one.
Its padding goes up to the first visit and it ends at the last one, but for what 32 bits cannot
hold: with less than four gigabytes ahead the lengths are exact, and the token begins and ends at
places to cut. -/
theorem lexeme?_longest (cut : text.Cut position) :
    ∃ ahead, text.drop? position = some ahead ∧
      Guarded.token? language text (ahead.length + 2) position mode =
        some (language.lexeme? text position mode) ∧
      ∃ front first taken,
        (∀ path, Scan.Path language ⟨mode, 0, false⟩ ahead path ↔ path = front ++ first :: taken) ∧
        (first.skips = true ∨ front = [] ∧ first = ⟨mode, 0, false⟩) ∧
        (∀ visit ∈ taken, visit.skips = false) ∧
        (language.lexeme? text position mode = none ↔
          ∀ visit ∈ first :: taken, visit.accepts? language = none) ∧
        ∀ lexeme, language.lexeme? text position mode = some lexeme →
          position + lexeme.padding + lexeme.size + lexeme.lookahead ≤ text.size ∧
          ∃ before last after, first :: taken = before ++ last :: after ∧
            last.accepts? language = some lexeme.symbol ∧
            (∀ visit ∈ after, visit.accepts? language = none) ∧
            lexeme.padding = Span.lowBits first.cursor ∧
            lexeme.size = Span.lowBits (last.cursor - first.cursor) ∧
            (text.size < position + UInt32.size →
              text.Cut (position + lexeme.padding) ∧
              text.Cut (position + (lexeme.padding + lexeme.size)) ∧
              lexeme.padding = first.cursor ∧
              last.cursor = lexeme.padding + lexeme.size) := by
  obtain ⟨ahead, here⟩ := Option.isSome_iff_exists.mp cut
  refine ⟨ahead, here, Guarded.token?_eq here, ?_⟩
  obtain ⟨path, way⟩ := Scan.exists_path language ⟨mode, 0, false⟩ ahead
  obtain ⟨front, first, taken, tells⟩ := @Scan.Tells.follow language _ _ _ { state := mode } [] way
    rfl rfl ⟨[], _, [], Scan.tells_start language mode⟩
  rw [List.nil_append] at tells
  have found := @Scan.lexeme?_of_drop? language _ _ _ here mode
  refine ⟨front, first, taken, ?_, ?_, tells.advances, ?_, ?_⟩
  · intro other
    rw [← tells.parts]
    constructor
    · exact way.unique
    · rintro rfl
      exact way
  · rcases tells.skips with skips | rfl
    · exact .inl skips
    · rw [tells.parts] at way
      exact .inr ⟨rfl, way.head⟩
  · rw [← Scan.lastAccepted_eq_none_iff, ← tells.accepted, found, Scan.lexeme?,
      Option.map_eq_none_iff]
  · intro lexeme h
    refine ⟨lexeme?_within cut.le h, ?_⟩
    have h' := found.symm.trans h
    obtain ⟨⟨symbol, stop⟩, accepted, lengths⟩ := Option.map_eq_some_iff.mp h'
    obtain ⟨before, last, after, split, accepts, rfl, none⟩ :=
      Scan.lastAccepted_eq_some (tells.accepted.symm.trans accepted)
    refine ⟨before, last, after, split, ?_, none, ?_, ?_, ?_⟩
    · rw [accepts, ← lengths]
    · rw [← lengths, tells.start]
    · rw [← lengths, tells.start]
    · intro small
      obtain ⟨inner, stop⟩ := cut_lexeme? cut small h
      have measures := measures_of_lexeme? here small h
      refine ⟨inner, stop, measures.start.symm.trans tells.start, ?_⟩
      exact congrArg Prod.snd (Option.some.inj (accepted.symm.trans measures.accepted))

end Language

namespace Header

/-- Blanks are skipped up to the end of the text, and one more step there leads to the end token.
It takes as many visits as there may be. -/
theorem lexeme?_longest_blanks :
    Text.Cut "]  ".toList 1 ∧
    Guarded.token? language "]  ".toList 4 1 0 = some (some ⟨endSymbol, 2, 0, 0⟩) ∧
    ∃ front first taken,
      (∀ path, Scan.Path language ⟨0, 0, false⟩ "  ".toList path ↔ path = front ++ first :: taken) ∧
      first.skips = true ∧ first.cursor = 2 ∧
      ∃ before last after, first :: taken = before ++ last :: after ∧
        last.accepts? language = some endSymbol ∧ last.cursor = 2 := by
  have cut : Text.Cut "]  ".toList 1 := by
    show (Text.drop? "]  ".toList 1).isSome
    decide
  have small : Text.size "]  ".toList < 1 + UInt32.size := by decide
  have found : language.lexeme? "]  ".toList 1 0 = some ⟨endSymbol, 2, 0, 0⟩ := by decide +kernel
  obtain ⟨ahead, here, answer, front, first, taken, paths, skips, -, -, token⟩ :=
    @Language.lexeme?_longest language "]  ".toList 1 0 cut
  obtain rfl : "  ".toList = ahead := by
    rw [show Text.drop? "]  ".toList 1 = some "  ".toList from rfl] at here
    exact Option.some.inj here
  obtain ⟨-, before, last, after, split, accepts, -, -, -, lengths⟩ := token _ found
  obtain ⟨-, -, start, stop⟩ := lengths small
  rw [found] at answer
  refine ⟨cut, answer, front, first, taken, paths, ?_, start.symm, before, last, after, split,
    accepts, stop⟩
  rcases skips with skips | ⟨-, rfl⟩
  · exact skips
  · cases start

end Header

namespace Vast

/-- A path through wide letters, which accepts the word behind the last one. -/
theorem exists_path_wide (count cursor : Nat) :
    ∃ path, Scan.Path language ⟨2, cursor, false⟩ (List.replicate count wide) path ∧
      (∀ visit ∈ path, visit.skips = false) ∧
      Scan.lastAccepted language path = some (word, cursor + 4 * count) := by
  induction count generalizing cursor with
  | zero =>
    have last : (language.lexState 2).atEnd = none := rfl
    exact ⟨_, .rest last, fun visit here => by rw [List.mem_singleton.mp here], rfl⟩
  | succ count ih =>
    obtain ⟨path, further, advances, accepted⟩ := ih (cursor + 4)
    refine ⟨⟨2, cursor, false⟩ :: path, .step step?_wide further, ?_, ?_⟩
    · intro visit here
      rcases List.mem_cons.mp here with rfl | later
      · rfl
      · exact advances visit later
    · rw [Scan.lastAccepted_cons, accepted, Option.some_or,
        show cursor + 4 + 4 * count = cursor + 4 * (count + 1) by omega]

/-- **In a text of four gigabytes a token may end early.**  There is a path that takes the whole
word, and no step of it skips anything.  The token ends behind the fifth byte. -/
theorem lexeme?_longest_vast :
    (Table.encode grammar).load 0 = .ok language ∧
    language.lexeme? (text 1073741825) 0 0 = some ⟨word, 0, 5, 0⟩ ∧
    ∃ path, Scan.Path language ⟨0, 0, false⟩ (text 1073741825) path ∧
      (∀ visit ∈ path, visit.skips = false) ∧
      Scan.lastAccepted language path = some (word, 4294967301) := by
  refine ⟨load_grammar, lexeme?_text 1073741825, ?_⟩
  obtain ⟨path, further, advances, accepted⟩ := exists_path_wide 1073741825 1
  refine ⟨⟨0, 0, false⟩ :: path, .step step?_letter further, ?_, ?_⟩
  · intro visit here
    rcases List.mem_cons.mp here with rfl | later
    · rfl
    · exact advances visit later
  · rw [Scan.lastAccepted_cons, accepted, Option.some_or]

end Vast

end Reparse
