/-
Reparse/Proofs/Header/Session.lean

Editing a document gives what parsing its text from scratch gives.

A session begins with a parse and goes on with edits, each of the document that
the one before has left, valid or not.  As long as there are recoveries enough
for its texts, every document of a session is `Settled`: its tree looks like
that of a fresh parse, and belongs to the text, so the next parse may reuse it.
Main result: `DocumentParser.session_agrees`.
-/
import Mathlib.Data.List.Infix
import Reparse.Proofs.Header.Edited
import Reparse.Proofs.Header.Top

namespace Reparse

open Subtree

namespace Subtree

variable {P : Subtree → Prop}

mutual

/-- What bare forms do not hide holds throughout both or neither. -/
theorem throughout_bare (h : ∀ tree, P tree.bare ↔ P tree) (tree : Subtree) :
    Throughout P tree.bare ↔ Throughout P tree := by
  obtain ⟨head, children⟩ := tree
  rw [throughout_iff, throughout_iff, h, bare_children, ← bares_eq_map]
  exact and_congr_right fun _ => forall_bares h children

theorem forall_bares (h : ∀ tree, P tree.bare ↔ P tree) (trees : List Subtree) :
    (∀ tree ∈ bares trees, Throughout P tree) ↔ ∀ tree ∈ trees, Throughout P tree := by
  cases trees with
  | nil => rfl
  | cons tree trees =>
    rw [bares, List.forall_mem_cons, List.forall_mem_cons, throughout_bare h tree,
      forall_bares h trees]

end

end Subtree

/-! ### Sessions -/

/-- A replacement that is asked for, whether or not there is such a range. -/
structure Change where
  start : Nat
  stop : Nat
  new : Text

namespace Change

/-- The source after a change, if there is such a range. -/
def changed? (change : Change) (source : Text) : Option Text :=
  source.replace? change.start change.stop change.new

/-- The source after some changes; those without a range are left out. -/
def applyAll (changes : List Change) (source : Text) : Text :=
  changes.foldl (fun source change => (change.changed? source).getD source) source

theorem applyAll_append (early : List Change) (change : Change) (source : Text) :
    applyAll (early ++ [change]) source =
      (change.changed? (applyAll early source)).getD (applyAll early source) := by
  simp [applyAll]

end Change

/-- The document behind an edit, valid or not. -/
def EditError.settled : Except EditError Document → Document
  | .ok document => document
  | .error error => error.document

namespace DocumentParser

/-- Edit a document, and go on with what there is then. -/
def change (parser : DocumentParser) (document : Document) (change : Change) :
    Except EditError Document × DocumentParser :=
  parser.edit document change.start change.stop change.new

/-- The parser and the document after some changes of an input. -/
def session (parser : DocumentParser) (input : Text) (changes : List Change) :
    DocumentParser × Document :=
  changes.foldl
    (fun state change =>
      let (result, parser) := state.1.change state.2 change
      (parser, EditError.settled result))
    ((parser.parse input).2, settled (parser.parse input).1)

theorem session_append (parser : DocumentParser) (input : Text) (early : List Change)
    (change : Change) :
    parser.session input (early ++ [change]) =
      let (result, next) :=
        (parser.session input early).1.change (parser.session input early).2 change
      (next, EditError.settled result) := by
  simp [session]

end DocumentParser

/-! ### Settled documents -/

namespace Header

/-- Whether a document is what a parse of its text comes to, with a tree that
the next parse may reuse. -/
structure Settled (config : Config) (document : Document) : Prop where
  header : document.tree.language = language
  grown : document.tree.Grown language
  look : document.tree.root.bare =
    (setting document.text config.maxRecoveries.toNat none).parse.1.bare
  fresh : EverywhereAmong (FreshAt document.text) 0 document.tree.root.children
  intact : Throughout (Intact language) document.tree.root

variable {config : Config} {parser : DocumentParser} {document : Document}

@[simp] theorem size_terminated (source : Text) :
    Text.size (source ++ [terminator]) = source.size + 1 :=
  Text.size_append ..

/-- A text with a recovery for each byte has positions of 32 bits. -/
theorem size_lt_of_recoveries {text : Text} {recoveries : UInt32}
    (enough : text.size + 15 ≤ recoveries.toNat) : text.size < UInt32.size := by
  have := recoveries.toNat_lt
  simp only [UInt32.size]
  omega

/-- A parse from a usable tree comes to a root that looks like that of a fresh one. -/
theorem parse_look {text : Text} {old : Option Tree}
    (enough : text.size + 15 ≤ config.maxRecoveries.toNat)
    (usable : Usable text (config.reusableRoot? language old)) :
    (language.parse config text old).1.root.bare =
      (language.parse config text none).1.root.bare := by
  rw [parse_fresh]
  exact (parse_alike (size_lt_of_recoveries enough) enough usable).1

/-- **A parse from a usable tree settles the document** and says the same of it
as a fresh parse. -/
theorem parseText_settles {text : Text} (enough : text.size + 15 ≤ parser.config.maxRecoveries.toNat)
    {old : Option Tree}
    (grown : ∀ tree, old = some tree → tree.language = language → tree.Grown language)
    (usable : Usable text (parser.config.reusableRoot? language old)) :
    Settled parser.config (DocumentParser.settled (parser.parseText text old).1) ∧
      DocumentParser.complaint? (parser.parseText text old).1 =
        DocumentParser.complaint? (parser.parseText text none).1 := by
  have small := size_lt_of_recoveries enough
  obtain ⟨look, fresh, intact⟩ := parse_alike small enough usable
  have measured {root : Subtree} (h : Throughout (Intact language) root) : Throughout Measured root :=
    h.mono fun _ _ h => h.measured
  have tree : (language.parse parser.config text old).1 =
      ⟨(setting text parser.config.maxRecoveries.toNat
        (parser.config.reusableRoot? language old)).parse.1, language⟩ := rfl
  constructor
  · rw [DocumentParser.settled_parseText]
    exact ⟨rfl, .parse _ _ _ grown, look, fresh, intact⟩
  · rw [DocumentParser.complaint?_parseText, DocumentParser.complaint?_parseText, parse_fresh, tree]
    exact Tree.complaint?_congr rfl look (measured intact)
      (measured (intact_parse small _))

/-- A settled document shows what a fresh parse shows. -/
theorem Settled.sights (h : Settled config document) :
    document.tree.sights = (language.parse config document.text none).1.sights := by
  rw [parse_fresh]
  exact Tree.sights_congr h.header h.look

/-- Complete documents below the root of a settled document have errors. -/
theorem Settled.partial (h : Settled config document)
    (enough : document.text.size + 15 ≤ config.maxRecoveries.toNat) :
    ∀ child ∈ document.tree.root.children, Throughout Partial child := by
  have fresh := partial_parse (size_lt_of_recoveries enough) enough
  have same := congrArg Subtree.children h.look
  rw [bare_children, bare_children] at same
  intro child m
  obtain ⟨other, m, e⟩ := List.mem_map.mp (same ▸ List.mem_map_of_mem (f := Subtree.bare) m)
  have congr (tree : Subtree) : Partial tree.bare ↔ Partial tree := by
    rw [Partial, Partial, bare_symbol, bare_marks]
  exact (throughout_bare congr child).mp (e ▸ (throughout_bare congr other).mpr (fresh other m))

/-- An edit of a settled document leaves a tree to reuse. -/
theorem Settled.usable (h : Settled config document) {front slice new back : Text}
    (text : document.text = front ++ slice ++ back)
    (enough : document.text.size + 15 ≤ config.maxRecoveries.toNat)
    (enough' : (front ++ new ++ back).size + 15 ≤ config.maxRecoveries.toNat) :
    Usable (front ++ new ++ back) (config.reusableRoot? language
      (some (document.tree.edit (.replace front.size (front ++ slice).size new)))) := by
  rcases kept : config.reusableRoot? language
      (some (document.tree.edit (.replace front.size (front ++ slice).size new))) with - | root
  · exact usable_none _
  · obtain ⟨tree, e, -, rfl⟩ := Config.reusableRoot?_eq_some kept
    obtain rfl := Option.some.inj e
    have part := h.partial enough
    have fresh := h.fresh
    rw [text] at fresh enough
    exact usable_edit h.grown h.intact fresh part (size_lt_of_recoveries enough)
      (size_lt_of_recoveries enough')

/-! ### Edits -/

theorem source_of_text {source : Text} (h : document.text = source ++ [terminator]) :
    document.source = source := by
  rw [Document.source, h, List.getLast?_concat, if_pos rfl, List.dropLast_concat]

/-- A range of the source is one of the text. -/
theorem replace?_terminated {source changed new : Text} {start stop : Nat}
    (h : source.replace? start stop new = some changed) :
    (source.slice? start stop).isSome ∧
      ∃ front slice back, source = front ++ slice ++ back ∧ front.size = start ∧
        (front ++ slice).size = stop ∧ changed = front ++ new ++ back ∧
        (source ++ [terminator]).replace? start stop new = some (changed ++ [terminator]) := by
  obtain ⟨front, slice, back, rfl, rfl, rfl, rfl⟩ := Text.replace?_eq_some_iff.mp h
  constructor
  · rw [Text.slice?_eq_some_iff.mpr ⟨front, back, rfl, rfl, rfl⟩]
    rfl
  · refine ⟨front, slice, back, rfl, rfl, Text.size_append .., rfl, ?_⟩
    exact Text.replace?_eq_some_iff.mpr
      ⟨front, slice, back ++ [terminator], by simp, rfl, rfl, by simp⟩

theorem slice?_eq_none {source new : Text} {start stop : Nat}
    (h : source.replace? start stop new = none) : source.slice? start stop = none := by
  rcases e : source.slice? start stop with - | slice
  · rfl
  · obtain ⟨front, back, split, start', stop'⟩ := Text.slice?_eq_some_iff.mp e
    rw [Text.replace?_eq_some_iff.mpr ⟨front, slice, back, split, start', stop', rfl⟩] at h
    cases h

/-- **An edit of a settled document** is refused, or says what a fresh parse of
the changed source says. -/
theorem Settled.change (h : Settled parser.config document) {source : Text}
    (text : document.text = source ++ [terminator]) (change : Change)
    (room : source.size + 16 ≤ parser.config.maxRecoveries.toNat)
    (room' : ∀ changed, change.changed? source = some changed →
      changed.size + 16 ≤ parser.config.maxRecoveries.toNat) :
    (parser.change document change).2.config = parser.config ∧
      match change.changed? source with
      | none => (parser.change document change).1 =
          .error (.invalidRange change.start change.stop document)
      | some changed => ∃ outcome,
          (parser.change document change).1 = outcome.mapError .malformed ∧
          DocumentParser.complaint? outcome =
            DocumentParser.complaint? (parser.parse changed).1 ∧
          (DocumentParser.settled outcome).text = changed ++ [terminator] ∧
          Settled parser.config (DocumentParser.settled outcome) := by
  rw [DocumentParser.change, DocumentParser.edit, source_of_text text]
  rcases e : change.changed? source with - | changed
  · rw [slice?_eq_none e]
    exact ⟨rfl, rfl⟩
  · obtain ⟨sliced, front, slice, back, rfl, start, stop, rfl, replaced⟩ := replace?_terminated e
    obtain ⟨part, sliced⟩ := Option.isSome_iff_exists.mp sliced
    have enough := room' _ e
    obtain ⟨tree, here⟩ : ∃ tree, document.tree.edit (.replace change.start change.stop change.new) =
      tree := ⟨_, rfl⟩
    have grown : tree.Grown language := here ▸ .edit _ _ h.grown
    have usable : Usable (front ++ change.new ++ back ++ [terminator])
        (parser.config.reusableRoot? language (some tree)) := by
      rw [List.append_assoc] at text ⊢
      rw [← here, ← start, ← stop]
      refine h.usable text ?_ ?_
      · rw [text, ← List.append_assoc, size_terminated]
        omega
      · rw [← List.append_assoc, size_terminated]
        omega
    have settled := @parseText_settles parser (front ++ change.new ++ back ++ [terminator])
      (by rw [size_terminated]; omega) (some tree) (fun other e _ => Option.some.inj e ▸ grown) usable
    simp only [sliced, text, replaced, here]
    refine ⟨rfl, _, rfl, settled.2, ?_, settled.1⟩
    rw [DocumentParser.settled_parseText]

end Header

/-! ### Whole sessions -/

namespace DocumentParser

open Header Change

/-- A parse asks for nothing but the settings of the parser. -/
theorem parse_congr {a b : DocumentParser} (config : a.config = b.config) (input : Text) :
    (a.parse input).1 = (b.parse input).1 := by
  simp only [parse, parseText, config]

@[simp] theorem settled_mapError (outcome : Except DocumentError Document) :
    EditError.settled (outcome.mapError .malformed) = settled outcome := by
  cases outcome <;> rfl

variable {parser : DocumentParser} {input : Text} {changes : List Change}

/-- Whether there are recoveries enough for all texts of a session. -/
def Ample (parser : DocumentParser) (input : Text) (changes : List Change) : Prop :=
  ∀ early, early <+: changes →
    (applyAll early input).size + 16 ≤ parser.config.maxRecoveries.toNat

theorem Ample.earlier (h : parser.Ample input changes) {early : List Change}
    (front : early <+: changes) : parser.Ample input early :=
  fun earlier m => h earlier (m.trans front)

/-- A step of a session, as an edit and as a change of the source. -/
theorem Ample.room (h : parser.Ample input changes) {early : List Change} {change : Change}
    (front : early ++ [change] <+: changes) {changed : Text}
    (accepted : change.changed? (applyAll early input) = some changed) :
    changed.size + 16 ≤ parser.config.maxRecoveries.toNat := by
  have room := h _ front
  rwa [applyAll_append, accepted, Option.getD_some] at room

/-- **Every document of a session is settled.** -/
theorem session_settled (ample : parser.Ample input changes) :
    (parser.session input changes).1.config = parser.config ∧
      (parser.session input changes).2.text = applyAll changes input ++ [terminator] ∧
      Settled parser.config (parser.session input changes).2 := by
  induction changes using List.reverseRecOn with
  | nil =>
    have enough : input.size + 16 ≤ parser.config.maxRecoveries.toNat := ample [] (List.prefix_refl _)
    have usable : Usable (input ++ [terminator]) (parser.config.reusableRoot? language none) := by
      rw [Config.reusableRoot?]
      split
      · exact usable_none _
      · exact usable_none _
    obtain ⟨settled, -⟩ := @parseText_settles parser (input ++ [terminator])
      (by rw [size_terminated]; omega) none (fun _ e => by cases e) usable
    refine ⟨rfl, ?_, settled⟩
    show (DocumentParser.settled (parser.parseText (input ++ [terminator]) none).1).text = _
    rw [settled_parseText]
    rfl
  | append_singleton early change ih =>
    have front : early <+: early ++ [change] := List.prefix_append ..
    obtain ⟨config, text, settled⟩ := ih (ample.earlier front)
    rw [← config] at settled
    obtain ⟨config', how⟩ := settled.change text change (config ▸ ample _ front)
      fun changed accepted => config ▸ ample.room (List.prefix_refl _) accepted
    rw [session_append, applyAll_append]
    refine ⟨config'.trans config, ?_⟩
    rw [config] at how
    rcases accepted : change.changed? (applyAll early input) with - | changed
    · rw [accepted] at how
      simp only [how]
      exact ⟨text, config ▸ settled⟩
    · rw [accepted] at how
      obtain ⟨outcome, e, -, text, settled⟩ := how
      simp only [e, settled_mapError]
      exact ⟨text, settled⟩

/-- **Editing a document gives what parsing its text from scratch gives.**  After
any changes, in a session with recoveries enough, the source is that of the
changes that have a range; the text is the source with its terminator; and all
that is seen of the tree is what is seen of a fresh one.  A last change without
a range leaves the document as it was.  Any other one is valid just if a fresh
parse is, and otherwise reports the same error at the same place. -/
theorem session_agrees (parser : DocumentParser) (input : Text) (changes : List Change)
    (ample : parser.Ample input changes) :
    let document := (parser.session input changes).2
    document.source = applyAll changes input ∧
    document.text = document.source ++ [terminator] ∧
    document.tree.sights = (settled (parser.parse document.source).1).tree.sights ∧
    ∀ early change, changes = early ++ [change] →
      let before := (parser.session input early).2
      let result := ((parser.session input early).1.change before change).1
      match change.changed? before.source with
      | none =>
        result = .error (.invalidRange change.start change.stop before) ∧ document = before
      | some source =>
        document.source = source ∧ ∃ outcome, result = outcome.mapError .malformed ∧
          document = settled outcome ∧ complaint? outcome = complaint? (parser.parse source).1 := by
  obtain ⟨-, text, settled⟩ := session_settled ample
  have source := source_of_text text
  refine ⟨source, by rw [text, source], ?_, ?_⟩
  · rw [settled.sights, text, source]
    show _ = (DocumentParser.settled (parser.parseText (_ ++ [terminator]) none).1).tree.sights
    rw [settled_parseText]
  · rintro early change rfl
    have front : early <+: early ++ [change] := List.prefix_append ..
    obtain ⟨config, text', settled'⟩ := session_settled (ample.earlier front)
    rw [← config] at settled'
    have how := (settled'.change text' change (config ▸ ample _ front)
      fun changed accepted => config ▸ ample.room (List.prefix_refl _) accepted).2
    simp only [source_of_text text', session_append]
    rcases accepted : change.changed? (applyAll early input) with - | changed
    · rw [accepted] at how
      simp only [how]
      exact ⟨trivial, rfl⟩
    · rw [accepted] at how
      obtain ⟨outcome, e, complaint, ended, -⟩ := how
      simp only [e, settled_mapError]
      exact ⟨source_of_text ended, outcome, rfl, rfl, complaint.trans
        (congrArg complaint? (parse_congr config changed))⟩

/-- A session that breaks a header, asks for a range that there is not, and
mends the header. -/
theorem session_agrees_mended :
    ({} : DocumentParser).Ample "[DOCUMENT]\n\n".toList
        [⟨1, 3, "x".toList⟩, ⟨4, 99, []⟩, ⟨1, 2, "DO".toList⟩] ∧
      let document := (({} : DocumentParser).session "[DOCUMENT]\n\n".toList
        [⟨1, 3, "x".toList⟩, ⟨4, 99, []⟩, ⟨1, 2, "DO".toList⟩]).2
      document.source = "[DOCUMENT]\n\n".toList ∧
        document.tree.sights =
          (settled (({} : DocumentParser).parse "[DOCUMENT]\n\n".toList).1).tree.sights := by
  have ample : ({} : DocumentParser).Ample "[DOCUMENT]\n\n".toList
      [⟨1, 3, "x".toList⟩, ⟨4, 99, []⟩, ⟨1, 2, "DO".toList⟩] := by
    intro early front
    have all : ∀ early ∈ List.inits [⟨1, 3, "x".toList⟩, ⟨4, 99, []⟩, ⟨1, 2, "DO".toList⟩],
        (applyAll early "[DOCUMENT]\n\n".toList).size + 16 ≤
          ({} : DocumentParser).config.maxRecoveries.toNat := by decide
    exact all early ((List.mem_inits ..).mpr front)
  obtain ⟨source, -, sights, -⟩ := session_agrees {} "[DOCUMENT]\n\n".toList _ ample
  have mended : applyAll [⟨1, 3, "x".toList⟩, ⟨4, 99, []⟩, ⟨1, 2, "DO".toList⟩]
      "[DOCUMENT]\n\n".toList = "[DOCUMENT]\n\n".toList := by decide
  refine ⟨ample, source.trans mended, ?_⟩
  rw [sights, source, mended]

end DocumentParser

end Reparse
