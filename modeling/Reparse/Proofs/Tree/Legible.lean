/-
Reparse/Proofs/Tree/Legible.lean

What can be read off the dump of a tree.

A dump has one line for each visible node, in preorder.  Quoted text stays on
its line whatever it says, so each line can be told from the next.  A line says
how deep its node lies, whether it is missing, of which kind it is and where it
starts and ends, and these parts can be told apart too: each one is a run of
characters of one sort, and the character behind it is of another sort.  All
this needs is that kinds are words, and those of the header grammar are.  So
trees that are written alike are seen alike: `Spelled.written_eq`.

Main result: `Header.dump_faithful`.
-/
import Reparse.Proofs.Language.Load
import Reparse.Proofs.Tree.Grown
import Reparse.Proofs.Tree.Sight
import Reparse.Proofs.Verdict

namespace Reparse

namespace Text

/-! ### Runs of characters -/

variable {p : Char → Bool} {xs ys as bs : Text}

theorem takeWhile_run (run : ∀ c ∈ xs, p c = true) (stop : ∀ c ∈ as.head?, p c = false) :
    (xs ++ as).takeWhile p = xs := by
  have none : as.takeWhile p = [] := by
    cases as with
    | nil => rfl
    | cons c rest => rw [List.takeWhile_cons, stop c rfl]; rfl
  rw [List.takeWhile_append_of_pos run, none, List.append_nil]

/-- Two runs of one sort with something else behind each of them are told apart by the text
that they begin. -/
theorem eq_of_runs (hx : ∀ c ∈ xs, p c = true) (hy : ∀ c ∈ ys, p c = true)
    (ha : ∀ c ∈ as.head?, p c = false) (hb : ∀ c ∈ bs.head?, p c = false)
    (same : xs ++ as = ys ++ bs) : xs = ys ∧ as = bs := by
  have runs : xs = ys := by
    rw [← takeWhile_run hx ha, same, takeWhile_run hy hb]
  subst runs
  exact ⟨rfl, List.append_cancel_left same⟩

/-! ### Numbers -/

theorem isDigit_of_mem_ofNat {n : Nat} {c : Char} (h : c ∈ ofNat n) : c.isDigit = true :=
  Nat.isDigit_of_mem_toDigits (by decide) (by decide) h

theorem ofNat_inj {m n : Nat} (h : ofNat m = ofNat n) : m = n := by
  have read := congrArg (fun digits => Nat.ofDigitChars 10 digits 0) h
  simpa only [ofNat, Nat.ofDigitChars_ten_toDigits] using read

/-! ### Quoted text -/

theorem newline_not_mem_toDigits (n : Nat) : '\n' ∉ Nat.toDigits 16 n := by
  -- the last digit goes, so the induction is on the number
  have digit (n : Nat) : '\n' ≠ n.digitChar := (Nat.digitChar_ne '\n' rfl).symm
  induction n using Nat.strongRecOn with
  | ind n ih =>
    rw [Nat.toDigits_eq_if (by decide)]
    split
    · rw [List.mem_singleton]
      exact digit n
    · rename_i large
      rw [List.mem_append, List.mem_singleton, not_or]
      exact ⟨ih (n / 16) (by omega), digit _⟩

theorem newline_not_mem_quoteChar (c : Char) : '\n' ∉ quoteChar c := by
  rw [quoteChar]
  -- five characters are escaped by a letter, the newline is one of them
  iterate 5
    split
    · decide
  split
  · decide
  · rename_i other
    split
    · rw [List.mem_singleton]
      exact Ne.symm other
    · rw [List.mem_append, List.mem_append, not_or, not_or]
      exact ⟨⟨by decide, newline_not_mem_toDigits _⟩, by decide⟩

/-- **Quoted text stays on one line.** -/
theorem newline_not_mem_quote (text : Text) : '\n' ∉ quote text := by
  rw [quote, List.mem_append, List.mem_cons, List.mem_flatMap]
  rintro ((quoted | ⟨c, -, inside⟩) | last)
  · cases quoted
  · exact newline_not_mem_quoteChar c inside
  · cases List.mem_singleton.mp last

end Text

/-! ### Kinds -/

/-- Whether a kind is a word that looks the same in quotes, and no other word of a dump. -/
structure Legible (kind : String) : Prop where
  plain : ∀ c ∈ kind.toList, Text.quoteChar c = [c] ∧ c ≠ ' '
  nonempty : kind.toList ≠ []
  other : kind.toList ≠ "MISSING".toList

instance (kind : String) : Decidable (Legible kind) :=
  decidable_of_iff ((∀ c ∈ kind.toList, Text.quoteChar c = [c] ∧ c ≠ ' ') ∧
      kind.toList ≠ [] ∧ kind.toList ≠ "MISSING".toList)
    ⟨fun h => ⟨h.1, h.2.1, h.2.2⟩, fun h => ⟨h.plain, h.nonempty, h.other⟩⟩

namespace Legible

variable {kind : String} (h : Legible kind)
include h

/-- No character of a kind has a meaning of its own in a dump. -/
theorem ne_of_mem {c : Char} (within : c ∈ kind.toList) : c ≠ '"' ∧ c ≠ ' ' ∧ c ≠ '\n' := by
  obtain ⟨plain, space⟩ := h.plain c within
  refine ⟨?_, space, ?_⟩
  · rintro rfl
    cases plain
  · rintro rfl
    cases plain

theorem quote_eq : Text.quote kind.toList = '"' :: kind.toList ++ ['"'] := by
  have same : kind.toList.flatMap Text.quoteChar = kind.toList.flatMap fun c => [c] :=
    List.flatMap_congr fun c within => (h.plain c within).1
  rw [Text.quote, same, List.flatMap_singleton']

end Legible

namespace Outline

section Labels

variable {node a b : Node} {c : Char}

/-- A label is a word. -/
theorem ne_of_mem_label (h : Legible node.kind) (within : c ∈ label node) : c ≠ ' ' ∧ c ≠ '\n' := by
  rw [label] at within
  split at within
  · exact (h.ne_of_mem within).2
  · rw [h.quote_eq, List.cons_append, List.mem_cons, List.mem_append, List.mem_singleton] at within
    rcases within with rfl | inside | rfl
    · decide
    · exact (h.ne_of_mem inside).2
    · decide

theorem label_ne_nil (h : Legible node.kind) : label node ≠ [] := by
  rw [label]
  split
  · exact h.nonempty
  · rw [h.quote_eq]
    exact List.cons_ne_nil _ _

/-- It is not taken for the mark of a missing node. -/
theorem label_ne_missing (h : Legible node.kind) : label node ≠ "MISSING".toList := by
  rw [label]
  split
  · exact h.other
  · rw [h.quote_eq]
    intro same
    cases same

/-- A label says what kind it stands for, in quotes or not. -/
theorem kind_of_label (ha : Legible a.kind) (hb : Legible b.kind) (same : label a = label b) :
    a.kind = b.kind := by
  -- a kind without quotes has none in it, so it is not read as one with quotes
  have bare {kind kind' : String} (h : Legible kind)
      (e : kind.toList = '"' :: kind'.toList ++ ['"']) : False := by
    refine (h.ne_of_mem (c := '"') ?_).1 rfl
    rw [e]
    exact List.mem_cons_self
  rw [label, label, ha.quote_eq, hb.quote_eq] at same
  apply String.toList_inj.mp
  split at same
  · split at same
    · exact same
    · exact (bare ha same).elim
  · split at same
    · exact (bare hb same.symm).elim
    · exact List.append_cancel_right (List.cons.inj same).2

end Labels

/-! ### Lines -/

/-- What may stand behind the span of a node: nothing, or its text. -/
def Tail (tail : Text) : Prop :=
  tail = [] ∨ ∃ text, tail = ' ' :: Text.quote text

theorem Tail.newline_not_mem {tail : Text} (h : Tail tail) : '\n' ∉ tail := by
  rcases h with rfl | ⟨text, rfl⟩
  · exact List.not_mem_nil
  · rw [List.mem_cons, not_or]
    exact ⟨by decide, Text.newline_not_mem_quote text⟩

theorem Tail.not_digit {tail : Text} (h : Tail tail) : ∀ c ∈ tail.head?, c.isDigit = false := by
  rcases h with rfl | ⟨text, rfl⟩
  · exact fun _ none => by cases none
  · rintro c ⟨⟩
    rfl

/-- The mark of a missing node. -/
def mark (node : Node) : Text := if node.isMissing then "MISSING ".toList else []

theorem line_eq (depth : Nat) (node : Node) : line depth node =
    List.replicate (4 * depth) ' ' ++ (mark node ++ (label node ++ ' ' :: node.span.render)) := by
  simp only [line, mark, List.append_assoc]

section Reading

variable {a b node : Node} {rest rest' tail tail' : Text}

/-- Words that stand in front of a space are told apart. -/
theorem eq_of_words {word word' : Text} (hw : ∀ c ∈ word, c ≠ ' ') (hw' : ∀ c ∈ word', c ≠ ' ')
    (same : word ++ ' ' :: rest = word' ++ ' ' :: rest') : word = word' ∧ rest = rest' := by
  have stop {text : Text} : ∀ c ∈ (' ' :: text).head?, (c != ' ') = false := by
    rintro c ⟨⟩
    rfl
  obtain ⟨words, behind⟩ := Text.eq_of_runs (fun c within => bne_iff_ne.mpr (hw c within))
    (fun c within => bne_iff_ne.mpr (hw' c within)) stop stop same
  exact ⟨words, (List.cons.inj behind).2⟩

/-- Behind the indentation there is no space. -/
theorem head_mark (h : Legible node.kind) :
    ∀ c ∈ (mark node ++ (label node ++ rest)).head?, (c == ' ') = false := by
  rw [mark]
  split
  · rintro c ⟨⟩
    rfl
  · rcases e : label node with - | ⟨first, word⟩
    · exact absurd e (label_ne_nil h)
    · rintro c ⟨⟩
      have within : first ∈ label node := e ▸ List.mem_cons_self
      exact beq_false_of_ne (ne_of_mem_label h within).1

/-- The indentation says how deep a node lies. -/
theorem depth_of_indent {depth depth' : Nat} (ha : ∀ c ∈ rest.head?, (c == ' ') = false)
    (hb : ∀ c ∈ rest'.head?, (c == ' ') = false)
    (same : List.replicate (4 * depth) ' ' ++ rest = List.replicate (4 * depth') ' ' ++ rest') :
    depth = depth' ∧ rest = rest' := by
  have spaces (count : Nat) : ∀ c ∈ List.replicate count ' ', (c == ' ') = true :=
    fun c within => beq_iff_eq.mpr (List.eq_of_mem_replicate within)
  obtain ⟨indents, behind⟩ := Text.eq_of_runs (spaces _) (spaces _) ha hb same
  have lengths := congrArg List.length indents
  rw [List.length_replicate, List.length_replicate] at lengths
  exact ⟨by omega, behind⟩

/-- The words in front of a span say whether a node is missing and of which kind it is. -/
theorem kind_of_words (ha : Legible a.kind) (hb : Legible b.kind)
    (same : mark a ++ (label a ++ ' ' :: rest) = mark b ++ (label b ++ ' ' :: rest')) :
    a.isMissing = b.isMissing ∧ a.kind = b.kind ∧ rest = rest' := by
  have word {node : Node} (h : Legible node.kind) : ∀ c ∈ label node, c ≠ ' ' :=
    fun c within => (ne_of_mem_label h within).1
  have missing : ∀ c ∈ "MISSING".toList, c ≠ ' ' := by decide
  have marked (text : Text) : "MISSING ".toList ++ text = "MISSING".toList ++ ' ' :: text := rfl
  rw [mark, mark] at same
  -- the mark is a word that is no label, so it stands in front of both labels or of none
  rcases ea : a.isMissing with - | - <;> rcases eb : b.isMissing with - | - <;>
    simp only [ea, eb, if_true, if_false, Bool.false_eq_true, List.nil_append, marked] at same
  · obtain ⟨labels, behind⟩ := eq_of_words (word ha) (word hb) same
    exact ⟨rfl, kind_of_label ha hb labels, behind⟩
  · exact absurd (eq_of_words (word ha) missing same).1 (label_ne_missing ha)
  · exact absurd (eq_of_words missing (word hb) same).1.symm (label_ne_missing hb)
  · obtain ⟨labels, behind⟩ := eq_of_words (word ha) (word hb) (eq_of_words missing missing same).2
    exact ⟨rfl, kind_of_label ha hb labels, behind⟩

/-- A span is read off its numbers. -/
theorem span_of_render {span span' : Span} (ht : Tail tail) (ht' : Tail tail')
    (same : span.render ++ tail = span'.render ++ tail') : span = span' := by
  have digits (n : Nat) : ∀ c ∈ Text.ofNat n, c.isDigit = true :=
    fun c within => Text.isDigit_of_mem_ofNat within
  have dot {text : Text} : ∀ c ∈ ('.' :: text).head?, c.isDigit = false := by
    rintro c ⟨⟩
    rfl
  -- the dots end the first number, and the tail the second
  simp only [Span.render, List.append_assoc, List.cons_append] at same
  obtain ⟨starts, behind⟩ := Text.eq_of_runs (digits _) (digits _) dot dot same
  simp only [List.cons.injEq, true_and] at behind
  obtain ⟨stops, -⟩ := Text.eq_of_runs (digits _) (digits _) ht.not_digit ht'.not_digit behind
  cases span
  cases span'
  exact congr (congrArg Span.mk (Text.ofNat_inj starts)) (Text.ofNat_inj stops)

/-- **A line says all that is written of a node.** -/
theorem written_of_line {depth depth' : Nat} (ha : Legible a.kind) (hb : Legible b.kind)
    (ht : Tail tail) (ht' : Tail tail') (same : line depth a ++ tail = line depth' b ++ tail') :
    depth = depth' ∧ a.isMissing = b.isMissing ∧ a.kind = b.kind ∧ a.span = b.span := by
  simp only [line_eq, List.append_assoc, List.cons_append] at same
  obtain ⟨depths, words⟩ := depth_of_indent (head_mark ha) (head_mark hb) same
  obtain ⟨missing, kinds, spans⟩ := kind_of_words ha hb words
  exact ⟨depths, missing, kinds, span_of_render ht ht' spans⟩

/-- A line ends where its end is written. -/
theorem newline_not_mem_line (depth : Nat) (h : Legible node.kind) (ht : Tail tail) :
    '\n' ∉ line depth node ++ tail := by
  have number (n : Nat) : '\n' ∉ Text.ofNat n := by
    intro within
    have digit := Text.isDigit_of_mem_ofNat within
    cases digit
  have word : '\n' ∉ label node := fun within => (ne_of_mem_label h within).2 rfl
  have marked : '\n' ∉ mark node := by
    rw [mark]
    split <;> decide
  simp only [line_eq, Span.render, List.mem_append, List.mem_cons, not_or]
  refine ⟨⟨?_, marked, word, by decide, number _, by decide, by decide, number _⟩,
    ht.newline_not_mem⟩
  intro within
  cases List.eq_of_mem_replicate within

end Reading

/-! ### Dumps -/

/-- Lines of nodes, one after the other. -/
inductive Spelled : List (Nat × Node) → Text → Prop
  | nil : Spelled [] []
  | line {depth : Nat} {node : Node} {tail text : Text} {nodes : List (Nat × Node)}
      (ends : Tail tail) (rest : Spelled nodes text) :
      Spelled ((depth, node) :: nodes) (line depth node ++ tail ++ '\n' :: text)

mutual

/-- **A dump spells the nodes in preorder.** -/
theorem spelled_dump (source : Text) (depth : Nat) (outline : Outline) {nodes : List (Nat × Node)}
    {text : Text} (h : Spelled nodes text) :
    Spelled (preorder depth outline ++ nodes) (dump source depth outline ++ text) := by
  obtain ⟨node, children⟩ := outline
  rw [preorder, dump, List.cons_append]
  cases children with
  | nil =>
    have leaf : Tail (' ' :: quotedText source node) := .inr ⟨_, rfl⟩
    simpa [preorders] using Spelled.line leaf h
  | cons child rest =>
    have below := spelled_dumps source (depth + 1) (child :: rest) h
    simpa using Spelled.line (.inl rfl) below

theorem spelled_dumps (source : Text) (depth : Nat) (outlines : List Outline)
    {nodes : List (Nat × Node)} {text : Text} (h : Spelled nodes text) :
    Spelled (preorders depth outlines ++ nodes) (dumps source depth outlines ++ text) := by
  cases outlines with
  | nil => exact h
  | cons outline rest =>
    rw [preorders, dumps, List.append_assoc, List.append_assoc]
    exact spelled_dump source depth outline (spelled_dumps source depth rest h)

end

end Outline

/-- What is written of a node: how deep it lies, its kind, where it starts and ends, and whether
it is missing. -/
def Sight.written (sight : Sight) : Nat × String × Nat × Nat × Bool :=
  (sight.depth, sight.kind, sight.start, sight.stop, sight.isMissing)

namespace Outline

/-- **The nodes can be read back from their lines.** -/
theorem Spelled.written_eq {xs ys : List (Nat × Node)} {text text' : Text}
    (hx : ∀ found ∈ xs, Legible found.2.kind) (hy : ∀ found ∈ ys, Legible found.2.kind)
    (h : Spelled xs text) (h' : Spelled ys text') (same : text = text') :
    xs.map (fun found => (found.2.sight found.1).written) =
      ys.map fun found => (found.2.sight found.1).written := by
  have some {line text : Text} : line ++ '\n' :: text ≠ [] :=
    List.append_ne_nil_of_right_ne_nil _ (List.cons_ne_nil _ _)
  have stop {text : Text} : ∀ c ∈ ('\n' :: text).head?, (c != '\n') = false := by
    rintro c ⟨⟩
    rfl
  have solid {depth : Nat} {node : Node} {tail : Text} (h : Legible node.kind) (ht : Tail tail) :
      ∀ c ∈ Outline.line depth node ++ tail, (c != '\n') = true := by
    intro c within
    refine bne_iff_ne.mpr ?_
    rintro rfl
    exact newline_not_mem_line depth h ht within
  -- the first newline of each text ends its first line, so the induction is on the lines
  induction h generalizing ys text' with
  | nil =>
    cases h' with
    | nil => rfl
    | line => exact absurd same.symm some
  | @line depth node tail text nodes ends rest ih =>
    cases h' with
    | nil => exact absurd same some
    | @line depth' node' tail' text' nodes' ends' rest' =>
      obtain ⟨first, later⟩ := List.forall_mem_cons.mp hx
      obtain ⟨first', later'⟩ := List.forall_mem_cons.mp hy
      obtain ⟨lines, behind⟩ :=
        Text.eq_of_runs (solid first ends) (solid first' ends') stop stop same
      obtain ⟨depths, missing, kinds, spans⟩ := written_of_line first first' ends ends' lines
      obtain ⟨starts, stops⟩ := Span.mk.inj spans
      have here : (node.sight depth).written = (node'.sight depth').written := by
        simp only [Sight.written, Node.sight, depths, missing, kinds, starts, stops]
      rw [List.map_cons, List.map_cons, here, ih later later' rest' (List.cons.inj behind).2]

end Outline

/-- Trees of legible kinds with the same dump show the same nodes. -/
theorem Tree.written_of_dump {a b : Tree} {source : Text}
    (ha : ∀ node ∈ a.rootNode.family, Legible node.kind)
    (hb : ∀ node ∈ b.rootNode.family, Legible node.kind) (same : a.dump source = b.dump source) :
    a.sights.map Sight.written = b.sights.map Sight.written := by
  have spelled (tree : Tree) :
      Outline.Spelled (tree.rootNode.outline.preorder 0) (tree.dump source) := by
    simpa [Tree.dump] using Outline.spelled_dump source 0 tree.rootNode.outline .nil
  have legible {tree : Tree} (h : ∀ node ∈ tree.rootNode.family, Legible node.kind) :
      ∀ found ∈ tree.rootNode.outline.preorder 0, Legible found.2.kind :=
    fun found within => h found.2 (List.mem_map_of_mem within)
  rw [Tree.sights, Tree.sights, List.map_map, List.map_map]
  exact (spelled a).written_eq (legible ha) (legible hb) (spelled b) same

/-! ### Languages -/

/-- Whether all kinds of a language can be read back. -/
def Language.Legible (language : Language) : Prop :=
  ∀ symbol, symbol = errorSymbol ∨ symbol.toNat < language.symbolCount →
    Reparse.Legible ((language.kind? symbol).getD "")

/-- All that is seen of a tree of such a language has a legible kind. -/
theorem Tree.Grown.legible {language : Language} (consistent : language.Consistent)
    (legible : language.Legible) {tree : Tree} (h : tree.Grown language) :
    ∀ node ∈ tree.rootNode.family, Reparse.Legible node.kind := by
  intro node within
  obtain ⟨known, same⟩ := Node.throughout_family tree.rootNode (h.known consistent) within
  have here : node.language = language := same.trans h.same_language
  rw [Node.kind, here]
  exact legible node.symbol known.self.symbol

namespace Header

/-- The kinds of the header grammar are legible, whenever its table was loaded. -/
theorem legible_of_load {origin : Nat} {language : Language}
    (loaded : Table.header.load origin = .ok language) : language.Legible := by
  have infos : ∀ info ∈ grammar.symbols, Reparse.Legible info.name := by decide +kernel
  -- loads differ in their origin alone
  have symbols : language.symbols = grammar.symbols.toArray := by
    have same := (Table.load_origin loaded 0).symm.trans load_header
    exact congrArg Language.symbols (Except.ok.inj same)
  rintro symbol (rfl | inside)
  · exact (by decide : Reparse.Legible Language.errorName)
  · by_cases error : symbol = errorSymbol
    · subst error
      exact (by decide : Reparse.Legible Language.errorName)
    · rw [Language.symbolCount] at inside
      rw [Language.kind?, if_neg error, Array.getElem?_eq_getElem inside, Option.map_some,
        Option.getD_some]
      apply infos
      simp only [symbols, List.getElem_toArray, List.getElem_mem]

/-- **Dumps are faithful.**  Trees of the header grammar, whenever it was loaded and whatever parses
and edits they come from, show the same nodes if they are written alike for one source: depths,
kinds, starts, ends and missing nodes agree all through the preorder.  So where a reparse is
verified, the tree of the reparse and that of the fresh parse show the same nodes. -/
theorem dump_faithful :
    (∀ (originA originB : Nat) (languageA languageB : Language),
      Table.header.load originA = .ok languageA → Table.header.load originB = .ok languageB →
      ∀ a b : Tree, a.Grown languageA → b.Grown languageB →
        ∀ source : Text, a.dump source = b.dump source →
          a.sights.map Sight.written = b.sights.map Sight.written) ∧
    ∀ (source new : Text) (start stop : Nat),
      Table.header.verifyReparse source start stop new = .passed →
      ∃ edited, source.replace? start stop new = some edited ∧
        (language.parse {} edited (some ((language.parse {} source none).1.edit
          (.replace start stop new)))).1.sights.map Sight.written =
        (language.parse {} edited none).1.sights.map Sight.written := by
  have faithful : ∀ (originA originB : Nat) (languageA languageB : Language),
      Table.header.load originA = .ok languageA → Table.header.load originB = .ok languageB →
      ∀ a b : Tree, a.Grown languageA → b.Grown languageB →
        ∀ source : Text, a.dump source = b.dump source →
          a.sights.map Sight.written = b.sights.map Sight.written := by
    intro originA originB languageA languageB loadedA loadedB a b grownA grownB source same
    exact Tree.written_of_dump
      (grownA.legible (Table.consistent_of_load loadedA) (legible_of_load loadedA))
      (grownB.legible (Table.consistent_of_load loadedB) (legible_of_load loadedB)) same
  refine ⟨faithful, ?_⟩
  intro source new start stop passed
  rw [Table.verifyReparse, load_header] at passed
  rcases replaced : source.replace? start stop new with - | edited
  · simp only [replaced] at passed
    cases passed
  · refine ⟨edited, rfl, ?_⟩
    simp only [replaced] at passed
    split at passed
    · rename_i same
      have fresh (text : Text) : (language.parse {} text none).1.Grown language :=
        .parse _ _ none fun _ none => by cases none
      apply faithful 0 0 language language load_header load_header _ _ _ (fresh edited) edited same
      apply Tree.Grown.parse
      intro tree e _
      rw [← Option.some.inj e]
      exact .edit _ _ (fresh source)
    · cases passed

/-- A header without a title. -/
@[irreducible] def untitled : Tree := (language.parse {} "[DOCUMENT]\n\n\x00".toList none).1

/-- Behind an edit that changes nothing there are marks on the tree, but it is written as before
and shows the same nodes.  A letter more in the literal, and the reparse of the text is verified
and shows the nodes of a fresh parse. -/
theorem dump_faithful_untitled :
    untitled.Grown language ∧ (untitled.edit (.replace 3 3 [])).root.marks.hasChanges = true ∧
    untitled.sights.map Sight.written =
      (untitled.edit (.replace 3 3 [])).sights.map Sight.written ∧
    Table.header.verifyReparse "[DOCUMENT]\n\n\x00".toList 3 3 "U".toList = .passed ∧
    ∃ edited, Text.replace? "[DOCUMENT]\n\n\x00".toList 3 3 "U".toList = some edited ∧
      (language.parse {} edited (some ((language.parse {} "[DOCUMENT]\n\n\x00".toList none).1.edit
        (.replace 3 3 "U".toList)))).1.sights.map Sight.written =
      (language.parse {} edited none).1.sights.map Sight.written := by
  have grown : untitled.Grown language := by
    unfold untitled
    exact .parse _ _ none fun _ none => by cases none
  have marked : (untitled.edit (.replace 3 3 [])).root.marks.hasChanges = true := by
    rw [Tree.edit, Subtree.marks_edit]
  have alike : untitled.dump "[DOCUMENT]\n\n\x00".toList =
      (untitled.edit (.replace 3 3 [])).dump "[DOCUMENT]\n\n\x00".toList := by
    decide +kernel
  have passed : Table.header.verifyReparse "[DOCUMENT]\n\n\x00".toList 3 3 "U".toList = .passed :=
    verifyReparse_header _ "[DOUCUMENT]\n\n\x00".toList _ 3 3 rfl (by decide) (by decide)
  obtain ⟨faithful, verified⟩ := dump_faithful
  exact ⟨grown, marked,
    faithful 0 0 language language load_header load_header _ _ grown (.edit _ _ grown) _ alike,
    passed, verified _ _ 3 3 passed⟩

end Header

end Reparse
