/-
Reparse/Proofs/Table.lean

Tables hold their grammar, all of it and nothing else.

What is written into a table is read from it again (`decode_encodeAt`).  The
other way round a table need not be what would be written for its grammar, as
numbers have longer forms too.  But also such a table ends where its grammar
ends: no byte can be added and none taken away (`ends_of_decode`).  And what
would be written is shorter than any other table of the grammar with the same
version (`encodeAt_shortest`).
-/
import Reparse.Language.Load
import Reparse.Proofs.Wire.Shortest

namespace Reparse

open Wire

namespace Table

variable {table : Table} {grammar : Grammar}

/-! ### Headers -/

theorem readVersion_ofNat (version : UInt32) :
    readVersion (UInt8.ofNat version.toNat) (UInt8.ofNat (version.toNat / 0x100))
      (UInt8.ofNat (version.toNat / 0x10000)) (UInt8.ofNat (version.toNat / 0x1000000)) =
      version := by
  have bound := version.toNat_lt
  rw [readVersion]
  simp only [UInt8.toNat_ofNat']
  apply UInt32.toNat_inj.mp
  rw [UInt32.toNat_ofNat']
  omega

theorem split_encodeAt (grammar : Grammar) (version : UInt32) :
    (encodeAt grammar version).split = .ok (version, Format.grammar.write grammar) := by
  show Except.ok (readVersion _ _ _ _, Format.grammar.write grammar) = _
  rw [readVersion_ofNat]

theorem writeVersion_readVersion (v₀ v₁ v₂ v₃ : UInt8) :
    writeVersion (readVersion v₀ v₁ v₂ v₃) = [v₀, v₁, v₂, v₃] := by
  have bound₀ := v₀.toNat_lt
  have bound₁ := v₁.toNat_lt
  have bound₂ := v₂.toNat_lt
  have bound₃ := v₃.toNat_lt
  have value : (readVersion v₀ v₁ v₂ v₃).toNat =
      v₀.toNat + 0x100 * v₁.toNat + 0x10000 * v₂.toNat + 0x1000000 * v₃.toNat :=
    UInt32.toNat_ofNat'.trans (Nat.mod_eq_of_lt (by omega))
  have byte {n : Nat} {v : UInt8} (low : n % 256 = v.toNat) : UInt8.ofNat n = v :=
    UInt8.toNat_inj.mp (UInt8.toNat_ofNat'.trans low)
  rw [writeVersion, value]
  simp only [List.cons.injEq, and_true]
  exact ⟨byte (by omega), byte (by omega), byte (by omega), byte (by omega)⟩

/-- A header that is in order is the first eight bytes. -/
theorem split_eq_ok_iff {version : UInt32} {payload : Bytes} :
    table.split = .ok (version, payload) ↔ table.bytes = magic ++ writeVersion version ++ payload := by
  constructor
  · intro h
    unfold split at h
    split at h
    · cases h
    · rename_i m₀ m₁ m₂ m₃ v₀ v₁ v₂ v₃ rest shape
      split at h
      · rename_i same
        cases h
        rw [shape, writeVersion_readVersion, ← same]
        rfl
      · cases h
    · cases h
  · intro shape
    obtain ⟨bytes⟩ := table
    subst shape
    show Except.ok (readVersion _ _ _ _, payload) = _
    rw [readVersion_ofNat]

theorem bytes_of_split {version : UInt32} {payload : Bytes}
    (h : table.split = .ok (version, payload)) :
    ∃ v₀ v₁ v₂ v₃, table.bytes = magic ++ [v₀, v₁, v₂, v₃] ++ payload :=
  ⟨_, _, _, _, split_eq_ok_iff.mp h⟩

theorem version_eq_ok_iff {version : UInt32} :
    table.version = .ok version ↔ ∃ payload, table.split = .ok (version, payload) := by
  rw [Table.version]
  rcases table.split with e | ⟨stamp, payload⟩ <;> simp [Except.map]

/-- A grammar is decoded from a payload that it takes up. -/
theorem decode_eq_ok_iff : table.decode = .ok grammar ↔
    ∃ version payload, table.split = .ok (version, payload) ∧
      Format.grammar.read payload = .ok (grammar, []) := by
  rw [decode]
  rcases table.split with e | ⟨version, payload⟩
  · simp
  · rcases read : Format.grammar.read payload with e | ⟨found, rest⟩
    · simp [read]
    · cases rest <;> simp [read, and_assoc]

/-- The version and the grammar of a table, in terms of its bytes. -/
theorem version_decode_eq_ok_iff {version : UInt32} :
    table.version = .ok version ∧ table.decode = .ok grammar ↔
      ∃ payload, table.bytes = magic ++ writeVersion version ++ payload ∧
        Format.grammar.read payload = .ok (grammar, []) := by
  simp only [version_eq_ok_iff, decode_eq_ok_iff, ← split_eq_ok_iff]
  constructor
  · rintro ⟨⟨payload, header⟩, stamp, payload', header', read⟩
    rw [header] at header'
    cases header'
    exact ⟨payload, header, read⟩
  · rintro ⟨payload, header, read⟩
    exact ⟨⟨payload, header⟩, version, payload, header, read⟩

/-- With the header in order all depends on the payload. -/
theorem decode_header (v₀ v₁ v₂ v₃ : UInt8) (payload : Bytes) :
    decode ⟨magic ++ [v₀, v₁, v₂, v₃] ++ payload⟩ =
      match Format.grammar.read payload with
      | .error e => .error (.undecodable e)
      | .ok (grammar, rest) =>
        if rest.isEmpty then .ok grammar else .error (.trailingBytes rest.length) := rfl

/-- Fewer bytes than a header has are no header. -/
theorem decode_short {bytes : Bytes} (h : bytes.length < 8) :
    decode ⟨bytes⟩ = .error (if bytes.length = 0 then .empty else .truncated) := by
  cases bytes with
  | nil => rfl
  | cons b bytes =>
    have headless : split ⟨b :: bytes⟩ = .error .truncated := by
      unfold split
      split
      · rename_i shape
        cases shape
      · rename_i shape
        rw [show b :: bytes = _ from shape] at h
        simp only [List.length_cons] at h
        omega
      · rfl
    rw [decode, headless, if_neg (by rw [List.length_cons]; omega)]

/-! ### Writing and reading -/

/-- **A table gives back the grammar and the version that it was made of.** -/
theorem decode_encodeAt (writable : grammar.Writable) (version : UInt32) :
    (encodeAt grammar version).version = .ok version ∧
      (encodeAt grammar version).decode = .ok grammar := by
  have read := (Format.faithful_grammar writable).reads []
  rw [List.append_nil] at read
  constructor
  · rw [Table.version, split_encodeAt]
    rfl
  · rw [decode, split_encodeAt]
    dsimp only
    rw [read]
    rfl

/-- A grammar with something of everything, sense or not. -/
def motley : Grammar where
  name := "bunt ∋ 文"
  tokenCount := 0x4000
  symbols := [⟨"", ⟨0xf8⟩⟩, ⟨"§", ⟨0x07⟩⟩]
  lexStates :=
    [{ accept := some 0xffff,
       atEnd := some (.skip 0x3fff),
       transitions :=
        [⟨⟨[], true⟩, .advance 0x80⟩, ⟨⟨[('z', 'a'), ('é', '𝄞')], false⟩, .skip 0x7f⟩] },
     {}]
  parseStates :=
    [{ lexState := 0x4000,
       actions := [(0, .accept), (1, .shift 0xffff), (0xffff, .reduce 0x80 0xff), (1, .recover)],
       gotos := [(0xffff, 0), (0, 0xffff)] }]

theorem writable_motley : motley.Writable where
  name := by decide +kernel
  symbols := by decide
  lexStates := by decide
  parseStates := by decide
  eachSymbol := by unfold SymbolInfo.Writable; decide +kernel
  eachLexState := List.forall_mem_cons.mpr
    ⟨⟨by decide, by decide⟩, List.forall_mem_singleton.mpr ⟨by decide, by decide⟩⟩
  eachParseState := List.forall_mem_singleton.mpr ⟨by decide, by decide⟩

theorem decode_encodeAt_motley :
    motley.Writable ∧ (encodeAt motley 0xdeadbeef).version = .ok 0xdeadbeef ∧
      (encodeAt motley 0xdeadbeef).decode = .ok motley :=
  ⟨writable_motley, decode_encodeAt writable_motley 0xdeadbeef⟩

/-! ### The end of a table -/

/-- The payload of a table says its grammar. -/
theorem says_of_decode (h : table.decode = .ok grammar) :
    ∃ v₀ v₁ v₂ v₃ payload, table.bytes = magic ++ [v₀, v₁, v₂, v₃] ++ payload ∧
      Says Format.grammar.read payload grammar := by
  obtain ⟨version, payload, header, read⟩ := decode_eq_ok_iff.mp h
  obtain ⟨v₀, v₁, v₂, v₃, shape⟩ := bytes_of_split header
  -- with nothing behind it the grammar has taken the whole payload
  obtain ⟨used, whole, told⟩ := Format.delimits_grammar _ _ _ read
  rw [List.append_nil] at whole
  exact ⟨v₀, v₁, v₂, v₃, payload, shape, whole ▸ told⟩

theorem decode_append {more : Bytes} (h : table.decode = .ok grammar) (some : more ≠ []) :
    decode ⟨table.bytes ++ more⟩ = .error (.trailingBytes more.length) := by
  obtain ⟨v₀, v₁, v₂, v₃, payload, shape, told⟩ := says_of_decode h
  rw [shape, List.append_assoc, decode_header, told.reads more]
  exact if_neg fun none => some (List.isEmpty_iff.mp none)

theorem decode_take {n : Nat} (h : table.decode = .ok grammar) (inside : n < table.bytes.length) :
    decode ⟨table.bytes.take n⟩ = .error
      (if n = 0 then .empty else if n < 8 then .truncated else .undecodable .endOfInput) := by
  obtain ⟨v₀, v₁, v₂, v₃, payload, shape, told⟩ := says_of_decode h
  rcases Nat.lt_or_ge n 8 with short | long
  · have length : (table.bytes.take n).length = n := List.length_take_of_le (by omega)
    rw [decode_short (by omega), length, if_pos short]
  · have header : (magic ++ [v₀, v₁, v₂, v₃]).length = 8 := rfl
    -- what is left of the payload is a proper beginning of it
    have cut : payload.take (n - 8) ≠ payload := fun whole => by
      have length := congrArg List.length whole
      rw [List.length_take] at length
      rw [shape, List.length_append, header] at inside
      omega
    rw [shape, List.take_append, header, List.take_of_length_le long, decode_header,
      told.runsOut _ (List.take_prefix _ _) cut, if_neg (by omega), if_neg (by omega)]

theorem decode_of_load {origin : Nat} {language : Language} (h : table.load origin = .ok language) :
    ∃ grammar, table.decode = .ok grammar := by
  obtain ⟨_, grammar, -, -, decoded, -, -⟩ := load_eq_ok_iff.mp h
  exact ⟨grammar, decoded⟩

/-- **A table ends where its grammar ends.**  With more bytes the table has
trailing bytes, with fewer it is empty, has no whole header or breaks off in
the grammar; and it cannot be loaded either way. -/
theorem ends_of_decode (h : table.decode = .ok grammar) :
    (∀ more, more ≠ [] →
      decode ⟨table.bytes ++ more⟩ = .error (.trailingBytes more.length) ∧
        ∀ origin language, load ⟨table.bytes ++ more⟩ origin ≠ .ok language) ∧
    (∀ n < table.bytes.length,
      decode ⟨table.bytes.take n⟩ = .error
        (if n = 0 then .empty else if n < 8 then .truncated else .undecodable .endOfInput) ∧
        ∀ origin language, load ⟨table.bytes.take n⟩ origin ≠ .ok language) := by
  have unloadable : ∀ {bytes e}, decode ⟨bytes⟩ = .error e →
      ∀ origin language, load ⟨bytes⟩ origin ≠ .ok language := by
    intro bytes e undecodable origin language loaded
    obtain ⟨_, decoded⟩ := decode_of_load loaded
    rw [undecodable] at decoded
    cases decoded
  constructor
  · intro more some
    have trailing := decode_append h some
    exact ⟨trailing, unloadable trailing⟩
  · intro n inside
    have short := decode_take h inside
    exact ⟨short, unloadable short⟩

/-- The table of a grammar without anything in it, but the length of its name, zero, is
written in two groups. -/
def overlong : Table :=
  ⟨magic ++ writeVersion currentVersion ++ [0x80, 0x00, 0x00, 0x00, 0x00, 0x00]⟩

theorem ends_of_decode_overlong :
    overlong.decode = .ok ⟨"", 0, [], [], []⟩ ∧ overlong ≠ encode ⟨"", 0, [], [], []⟩ ∧
      (∀ more, more ≠ [] →
        decode ⟨overlong.bytes ++ more⟩ = .error (.trailingBytes more.length) ∧
          ∀ origin language, load ⟨overlong.bytes ++ more⟩ origin ≠ .ok language) ∧
      (∀ n < overlong.bytes.length,
        decode ⟨overlong.bytes.take n⟩ = .error
          (if n = 0 then .empty else if n < 8 then .truncated else .undecodable .endOfInput) ∧
          ∀ origin language, load ⟨overlong.bytes.take n⟩ origin ≠ .ok language) := by
  have decoded : overlong.decode = .ok ⟨"", 0, [], [], []⟩ := rfl
  exact ⟨decoded, by decide, ends_of_decode decoded⟩

/-! ### The shortest table -/

/-- **What is written for a grammar is its shortest table.**  Of a table with the same
version it keeps the header and the grammar, and it is shorter or the very same. -/
theorem encodeAt_shortest {version : UInt32} (stamped : table.version = .ok version)
    (decoded : table.decode = .ok grammar) :
    (encodeAt grammar version).bytes.take 8 = table.bytes.take 8 ∧
      (encodeAt grammar version).bytes.length ≤ table.bytes.length ∧
      (encodeAt grammar version).version = .ok version ∧
      (encodeAt grammar version).decode = .ok grammar ∧
      ((encodeAt grammar version).bytes.length = table.bytes.length →
        encodeAt grammar version = table) := by
  obtain ⟨payload, shape, read⟩ := version_decode_eq_ok_iff.mp ⟨stamped, decoded⟩
  obtain ⟨used, whole, noLonger, writable⟩ := Format.frugal_grammar _ _ _ read
  rw [List.append_nil] at whole
  subst whole
  have bytes : NoLonger (encodeAt grammar version).bytes table.bytes := by
    rw [shape]
    exact NoLonger.append (.inr rfl) noLonger
  have again := (Format.faithful_grammar writable).reads []
  rw [List.append_nil] at again
  have written : (encodeAt grammar version).version = .ok version ∧
      (encodeAt grammar version).decode = .ok grammar :=
    version_decode_eq_ok_iff.mpr ⟨Format.grammar.write grammar, rfl, again⟩
  refine ⟨?_, bytes.length_le, written.1, written.2, fun same => ?_⟩
  · rw [shape]
    rfl
  · exact congrArg Table.mk (bytes.eq_of_length same)

/-- A table with trailing groups of zeros in the length of the name and in the number of
terminals, and with characters behind the one that begins a range. -/
def bloated : Table :=
  ⟨magic ++ writeVersion oldestVersion ++
    [0x80, 0x80, 0x00, 0x81, 0x00, 0x00, 0x01, 0x00, 0x00, 0x01,
     0x01, 0x03, 0x61, 0x62, 0x63, 0x01, 0x7a, 0x00, 0x00, 0x05, 0x00]⟩

/-- The grammar in it. -/
def concise : Grammar where
  name := ""
  tokenCount := 1
  symbols := []
  lexStates := [{ transitions := [⟨.range 'a' 'z', .advance 5⟩] }]
  parseStates := []

theorem encodeAt_shortest_bloated :
    bloated.version = .ok 13 ∧ bloated.decode = .ok concise ∧
      (encodeAt concise 13).bytes.length + 5 = bloated.bytes.length ∧
      (encodeAt concise 13).bytes.take 8 = bloated.bytes.take 8 ∧
      (encodeAt concise 13).bytes.length ≤ bloated.bytes.length ∧
      (encodeAt concise 13).version = .ok 13 ∧ (encodeAt concise 13).decode = .ok concise ∧
      ((encodeAt concise 13).bytes.length = bloated.bytes.length →
        encodeAt concise 13 = bloated) := by
  have stamped : bloated.version = .ok 13 := rfl
  have decoded : bloated.decode = .ok concise := rfl
  exact ⟨stamped, decoded, by decide +kernel, encodeAt_shortest stamped decoded⟩

end Table

end Reparse
