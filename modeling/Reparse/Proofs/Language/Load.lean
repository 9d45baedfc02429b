/-
Reparse/Proofs/Language/Load.lean

Which tables are loaded.

A table gives a language just if it has a header with one of the two versions
and behind it a grammar, which is consistent, and nothing more
(`exists_load_eq_ok_iff`).
-/
import Reparse.Proofs.Language.Consistent
import Reparse.Proofs.Table

namespace Reparse

open Wire

theorem isCompatible_iff {version : UInt32} :
    isCompatible version = true ↔ version = 13 ∨ version = 14 := by
  have oldest : oldestVersion.toNat = 13 := rfl
  have current : currentVersion.toNat = 14 := rfl
  have thirteen : (13 : UInt32).toNat = 13 := rfl
  have fourteen : (14 : UInt32).toNat = 14 := rfl
  simp only [isCompatible, Bool.and_eq_true, decide_eq_true_eq, UInt32.le_iff_toNat_le,
    ← UInt32.toNat_inj]
  omega

namespace Table

variable {table : Table} {origin : Nat}

/-- A table holds a compatible version and a consistent grammar if it is loaded, and the
language is the one of that grammar. -/
theorem load_eq_ok_iff_consistent {language : Language} : table.load origin = .ok language ↔
    ∃ version grammar, (table.version = .ok version ∧ table.decode = .ok grammar) ∧
      (version = 13 ∨ version = 14) ∧ grammar.Consistent ∧
      grammar.toLanguage version origin = language := by
  simp only [load_eq_ok_iff, isCompatible_iff, Grammar.fault?_eq_none_iff]
  constructor
  · rintro ⟨version, grammar, stamped, compatible, decoded, consistent, made⟩
    exact ⟨version, grammar, ⟨stamped, decoded⟩, compatible, consistent, made⟩
  · rintro ⟨version, grammar, ⟨stamped, decoded⟩, compatible, consistent, made⟩
    exact ⟨version, grammar, stamped, compatible, decoded, consistent, made⟩

/-- Languages of one table differ in nothing but their origin. -/
theorem load_origin {language : Language} (loaded : table.load origin = .ok language)
    (other : Nat) : table.load other = .ok { language with origin := other } := by
  obtain ⟨version, grammar, stamped, compatible, decoded, fine, rfl⟩ := load_eq_ok_iff.mp loaded
  exact load_eq_ok_iff.mpr ⟨version, grammar, stamped, compatible, decoded, fine, rfl⟩

/-- **The tables that are loaded are those of consistent grammars**, with a version that
is known and nothing behind the grammar. -/
theorem exists_load_eq_ok_iff : (∃ language, table.load origin = .ok language) ↔
    ∃ version payload grammar, table.bytes = magic ++ writeVersion version ++ payload ∧
      (version = 13 ∨ version = 14) ∧ Format.grammar.read payload = .ok (grammar, []) ∧
      grammar.Consistent := by
  simp only [load_eq_ok_iff_consistent, version_decode_eq_ok_iff]
  constructor
  · rintro ⟨language, version, grammar, ⟨payload, shape, read⟩, compatible, consistent, -⟩
    exact ⟨version, payload, grammar, shape, compatible, read, consistent⟩
  · rintro ⟨version, payload, grammar, shape, compatible, read, consistent⟩
    exact ⟨_, version, grammar, ⟨payload, shape, read⟩, compatible, consistent, rfl⟩

end Table

end Reparse
