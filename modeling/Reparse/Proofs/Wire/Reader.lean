/-
Reparse/Proofs/Wire/Reader.lean

Readers as computations on the bytes that are left.

A reader gives a value and the rest of its bytes, or the first error.  That is
a computation with the bytes as its state, so the reader of a format is the
readers of its parts done one after the other.  Each lemma here says so of one
format.  What all readers have in common is then shown of single bytes and of
computations put together, and not again for every format; `Yields` is for what
ties a value to the bytes that it was read from.
-/
import Reparse.Wire.Grammar

namespace Reparse.Wire

/-- A reader with the bytes that are left as its state. -/
abbrev Reader (α : Type) := StateT Bytes (Except ReadError) α

variable {α β : Type}

namespace Reader

theorem bind_apply (first : Reader α) (next : α → Reader β) (bytes : Bytes) :
    (first >>= next) bytes =
      match first bytes with
      | .error e => .error e
      | .ok (a, rest) => next a rest := by
  show (first bytes >>= fun found => next found.1 found.2) = _
  rcases first bytes with e | ⟨a, rest⟩ <;> rfl

theorem bind_of_ok {first : Reader α} {bytes rest : Bytes} {a : α}
    (h : first bytes = .ok (a, rest)) (next : α → Reader β) :
    (first >>= next) bytes = next a rest := by
  rw [bind_apply, h]

theorem bind_of_error {first : Reader α} {bytes : Bytes} {e : ReadError}
    (h : first bytes = .error e) (next : α → Reader β) : (first >>= next) bytes = .error e := by
  rw [bind_apply, h]

/-- Two readers in a row succeed if both do, the second where the first has stopped. -/
theorem bind_eq_ok {first : Reader α} {next : α → Reader β} {bytes rest : Bytes} {b : β}
    (h : (first >>= next) bytes = .ok (b, rest)) :
    ∃ a middle, first bytes = .ok (a, middle) ∧ next a middle = .ok (b, rest) := by
  rw [bind_apply] at h
  rcases e : first bytes with e' | ⟨a, middle⟩
  · rw [e] at h
    cases h
  · rw [e] at h
    exact ⟨a, middle, rfl, h⟩

end Reader

/-! ### What readers yield -/

/-- Whatever a reader takes, the value and the bytes that it was read from have
a property in common. -/
def Yields (reader : Reader α) (property : α → Bytes → Prop) : Prop :=
  ∀ bytes a rest, reader bytes = .ok (a, rest) → ∃ used, bytes = used ++ rest ∧ property a used

theorem yields_pure {property : α → Bytes → Prop} {a : α} (h : property a []) :
    Yields (pure a : Reader α) property := by
  intro bytes b rest e
  cases e
  exact ⟨[], rfl, h⟩

theorem yields_throw (property : α → Bytes → Prop) (e : ReadError) :
    Yields (throw e : Reader α) property := by
  intro bytes a rest h
  cases h

theorem yields_byte : Yields Format.byte.read fun b used => used = [b] := by
  intro bytes b rest h
  cases bytes with
  | nil => cases h
  | cons c bytes =>
    cases h
    exact ⟨[b], rfl, rfl⟩

theorem Yields.mono {reader : Reader α} {property weaker : α → Bytes → Prop}
    (h : Yields reader property) (imp : ∀ a used, property a used → weaker a used) :
    Yields reader weaker := by
  intro bytes a rest e
  obtain ⟨used, shape, fact⟩ := h bytes a rest e
  exact ⟨used, shape, imp a used fact⟩

/-- The second of two readers in a row goes on from what the first has taken. -/
theorem Yields.bind {first : Reader α} {next : α → Reader β} {property : α → Bytes → Prop}
    {property' : β → Bytes → Prop} (h : Yields first property)
    (h' : ∀ a used, property a used → Yields (next a) fun b more => property' b (used ++ more)) :
    Yields (first >>= next) property' := by
  intro bytes b rest e
  obtain ⟨a, middle, e, e'⟩ := Reader.bind_eq_ok e
  obtain ⟨used, rfl, fact⟩ := h _ _ _ e
  obtain ⟨more, rfl, fact'⟩ := h' a used fact _ _ _ e'
  exact ⟨used ++ more, (List.append_assoc ..).symm, fact'⟩

theorem Yields.map {reader : Reader α} {property : α → Bytes → Prop}
    {property' : β → Bytes → Prop} {f : α → β} (h : Yields reader property)
    (h' : ∀ a used, property a used → property' (f a) used) :
    Yields (do return f (← reader) : Reader β) property' := by
  refine h.bind fun a used fact => yields_pure ?_
  rw [List.append_nil]
  exact h' a used fact

namespace Format

open Reader

/-! ### Numbers and tags -/

theorem readGroups_succ (lastMax groups : Nat) :
    readGroups lastMax (groups + 1) = (do
      let b ← byte.read
      if b.toNat < 128 then
        if groups = 0 ∧ lastMax < b.toNat then throw .badVarint else return b.toNat
      else
        return b.toNat - 128 + 128 * (← readGroups lastMax groups) : Reader Nat) := by
  funext bytes
  cases bytes with
  | nil => rfl
  | cons b bytes =>
    simp only [readGroups, bind_apply, byte]
    split
    · split <;> rfl
    · simp only [bind_apply]
      rcases readGroups lastMax groups bytes with e | ⟨high, rest⟩ <;> rfl

theorem read_imap (format : Format α) (make : α → β) (split : β → α) :
    (format.imap make split).read = (do return make (← format.read) : Reader β) := by
  funext bytes
  simp only [imap, bind_apply]
  rcases format.read bytes with e | ⟨a, rest⟩ <;> rfl

theorem read_bool :
    bool.read = (do
      let b ← byte.read
      if b = 0 then return false else if b = 1 then return true else throw .badBool :
      Reader Bool) := by
  funext bytes
  cases bytes with
  | nil => rfl
  | cons b bytes =>
    simp only [bool, bind_apply, byte]
    split
    · rfl
    · split <;> rfl

theorem read_option (format : Format α) :
    (option format).read = (do
      let b ← byte.read
      if b = 0 then return none
      else if b = 1 then return some (← format.read) else throw .badOption :
      Reader (Option α)) := by
  funext bytes
  cases bytes with
  | nil => rfl
  | cons b bytes =>
    simp only [option, bind_apply, byte]
    split
    · rfl
    · split
      · simp only [bind_apply]
        rcases format.read bytes with e | ⟨a, rest⟩ <;> rfl
      · rfl

/-! ### Sequences -/

theorem read_pair (first : Format α) (second : Format β) :
    (first.pair second).read = (do return (← first.read, ← second.read) : Reader (α × β)) := by
  funext bytes
  simp only [pair, bind_apply]
  rcases first.read bytes with e | ⟨a, rest⟩
  · rfl
  · rcases second.read rest with e | ⟨b, rest⟩ <;> rfl

theorem readMany_succ (format : Format α) (n : Nat) (done : List α) :
    readMany format (n + 1) done =
      (do readMany format n ((← format.read) :: done) : Reader (List α)) := by
  funext bytes
  simp only [readMany, bind_apply]
  rcases format.read bytes with e | ⟨a, rest⟩ <;> rfl

theorem read_list (format : Format α) :
    (list format).read = (do readMany format (← length.read) [] : Reader (List α)) := by
  funext bytes
  simp only [list, bind_apply]
  rcases length.read bytes with e | ⟨n, rest⟩ <;> rfl

theorem takeBytes_succ (n : Nat) :
    takeBytes (n + 1) = (do return (← byte.read) :: (← takeBytes n) : Reader Bytes) := by
  funext bytes
  cases bytes with
  | nil => rfl
  | cons b bytes =>
    simp only [takeBytes, bind_apply, byte]
    rcases takeBytes n bytes with e | ⟨taken, rest⟩ <;> rfl

/-! ### Text -/

theorem read_text :
    text.read = (do
      let taken ← takeBytes (← length.read)
      match ofUtf8? taken with
      | none => throw .badText
      | some t => return t : Reader String) := by
  funext bytes
  simp only [text, bind_apply]
  rcases length.read bytes with e | ⟨n, rest⟩
  · rfl
  · dsimp only
    rcases takeBytes n rest with e | ⟨taken, rest⟩
    · rfl
    · dsimp only
      rcases ofUtf8? taken with - | t <;> rfl

theorem read_char :
    char.read = (do
      let n ← length.read
      if 4 < n then throw .badChar
      else
        let taken ← takeBytes n
        match (ofUtf8? taken).bind (·.toList.head?) with
        | none => throw .badChar
        | some c => return c : Reader Char) := by
  funext bytes
  simp only [char, bind_apply]
  rcases length.read bytes with e | ⟨n, rest⟩
  · rfl
  · dsimp only
    split
    · rfl
    · simp only [bind_apply]
      rcases takeBytes n rest with e | ⟨taken, rest⟩
      · rfl
      · dsimp only
        rcases (ofUtf8? taken).bind (·.toList.head?) with - | c <;> rfl

/-! ### Variants -/

theorem read_lexStep :
    lexStep.read = (do
      match ← variant.read with
      | 0 => return .advance (← word.read)
      | 1 => return .skip (← word.read)
      | _ => throw .badVariant : Reader LexStep) := by
  funext bytes
  simp only [lexStep, bind_apply]
  rcases variant.read bytes with e | ⟨n, rest⟩
  · rfl
  · match n with
    | 0 => exact congrFun (read_imap word LexStep.advance LexStep.target) rest
    | 1 => exact congrFun (read_imap word LexStep.skip LexStep.target) rest
    | _ + 2 => rfl

theorem read_parseAction :
    parseAction.read = (do
      match ← variant.read with
      | 0 => return .shift (← word.read)
      | 1 => return .reduce (← word.read) (← byte.read)
      | 2 => return .accept
      | 3 => return .recover
      | _ => throw .badVariant : Reader ParseAction) := by
  funext bytes
  simp only [parseAction, bind_apply]
  rcases variant.read bytes with e | ⟨n, rest⟩
  · rfl
  · match n with
    | 0 =>
      simp only [bind_apply]
      rcases word.read rest with e | ⟨target, rest⟩ <;> rfl
    | 1 =>
      simp only [pair, bind_apply]
      rcases word.read rest with e | ⟨symbol, rest⟩
      · rfl
      · dsimp only
        rcases byte.read rest with e | ⟨count, rest⟩ <;> rfl
    | 2 => rfl
    | 3 => rfl
    | _ + 4 => rfl

end Format

end Reparse.Wire
