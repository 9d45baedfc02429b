/-
Reparse/Text.lean

Source texts: lists of characters whose positions are UTF-8 byte offsets.

A position that falls inside a character or past the end is no place to cut:
`drop?`, `take?`, `slice?` and `replace?` answer `none` there.  What they
answer otherwise is said by splitting the text: see `drop?_eq_some_iff`,
`take?_eq_some_iff`, `slice?_eq_some_iff` and `replace?_eq_some_iff`.
-/
namespace Reparse

/-- A source text.  Positions in it count UTF-8 bytes. -/
abbrev Text := List Char

namespace Text

/-! ### Length -/

/-- The length of a text in bytes. -/
def size : Text → Nat
  | [] => 0
  | c :: cs => c.utf8Size + size cs

@[simp] theorem size_nil : size [] = 0 := rfl

@[simp] theorem size_cons (c : Char) (cs : Text) : size (c :: cs) = c.utf8Size + size cs := rfl

@[simp] theorem size_append (a b : Text) : size (a ++ b) = size a + size b := by
  induction a with
  | nil => simp
  | cons c cs ih => simp [ih, Nat.add_assoc]

theorem size_eq_zero_iff {text : Text} : size text = 0 ↔ text = [] := by
  cases text with
  | nil => simp
  | cons c cs => simp [Nat.ne_of_gt c.utf8Size_pos]

/-! ### Cutting -/

/-- What follows the first `n` bytes. -/
def drop? : Text → Nat → Option Text
  | cs, 0 => some cs
  | [], _ + 1 => none
  | c :: cs, n + 1 => if c.utf8Size ≤ n + 1 then drop? cs (n + 1 - c.utf8Size) else none

/-- The first `n` bytes. -/
def take? : Text → Nat → Option Text
  | _, 0 => some []
  | [], _ + 1 => none
  | c :: cs, n + 1 =>
    if c.utf8Size ≤ n + 1 then (take? cs (n + 1 - c.utf8Size)).map (c :: ·) else none

theorem drop?_append (before rest : Text) : drop? (before ++ rest) (size before) = some rest := by
  induction before with
  | nil => cases rest <;> rfl
  | cons c cs ih =>
    obtain ⟨n, hn⟩ := Nat.exists_eq_succ_of_ne_zero
      (Nat.ne_of_gt (Nat.add_pos_left c.utf8Size_pos (size cs)))
    rw [size_cons, hn, List.cons_append, drop?, if_pos (by omega), ← ih]
    congr 1
    omega

theorem take?_append (before rest : Text) : take? (before ++ rest) (size before) = some before := by
  induction before with
  | nil => cases rest <;> rfl
  | cons c cs ih =>
    obtain ⟨n, hn⟩ := Nat.exists_eq_succ_of_ne_zero
      (Nat.ne_of_gt (Nat.add_pos_left c.utf8Size_pos (size cs)))
    rw [size_cons, hn, List.cons_append, take?, if_pos (by omega),
      show n + 1 - c.utf8Size = size cs by omega, ih]
    rfl

theorem drop?_eq_some_iff {text rest : Text} {n : Nat} :
    drop? text n = some rest ↔ ∃ before, text = before ++ rest ∧ size before = n := by
  constructor
  · intro h
    induction text generalizing n with
    | nil =>
      cases n with
      | zero => exact ⟨[], by simpa [drop?] using h, rfl⟩
      | succ n => simp [drop?] at h
    | cons c cs ih =>
      cases n with
      | zero => exact ⟨[], by simpa [drop?] using h, rfl⟩
      | succ n =>
        simp only [drop?] at h
        split at h
        · obtain ⟨before, rfl, hb⟩ := ih h
          exact ⟨c :: before, rfl, by simp only [size_cons]; omega⟩
        · simp at h
  · rintro ⟨before, rfl, rfl⟩
    exact drop?_append before rest

theorem take?_eq_some_iff {text before : Text} {n : Nat} :
    take? text n = some before ↔ ∃ rest, text = before ++ rest ∧ size before = n := by
  constructor
  · intro h
    induction text generalizing n before with
    | nil =>
      cases n with
      | zero => exact ⟨[], by simpa [take?] using h, by simp_all [take?]⟩
      | succ n => simp [take?] at h
    | cons c cs ih =>
      cases n with
      | zero =>
        obtain rfl : before = [] := by simpa [take?] using h.symm
        exact ⟨c :: cs, rfl, rfl⟩
      | succ n =>
        simp only [take?] at h
        split at h
        · obtain ⟨taken, ht, rfl⟩ := Option.map_eq_some_iff.mp h
          obtain ⟨rest, rfl, hs⟩ := ih ht
          exact ⟨rest, rfl, by simp only [size_cons]; omega⟩
        · simp at h
  · rintro ⟨rest, rfl, rfl⟩
    exact take?_append before rest

/-! ### Ranges -/

/-- The bytes from `start` up to `stop`. -/
def slice? (text : Text) (start stop : Nat) : Option Text :=
  if start ≤ stop then (text.drop? start).bind fun rest => Text.take? rest (stop - start)
  else none

/-- The text with the bytes from `start` up to `stop` replaced by `new`. -/
def replace? (text : Text) (start stop : Nat) (new : Text) : Option Text :=
  if start ≤ stop then
    match text.take? start, text.drop? stop with
    | some before, some after => some (before ++ new ++ after)
    | _, _ => none
  else none

theorem slice?_eq_some_iff {text slice : Text} {start stop : Nat} :
    slice? text start stop = some slice ↔
      ∃ before after, text = before ++ slice ++ after ∧
        size before = start ∧ start + size slice = stop := by
  constructor
  · intro h
    simp only [slice?] at h
    split at h
    · obtain ⟨rest, hd, ht⟩ := Option.bind_eq_some_iff.mp h
      obtain ⟨before, rfl, hb⟩ := drop?_eq_some_iff.mp hd
      obtain ⟨after, rfl, hs⟩ := take?_eq_some_iff.mp ht
      exact ⟨before, after, by simp, hb, by omega⟩
    · simp at h
  · rintro ⟨before, after, rfl, rfl, rfl⟩
    simp [slice?, List.append_assoc, drop?_append, take?_append]

theorem replace?_eq_some_iff {text new result : Text} {start stop : Nat} :
    replace? text start stop new = some result ↔
      ∃ before slice after, text = before ++ slice ++ after ∧
        size before = start ∧ start + size slice = stop ∧ result = before ++ new ++ after := by
  constructor
  · intro h
    simp only [replace?] at h
    split at h
    · rename_i hle
      split at h
      · rename_i before after ht hd
        obtain ⟨rest, rfl, hb⟩ := take?_eq_some_iff.mp ht
        obtain ⟨front, hf, hs⟩ := drop?_eq_some_iff.mp hd
        -- the longer of two beginnings of a text continues the shorter one
        rcases List.append_eq_append_iff.mp hf with ⟨slice, rfl, rfl⟩ | ⟨more, rfl, rfl⟩
        · refine ⟨before, slice, after, by simp, hb, ?_, by simpa using h.symm⟩
          simp only [size_append] at hs
          omega
        · have hm : size more = 0 := by simp only [size_append] at hb; omega
          obtain rfl := size_eq_zero_iff.mp hm
          exact ⟨front, [], rest, by simp, by simpa using hb, by simp_all, by simpa using h.symm⟩
      · simp at h
    · simp at h
  · rintro ⟨before, slice, after, rfl, rfl, rfl, rfl⟩
    have ht := take?_append before (slice ++ after)
    have hd := drop?_append (before ++ slice) after
    rw [size_append] at hd
    rw [← List.append_assoc] at ht
    simp [replace?, ht, hd, -List.append_assoc]

/-! ### Numbers -/

/-- Decimal digits. -/
def ofNat (n : Nat) : Text :=
  Nat.toDigits 10 n

end Text

end Reparse
