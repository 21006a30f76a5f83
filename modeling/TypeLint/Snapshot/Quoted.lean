import TypeLint.Snapshot.Byte
import TypeLint.Text.Digit
import TypeLint.Text.Utf8

/-!
# Quoted strings and characters in snapshots

A string stands between quotes, with escapes, or as a raw string between quotes with hashes around
them, without. Its content is read as bytes and has to be UTF-8. A character stands between
apostrophes.

## Main definitions

- `readQuoted` — the content of a string with escapes
- `readFenced` — the content of a raw string
- `readCharacter` — a character
- `quote`, `quoteCharacter` — a text between quotes, a character between apostrophes

## Design notes

Writing names some characters by their number, for the sake of readers who could not tell them from
others. Reading gives the same text whichever characters are named, so the choice is a parameter.
-/

namespace TypeLint.Snapshot

open Text

/-- The character that a backslash and one character stand for. -/
def namedEscape? : Char → Option Char
  | '\x27' => some '\x27'
  | '"' => some '"'
  | '\\' => some '\\'
  | 'n' => some '\n'
  | 'r' => some '\r'
  | 't' => some '\t'
  | '0' => some '\x00'
  | _ => none

/-- Reads a number in braces of one to six hexadecimal digits, after the opening brace. -/
def readBraced (bytes : List UInt8) : Option (Nat × List UInt8) :=
  let digits := (bytes.takeWhile fun b => (digit? 16 (glyph b)).isSome).map glyph
  match bytes.drop digits.length with
  | b :: rest =>
    if glyph b = '\x7d' ∧ digits ≠ [] ∧ digits.length ≤ 6 then
      (readDigits 16 digits.length 0 digits).map fun (n, _) => (n, rest)
    else none
  | [] => none

/-- Reads one escape, without its backslash: a named one, `x` with two hexadecimal digits, or `u`
    with a number in braces. -/
def readEscape : List UInt8 → Option (Char × List UInt8)
  | [] => none
  | b :: bytes =>
    match glyph b, bytes with
    | 'x', d :: e :: rest =>
      match readDigits 16 2 0 [glyph d, glyph e] with
      | some (n, _) => (scalar? n).map (·, rest)
      | none => none
    | 'u', brace :: rest =>
      if glyph brace = '\x7b' then
        match readBraced rest with
        | some (n, rest) => (scalar? n).map (·, rest)
        | none => none
      else none
    | c, _ => (namedEscape? c).map (·, bytes)

theorem readBraced_length {bytes rest : List UInt8} {n : Nat}
    (h : readBraced bytes = some (n, rest)) : rest.length < bytes.length := by
  unfold readBraced at h
  dsimp only at h
  split at h
  · rename_i b tail dropped
    split at h
    · simp only [Option.map_eq_some_iff, Prod.mk.injEq, Prod.exists] at h
      obtain ⟨_, _, _, _, rfl⟩ := h
      have := congrArg List.length dropped
      simp only [List.length_drop, List.length_cons] at this
      omega
    · simp at h
  · simp at h

theorem readEscape_length {bytes rest : List UInt8} {c : Char}
    (h : readEscape bytes = some (c, rest)) : rest.length < bytes.length := by
  unfold readEscape at h
  split at h
  · simp at h
  · split at h
    · split at h
      · simp only [Option.map_eq_some_iff, Prod.mk.injEq] at h
        obtain ⟨_, _, _, rfl⟩ := h
        simp only [List.length_cons]
        omega
      · simp at h
    · split at h
      · split at h
        · rename_i read
          have := readBraced_length read
          simp only [Option.map_eq_some_iff, Prod.mk.injEq] at h
          obtain ⟨_, _, _, rfl⟩ := h
          simp only [List.length_cons]
          omega
        · simp at h
      · simp at h
    · simp only [Option.map_eq_some_iff, Prod.mk.injEq] at h
      obtain ⟨_, _, _, rfl⟩ := h
      simp

/-- Reads the bytes of a quoted string up to its closing quote, with escapes resolved. -/
def readQuoted : List UInt8 → Option (List UInt8 × List UInt8)
  | [] => none
  | b :: bytes =>
    if glyph b = '"' then some ([], bytes)
    else if glyph b = '\\' then
      match _ : readEscape bytes with
      | none => none
      | some (c, rest) =>
        (readQuoted rest).map fun (content, rest) => (String.utf8EncodeChar c ++ content, rest)
    else (readQuoted bytes).map fun (content, rest) => (b :: content, rest)
termination_by bytes => bytes.length
decreasing_by
  · have := readEscape_length ‹_›
    simp only [List.length_cons]
    omega
  · simp

theorem readQuoted_length {bytes content rest : List UInt8}
    (h : readQuoted bytes = some (content, rest)) : rest.length < bytes.length := by
  fun_induction readQuoted bytes generalizing content rest with
  | case1 => simp at h
  | case2 => simp_all
  | case3 => simp at h
  | case4 b bytes _ _ c tail read ih =>
    simp only [Option.map_eq_some_iff, Prod.mk.injEq, Prod.exists] at h
    obtain ⟨inner, last, inside, _, rfl⟩ := h
    have := ih inside
    have := readEscape_length read
    simp only [List.length_cons]
    omega
  | case5 b bytes _ _ ih =>
    simp only [Option.map_eq_some_iff, Prod.mk.injEq, Prod.exists] at h
    obtain ⟨inner, last, inside, _, rfl⟩ := h
    have := ih inside
    simp only [List.length_cons]
    omega

/-- Reads the bytes of a raw string up to its closing quote, which is followed by as many hashes as
    the opening quote has in front. -/
def readFenced (hashes : Nat) : List UInt8 → Option (List UInt8 × List UInt8)
  | [] => none
  | b :: bytes =>
    if glyph b = '"' ∧ hashes ≤ (bytes.takeWhile (glyph · == '#')).length then
      some ([], bytes.drop hashes)
    else (readFenced hashes bytes).map fun (content, rest) => (b :: content, rest)

theorem readFenced_length {hashes : Nat} {bytes content rest : List UInt8}
    (h : readFenced hashes bytes = some (content, rest)) : rest.length < bytes.length := by
  fun_induction readFenced hashes bytes generalizing content rest with
  | case1 => simp at h
  | case2 b bytes _ =>
    simp only [Option.some.injEq, Prod.mk.injEq] at h
    rw [← h.2]
    simp only [List.length_drop, List.length_cons]
    omega
  | case3 b bytes _ ih =>
    simp only [Option.map_eq_some_iff, Prod.mk.injEq, Prod.exists] at h
    obtain ⟨inner, last, inside, _, rfl⟩ := h
    have := ih inside
    simp only [List.length_cons]
    omega

/-- Reads a character up to its closing apostrophe: one escape, or one character as it is. -/
def readCharacter : List UInt8 → Option (Char × List UInt8)
  | [] => none
  | b :: bytes =>
    if glyph b = '\\' then
      match readEscape bytes with
      | some (c, last :: rest) => if glyph last = '\x27' then some (c, rest) else none
      | _ => none
    else
      let content := (b :: bytes).takeWhile (glyph · != '\x27')
      match (ofUtf8? content).map String.toList, (b :: bytes).drop content.length with
      | some [c], _ :: rest => some (c, rest)
      | _, _ => none

theorem readCharacter_length {bytes rest : List UInt8} {c : Char}
    (h : readCharacter bytes = some (c, rest)) : rest.length < bytes.length := by
  unfold readCharacter at h
  split at h
  · simp at h
  · split at h
    · split at h
      · rename_i read
        split at h
        · simp only [Option.some.injEq, Prod.mk.injEq] at h
          have := readEscape_length read
          rw [← h.2]
          simp only [List.length_cons] at this ⊢
          omega
        · simp at h
      · simp at h
    · dsimp only at h
      split at h
      · rename_i dropped
        simp only [Option.some.injEq, Prod.mk.injEq] at h
        have := congrArg List.length dropped
        rw [← h.2]
        simp only [List.length_drop, List.length_cons] at this ⊢
        omega
      · simp at h

/-! ## Writing -/

/-- The character after the backslash where a character has a short escape. -/
def shortEscape? : Char → Option Char
  | '\x00' => some '0'
  | '\t' => some 't'
  | '\r' => some 'r'
  | '\n' => some 'n'
  | '\x27' => some '\x27'
  | '"' => some '"'
  | '\\' => some '\\'
  | _ => none

/-- A character inside a string: with its short escape, by its number if `numbered` says so, or as
    it is. -/
def escape (numbered : Char → Bool) (c : Char) : List Char :=
  match shortEscape? c with
  | some e => ['\\', e]
  | none => if numbered c then ['\\', 'u', '\x7b'] ++ hex c.toNat ++ ['\x7d'] else [c]

/-- A character between apostrophes. -/
def quoteCharacter (numbered : Char → Bool) (c : Char) : List Char :=
  '\x27' :: escape numbered c ++ ['\x27']

/-- A text between quotes. -/
def quote (numbered : Char → Bool) (s : String) : List Char :=
  '"' :: s.toList.flatMap (escape numbered) ++ ['"']

end TypeLint.Snapshot
