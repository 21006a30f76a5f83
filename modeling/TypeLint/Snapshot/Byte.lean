/-!
# Bytes of snapshot files

A snapshot file is scanned byte by byte. All that its structure is made of is ASCII, so a byte is
looked at as the character with its code.

## Main definitions

- `glyph` — the character with the code of a byte
- `isBlank`, `isWordByte`, `isRawByte` — classes of bytes
- `skipComment` — what is after a comment
-/

namespace TypeLint.Snapshot

/-- The character with the code of a byte. Scanning only ever looks for ASCII characters. -/
def glyph (b : UInt8) : Char :=
  Char.ofUInt8 b

/-- Whether a byte is a blank: space, tab, line feed or carriage return. -/
def isBlank (b : UInt8) : Bool :=
  glyph b == ' ' || glyph b == '\t' || glyph b == '\n' || glyph b == '\r'

/-- Whether a byte may start a word. -/
def isWordStart (b : UInt8) : Bool :=
  (glyph b).isAlpha || glyph b == '_'

/-- Whether a byte may stand in a plain word. -/
def isWordByte (b : UInt8) : Bool :=
  (glyph b).isAlphanum || glyph b == '_'

/-- Whether a byte may stand in a raw word or in a number. -/
def isRawByte (b : UInt8) : Bool :=
  isWordByte b || glyph b == '.' || glyph b == '+' || glyph b == '-'

/-- ASCII bytes as text. -/
def glyphs (bytes : List UInt8) : String :=
  String.ofList (bytes.map glyph)

/-! ## Comments -/

/-- Drops a line comment up to its line feed. -/
def dropLine (bytes : List UInt8) : List UInt8 :=
  bytes.dropWhile (glyph · != '\n')

/-- Drops a block comment that is inside `depth` others, after its opening. There is no answer if it
    is not closed. -/
def dropBlock (depth : Nat) : List UInt8 → Option (List UInt8)
  | a :: b :: bytes =>
    if glyph a = '/' ∧ glyph b = '*' then dropBlock (depth + 1) bytes
    else if glyph a = '*' ∧ glyph b = '/' then
      match depth with
      | 0 => some bytes
      | outer + 1 => dropBlock outer bytes
    else dropBlock depth (b :: bytes)
  | _ => none

/-- The comment that starts with a slash. -/
def skipComment : List UInt8 → Option (List UInt8)
  | [] => none
  | b :: bytes =>
    if glyph b = '/' then some (dropLine bytes)
    else if glyph b = '*' then dropBlock 0 bytes
    else none

theorem dropBlock_length {depth : Nat} {bytes rest : List UInt8}
    (h : dropBlock depth bytes = some rest) : rest.length ≤ bytes.length := by
  fun_induction dropBlock depth bytes generalizing rest with
  | case1 depth a b bytes _ ih =>
    have := ih h
    simp only [List.length_cons]
    omega
  | case2 a b bytes =>
    simp_all only [Option.some.injEq, List.length_cons]
    omega
  | case3 a b bytes _ _ outer ih =>
    have := ih h
    simp only [List.length_cons]
    omega
  | case4 depth a b bytes _ _ ih =>
    have := ih h
    simp only [List.length_cons] at this ⊢
    omega
  | case5 => simp at h

theorem skipComment_length {bytes rest : List UInt8}
    (h : skipComment bytes = some rest) : rest.length ≤ bytes.length := by
  unfold skipComment at h
  split at h
  · simp at h
  · split at h
    · simp only [Option.some.injEq] at h
      have := (List.dropWhile_suffix (glyph · != '\n') (l := ‹List UInt8›)).length_le
      rw [← h, dropLine]
      simp only [List.length_cons]
      omega
    · split at h
      · have := dropBlock_length h
        simp only [List.length_cons]
        omega
      · simp at h

end TypeLint.Snapshot
