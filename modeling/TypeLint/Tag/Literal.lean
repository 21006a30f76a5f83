import TypeLint.Text.Digit

/-!
# Quoted literals in tags

The value of a tag entry is a double-quoted literal. `literalText?` gives the text that a literal
stands for. It refuses raw line feeds and unknown or incomplete escapes. A quote inside the literal
is for the scan of entries to find, so reading the text lets it pass.

## Main definitions

- `namedEscape?` — escapes of a backslash and one character
- `readEscape` — any escape, after its backslash
- `bodyText?` — the text of what stands between the quotes
- `literalText?` — the text of a literal with its quotes
-/

namespace TypeLint.Tag

open Text

/-- The character that a backslash and one character stand for. -/
def namedEscape? : Char → Option Char
  | 'a' => some '\x07'
  | 'b' => some '\x08'
  | 'f' => some '\x0c'
  | 'n' => some '\n'
  | 'r' => some '\r'
  | 't' => some '\t'
  | 'v' => some '\x0b'
  | '\\' => some '\\'
  | '"' => some '"'
  | _ => none

/-- Reads a character written as its number with exactly `count` digits. Numbers of no character are
    refused. -/
def readNumbered (base count : Nat) (text : List Char) : Option (Char × List Char) :=
  match readDigits base count 0 text with
  | some (n, rest) => (scalar? n).map (·, rest)
  | none => none

/-- Reads one escape, without its backslash: a named one, `x`, `u` or `U` with two, four or eight
    hexadecimal digits, or three octal digits of value at most `0xff`. -/
def readEscape : List Char → Option (Char × List Char)
  | [] => none
  | 'x' :: text => readNumbered 16 2 text
  | 'u' :: text => readNumbered 16 4 text
  | 'U' :: text => readNumbered 16 8 text
  | c :: text =>
    match namedEscape? c with
    | some e => some (e, text)
    | none => (readNumbered 8 3 (c :: text)).filter fun (e, _) => e.toNat ≤ 0xff

theorem readNumbered_length {base count : Nat} {text rest : List Char} {c : Char}
    (h : readNumbered base count text = some (c, rest)) : text.length = count + rest.length := by
  unfold readNumbered at h
  split at h
  · rename_i n tail read
    simp only [Option.map_eq_some_iff, Prod.mk.injEq] at h
    obtain ⟨_, _, _, rfl⟩ := h
    exact readDigits_length read
  · simp at h

theorem readEscape_length {text rest : List Char} {c : Char}
    (h : readEscape text = some (c, rest)) : rest.length < text.length := by
  unfold readEscape at h
  split at h
  · simp at h
  · have := readNumbered_length h
    simp only [List.length_cons]
    omega
  · have := readNumbered_length h
    simp only [List.length_cons]
    omega
  · have := readNumbered_length h
    simp only [List.length_cons]
    omega
  · split at h
    · simp_all
    · have := readNumbered_length (Option.filter_eq_some_iff.1 h).1
      omega

/-- The text of what stands between the quotes of a literal. -/
def bodyText? : List Char → Option (List Char)
  | [] => some []
  | c :: text =>
    if c = '\n' then none
    else if c = '\\' then
      match _ : readEscape text with
      | none => none
      | some (e, rest) => (bodyText? rest).map (e :: ·)
    else (bodyText? text).map (c :: ·)
termination_by body => body.length
decreasing_by
  · have := readEscape_length ‹_›
    simp only [List.length_cons]
    omega
  · simp

/-- The text of a literal with its surrounding quotes. -/
def literalText? : List Char → Option (List Char)
  | '"' :: text => if text.getLast? = some '"' then bodyText? text.dropLast else none
  | _ => none

end TypeLint.Tag
