import TypeLint.Text.Digit

/-!
# Quoted strings in JSON

A string may name any character by its number, in two halves if the number needs more than four
digits. It is read piece by piece first, and the halves are joined afterwards.

## Main definitions

- `Piece` — a character or half of one
- `readPieces` — the pieces of a string
- `joinPieces` — the text that pieces make up
- `quote` — a text between quotes

## Design notes

The grammar lets a string name half of a character. Such a string is well formed but stands for no
text.
-/

namespace TypeLint.Json

open Text

/-- One element of a string: a character, or half of a surrogate pair given by its ten bits. -/
inductive Piece where
  | char (c : Char)
  | high (bits : Nat)
  | low (bits : Nat)
  deriving DecidableEq, Repr

/-- The piece that a four-digit escape names. -/
def Piece.ofUnit (n : Nat) : Piece :=
  if n < 0xd800 then .char (Char.ofNat n)
  else if n < 0xdc00 then .high (n - 0xd800)
  else if n < 0xe000 then .low (n - 0xdc00)
  else .char (Char.ofNat n)

/-- The text of a string's pieces. A high surrogate and a low one right after it name a character;
    alone neither of them does. -/
def joinPieces : List Piece → Option (List Char)
  | [] => some []
  | .char c :: pieces => (joinPieces pieces).map (c :: ·)
  | .high h :: .low l :: pieces =>
    (joinPieces pieces).map (Char.ofNat (0x10000 + h * 0x400 + l) :: ·)
  | _ => none

/-- The character that a backslash and one character stand for. -/
def namedEscape? : Char → Option Char
  | '"' => some '"'
  | '\\' => some '\\'
  | '/' => some '/'
  | 'b' => some '\x08'
  | 'f' => some '\x0c'
  | 'n' => some '\n'
  | 'r' => some '\r'
  | 't' => some '\t'
  | _ => none

/-- The number written with four hexadecimal digits. -/
def unit? (a b c d : Char) : Option Nat :=
  (readDigits 16 4 0 [a, b, c, d]).map Prod.fst

/-- Reads the pieces of a string up to its closing quote. Control characters have to be escaped. -/
def readPieces : List Char → Option (List Piece × List Char)
  | [] => none
  | '"' :: text => some ([], text)
  | '\\' :: 'u' :: a :: b :: c :: d :: text =>
    match unit? a b c d, readPieces text with
    | some n, some (pieces, rest) => some (.ofUnit n :: pieces, rest)
    | _, _ => none
  | '\\' :: c :: text =>
    match namedEscape? c, readPieces text with
    | some e, some (pieces, rest) => some (.char e :: pieces, rest)
    | _, _ => none
  | c :: text =>
    if c < ' ' then none
    else (readPieces text).map fun (pieces, rest) => (.char c :: pieces, rest)

theorem readPieces_length {text rest : List Char} {pieces : List Piece}
    (h : readPieces text = some (pieces, rest)) : rest.length < text.length := by
  fun_induction readPieces text generalizing pieces rest with
  | case1 => simp at h
  | case2 => simp_all
  | case3 a b c d text n tail inner read _ ih =>
    have := ih read
    simp_all only [Option.some.injEq, Prod.mk.injEq, List.length_cons]
    omega
  | case4 => simp at h
  | case5 c text _ e tail inner read _ ih =>
    have := ih read
    simp_all only [Option.some.injEq, Prod.mk.injEq, List.length_cons]
    omega
  | case6 => simp at h
  | case7 => simp at h
  | case8 c text _ _ _ _ ih =>
    simp only [Option.map_eq_some_iff, Prod.mk.injEq, Prod.exists] at h
    obtain ⟨inner, tail, read, _, rfl⟩ := h
    have := ih read
    simp only [List.length_cons]
    omega

/-! ## Writing -/

/-- The character after the backslash where a character has a short escape. -/
def shortEscape? : Char → Option Char
  | '"' => some '"'
  | '\\' => some '\\'
  | '\x08' => some 'b'
  | '\x0c' => some 'f'
  | '\n' => some 'n'
  | '\r' => some 'r'
  | '\t' => some 't'
  | _ => none

/-- A character inside a string. Only the quote, the backslash and control characters below U+0020
    are escaped. -/
def escape (c : Char) : List Char :=
  match shortEscape? c with
  | some e => ['\\', e]
  | none =>
    if c < ' ' then
      ['\\', 'u', '0', '0', Nat.digitChar (c.toNat / 16), Nat.digitChar (c.toNat % 16)]
    else [c]

/-- A text between quotes. -/
def quote (s : String) : List Char :=
  '"' :: s.toList.flatMap escape ++ ['"']

end TypeLint.Json
