import TypeLint.Json.Number
import TypeLint.Json.Quoted

/-!
# Tokens of JSON documents

A document is scanned into tokens before its structure is looked at. Blanks between tokens are
space, tab, line feed and carriage return, and nothing else may stand between them.

## Main definitions

- `Token` — the tokens of a document
- `Token.next` — the token at the head of a text
- `Token.scan` — all tokens of a text
- `Token.spelling` — the shortest way to write a token
-/

namespace TypeLint.Json

/-- The tokens of a document. Numbers are kept as they are written, and a string that names half of
    a character has no text. -/
inductive Token where
  | openBrace | closeBrace | openBracket | closeBracket | comma | colon
  | null
  | bool (value : Bool)
  | number (literal : String)
  | string (text : Option String)
  deriving DecidableEq, Repr

/-- Whether a character may stand between tokens. -/
def isBlank (c : Char) : Bool :=
  c == ' ' || c == '\t' || c == '\n' || c == '\r'

namespace Token

/-- Reads the token that starts with `c`, and returns the text after it. -/
def next (c : Char) (text : List Char) : Option (Token × List Char) :=
  match c, text with
  | '{', _ => some (openBrace, text)
  | '}', _ => some (closeBrace, text)
  | '[', _ => some (openBracket, text)
  | ']', _ => some (closeBracket, text)
  | ',', _ => some (comma, text)
  | ':', _ => some (colon, text)
  | 'n', 'u' :: 'l' :: 'l' :: rest => some (null, rest)
  | 't', 'r' :: 'u' :: 'e' :: rest => some (bool true, rest)
  | 'f', 'a' :: 'l' :: 's' :: 'e' :: rest => some (bool false, rest)
  | '"', _ =>
    (readPieces text).map fun (pieces, rest) =>
      (string ((joinPieces pieces).map String.ofList), rest)
  | _, _ =>
    let literal := c :: text.takeWhile isNumberChar
    if isNumber literal then some (number (String.ofList literal), text.dropWhile isNumberChar)
    else none

theorem next_length {c : Char} {text rest : List Char} {t : Token}
    (h : next c text = some (t, rest)) : rest.length ≤ text.length := by
  unfold next at h
  split at h
  case h_10 =>
    simp only [Option.map_eq_some_iff, Prod.mk.injEq, Prod.exists] at h
    obtain ⟨pieces, tail, read, _, rfl⟩ := h
    exact Nat.le_of_lt (readPieces_length read)
  case h_11 =>
    dsimp only at h
    split at h
    · simp only [Option.some.injEq, Prod.mk.injEq] at h
      rw [← h.2]
      exact (List.dropWhile_suffix _).length_le
    · simp at h
  case h_7 | h_8 | h_9 =>
    simp only [Option.some.injEq, Prod.mk.injEq] at h
    rw [← h.2]
    simp only [List.length_cons]
    omega
  all_goals
    simp only [Option.some.injEq, Prod.mk.injEq] at h
    exact h.2 ▸ Nat.le_refl _

/-- All tokens of a text. -/
def scan : List Char → Option (List Token)
  | [] => some []
  | c :: text =>
    if isBlank c then scan text
    else
      match _ : next c text with
      | none => none
      | some (t, rest) => (scan rest).map (t :: ·)
termination_by text => text.length
decreasing_by
  · simp
  · have := next_length ‹_›
    simp only [List.length_cons]
    omega

/-- The shortest way to write a token. A string without text is written as a lone surrogate. -/
def spelling : Token → List Char
  | openBrace => ['{']
  | closeBrace => ['}']
  | openBracket => ['[']
  | closeBracket => [']']
  | comma => [',']
  | colon => [':']
  | null => "null".toList
  | bool true => "true".toList
  | bool false => "false".toList
  | number literal => literal.toList
  | string (some s) => quote s
  | string none => ['"', '\\', 'u', 'd', '8', '0', '0', '"']

end Token

end TypeLint.Json
