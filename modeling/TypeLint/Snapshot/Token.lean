import TypeLint.Snapshot.Number
import TypeLint.Snapshot.Quoted

/-!
# Tokens of snapshots

A snapshot file is scanned into tokens. Blanks, line comments and nested block comments separate
tokens and mean nothing. Only the text of a string has to be UTF-8, so a comment may hold any bytes.

## Main definitions

- `Token` — the tokens of a snapshot
- `Token.next` — the lexeme at the head of the bytes: a token, or one that means nothing
- `Token.scan` — all tokens of a file
-/

namespace TypeLint.Snapshot

open Text

/-- The tokens of a snapshot. The unit is a pair of parentheses with nothing between them, not even
    a blank. A word is raw when it is written with the marker `r#`, which keeps it from being taken
    for anything but a name. Numbers are kept as they are written. -/
inductive Token where
  | openRound | closeRound | openSquare | closeSquare | openCurly | closeCurly
  | unit | comma | colon | hash | bang
  | word (name : String) (raw : Bool)
  | number (literal : String)
  | char (value : Char)
  | text (value : String)
  deriving DecidableEq, Repr

/-- The token of a string with the given bytes, if they are UTF-8. -/
def textToken (read : List UInt8 × List UInt8) : Option (Token × List UInt8) :=
  (ofUtf8? read.1).map fun s => (.text s, read.2)

namespace Token

/-- The word or raw string that starts with the letter `r`. -/
def nextAfterR (bytes : List UInt8) : Option (Token × List UInt8) :=
  let hashes := bytes.takeWhile (glyph · == '#')
  match hashes, bytes.drop hashes.length with
  | [_], b :: rest =>
    if isRawByte b then
      some (word (glyphs (b :: rest.takeWhile isRawByte)) true, rest.dropWhile isRawByte)
    else if glyph b = '"' then (readFenced 1 rest).bind textToken
    else none
  | _, b :: rest => if glyph b = '"' then (readFenced hashes.length rest).bind textToken else none
  | _, [] => none

/-- The parenthesis or unit that starts with an opening parenthesis. -/
def nextRound : List UInt8 → Token × List UInt8
  | [] => (openRound, [])
  | b :: bytes => if glyph b = ')' then (unit, bytes) else (openRound, b :: bytes)

/-- The plain word that starts with the byte `b`. -/
def nextWord (b : UInt8) (bytes : List UInt8) : Token × List UInt8 :=
  (word (glyphs (b :: bytes.takeWhile isWordByte)) false, bytes.dropWhile isWordByte)

/-- The number that starts with the byte `b`. -/
def nextNumber (b : UInt8) (bytes : List UInt8) : Option (Token × List UInt8) :=
  let run := b :: bytes.takeWhile isRawByte
  if isNumber (run.map glyph) then some (number (glyphs run), bytes.dropWhile isRawByte) else none

theorem nextAfterR_length {bytes rest : List UInt8} {t : Token}
    (h : nextAfterR bytes = some (t, rest)) : rest.length ≤ bytes.length := by
  have fenced {n : Nat} {tail : List UInt8} (shorter : tail.length ≤ bytes.length)
      (h : (readFenced n tail).bind textToken = some (t, rest)) : rest.length ≤ bytes.length := by
    simp only [Option.bind_eq_some_iff, textToken, Option.map_eq_some_iff, Prod.mk.injEq] at h
    obtain ⟨_, inside, _, _, _, rfl⟩ := h
    have := readFenced_length inside
    omega
  have dropped {b : UInt8} {tail : List UInt8}
      (split : bytes.drop (bytes.takeWhile (glyph · == '#')).length = b :: tail) :
      tail.length ≤ bytes.length := by
    have := congrArg List.length split
    simp only [List.length_drop, List.length_cons] at this
    omega
  unfold nextAfterR at h
  dsimp only at h
  split at h
  · rename_i split
    have shorter := dropped split
    split at h
    · simp only [Option.some.injEq, Prod.mk.injEq] at h
      rw [← h.2]
      exact Nat.le_trans (List.dropWhile_suffix _).length_le shorter
    · split at h
      · exact fenced shorter h
      · simp at h
  · rename_i split _
    split at h
    · exact fenced (dropped split) h
    · simp at h
  · simp at h

theorem nextRound_length (bytes : List UInt8) : (nextRound bytes).2.length ≤ bytes.length := by
  unfold nextRound
  split
  · exact Nat.le_refl _
  · split
    · simp
    · exact Nat.le_refl _

theorem nextWord_length (b : UInt8) (bytes : List UInt8) :
    (nextWord b bytes).2.length ≤ bytes.length :=
  (List.dropWhile_suffix _).length_le

theorem nextNumber_length {b : UInt8} {bytes rest : List UInt8} {t : Token}
    (h : nextNumber b bytes = some (t, rest)) : rest.length ≤ bytes.length := by
  unfold nextNumber at h
  dsimp only at h
  split at h
  · simp only [Option.some.injEq, Prod.mk.injEq] at h
    exact h.2 ▸ (List.dropWhile_suffix _).length_le
  · simp at h

/-- The token that starts with the byte `b` and is no mark of punctuation. -/
def nextRun (b : UInt8) (bytes : List UInt8) : Option (Token × List UInt8) :=
  if glyph b = 'r' ∧ (bytes.head?.map glyph = some '"' ∨ bytes.head?.map glyph = some '#') then
    nextAfterR bytes
  else if isWordStart b then some (nextWord b bytes)
  else nextNumber b bytes

theorem nextRun_length {b : UInt8} {bytes rest : List UInt8} {t : Token}
    (h : nextRun b bytes = some (t, rest)) : rest.length ≤ bytes.length := by
  unfold nextRun at h
  split at h
  · exact nextAfterR_length h
  · split at h
    · have := nextWord_length b bytes
      rw [Option.some.inj h] at this
      exact this
    · exact nextNumber_length h

/-- The lexeme that starts with the byte `b`, and the bytes after it. Blanks and comments are
    lexemes without a token. -/
def next (b : UInt8) (bytes : List UInt8) : Option (Option Token × List UInt8) :=
  if isBlank b then some (none, bytes)
  else
    match glyph b with
    | '/' => (skipComment bytes).map (none, ·)
    | '(' => some (some (nextRound bytes).1, (nextRound bytes).2)
    | ')' => some (closeRound, bytes)
    | '[' => some (openSquare, bytes)
    | ']' => some (closeSquare, bytes)
    | '\x7b' => some (openCurly, bytes)
    | '\x7d' => some (closeCurly, bytes)
    | ',' => some (comma, bytes)
    | ':' => some (colon, bytes)
    | '#' => some (hash, bytes)
    | '!' => some (bang, bytes)
    | '"' => ((readQuoted bytes).bind textToken).map fun (t, rest) => (some t, rest)
    | '\x27' => (readCharacter bytes).map fun (c, rest) => (some (char c), rest)
    | _ => (nextRun b bytes).map fun (t, rest) => (some t, rest)

theorem next_length {b : UInt8} {bytes rest : List UInt8} {t : Option Token}
    (h : next b bytes = some (t, rest)) : rest.length ≤ bytes.length := by
  unfold next at h
  split at h
  · simp only [Option.some.injEq, Prod.mk.injEq] at h
    exact h.2 ▸ Nat.le_refl _
  · split at h
    case h_1 =>
      simp only [Option.map_eq_some_iff, Prod.mk.injEq] at h
      obtain ⟨_, skipped, _, rfl⟩ := h
      exact skipComment_length skipped
    case h_2 =>
      simp only [Option.some.injEq, Prod.mk.injEq] at h
      exact h.2 ▸ nextRound_length bytes
    case h_12 =>
      simp only [Option.map_eq_some_iff, Option.bind_eq_some_iff, textToken, Prod.mk.injEq,
        Prod.exists] at h
      obtain ⟨_, _, ⟨_, _, inside, _, _, _, rfl⟩, _, rfl⟩ := h
      exact Nat.le_of_lt (readQuoted_length inside)
    case h_13 =>
      simp only [Option.map_eq_some_iff, Prod.mk.injEq, Prod.exists] at h
      obtain ⟨_, _, read, _, rfl⟩ := h
      exact Nat.le_of_lt (readCharacter_length read)
    case h_14 =>
      simp only [Option.map_eq_some_iff, Prod.mk.injEq, Prod.exists] at h
      obtain ⟨_, _, read, _, rfl⟩ := h
      exact nextRun_length read
    all_goals
      simp only [Option.some.injEq, Prod.mk.injEq] at h
      exact h.2 ▸ Nat.le_refl _

/-- All tokens of a file. -/
def scan : List UInt8 → Option (List Token)
  | [] => some []
  | b :: bytes =>
    match _ : next b bytes with
    | none => none
    | some (none, rest) => scan rest
    | some (some t, rest) => (scan rest).map (t :: ·)
termination_by bytes => bytes.length
decreasing_by
  all_goals
    have := next_length ‹_›
    simp only [List.length_cons]
    omega

end Token

end TypeLint.Snapshot
