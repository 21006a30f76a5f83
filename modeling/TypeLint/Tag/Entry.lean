import TypeLint.Tag.Literal

/-!
# Entries of a tag

A tag is a run of entries `key:"literal"`, with any number of spaces before each. Scanning stops at
the first text that is no entry, and whatever follows is invisible.

## Main definitions

- `Entry` — a key with its literal
- `closing` — splits a text at the quote that closes a literal
- `Entry.scan` — the entry at the head of a text
- `entries` — all visible entries of a tag
-/

namespace TypeLint.Tag

/-- A key and the literal after it, quotes included. -/
structure Entry where
  key : List Char
  literal : List Char
  deriving DecidableEq, Repr

/-- The text that the literal of an entry stands for, if it is valid. -/
def Entry.value? (e : Entry) : Option (List Char) :=
  literalText? e.literal

/-- Whether a character may stand in a key: anything above the space other than the colon, the
    double quote and the delete character. -/
def isKeyChar (c : Char) : Bool :=
  ' ' < c && c != ':' && c != '"' && c != '\x7f'

/-- Splits a text at the first quote that no backslash precedes, into the body of a literal and the
    text after the quote. A backslash takes the character after it along. -/
def closing : List Char → Option (List Char × List Char)
  | [] => none
  | '"' :: text => some ([], text)
  | '\\' :: c :: text => (closing text).map fun (body, rest) => ('\\' :: c :: body, rest)
  | c :: text => (closing text).map fun (body, rest) => (c :: body, rest)

/-- The entry at the head of a text, after any spaces, and the text after it. -/
def Entry.scan (text : List Char) : Option (Entry × List Char) :=
  let text := text.dropWhile (· == ' ')
  let key := text.takeWhile isKeyChar
  match text.dropWhile isKeyChar with
  | ':' :: '"' :: text =>
    if key = [] then none
    else (closing text).map fun (body, rest) => (⟨key, '"' :: body ++ ['"']⟩, rest)
  | _ => none

/-- A body ends at the quote behind it. -/
theorem closing_eq_append {text body rest : List Char} (h : closing text = some (body, rest)) :
    text = body ++ '"' :: rest := by
  fun_induction closing text generalizing body with
  | case1 => simp at h
  | case2 text => simp_all
  | case3 c text ih =>
    simp only [Option.map_eq_some_iff, Prod.mk.injEq, Prod.exists] at h
    obtain ⟨inner, tail, split, rfl, rfl⟩ := h
    simp [ih split]
  | case4 c text _ _ ih =>
    simp only [Option.map_eq_some_iff, Prod.mk.injEq, Prod.exists] at h
    obtain ⟨inner, tail, split, rfl, rfl⟩ := h
    simp [ih split]

/-- An entry and the text after it make up the scanned text, spaces apart. -/
theorem Entry.scan_eq_append {text rest : List Char} {e : Entry}
    (h : Entry.scan text = some (e, rest)) :
    text.dropWhile (· == ' ') = e.key ++ ':' :: (e.literal ++ rest) := by
  unfold Entry.scan at h
  dsimp only at h
  split at h
  · rename_i tail tail_eq
    split at h
    · simp at h
    · simp only [Option.map_eq_some_iff, Prod.mk.injEq, Prod.exists] at h
      obtain ⟨body, after, split, rfl, rfl⟩ := h
      rw [closing_eq_append split] at tail_eq
      have whole :=
        List.takeWhile_append_dropWhile (p := isKeyChar) (l := text.dropWhile (· == ' '))
      rw [tail_eq] at whole
      simpa using whole.symm
  · simp at h

theorem Entry.scan_length {text rest : List Char} {e : Entry}
    (h : Entry.scan text = some (e, rest)) : rest.length < text.length := by
  have shorter := (List.dropWhile_suffix (l := text) (· == ' ')).length_le
  have := congrArg List.length (Entry.scan_eq_append h)
  simp only [List.length_append, List.length_cons] at this
  omega

/-- The visible entries of a tag, in order. -/
def entries (text : List Char) : List Entry :=
  match _ : Entry.scan text with
  | none => []
  | some (e, rest) => e :: entries rest
termination_by text.length
decreasing_by exact Entry.scan_length ‹_›

end TypeLint.Tag
