import Mathlib.Algebra.Group.Nat.Defs
import TypeLint.Tag.Lookup

/-!
# The grammar of tags

What tags and their literals look like, said without the functions that read them.

## Main definitions

- `Entry.WellFormed` — a key with a closed literal
- `Splits` — a text is a run of well-formed entries and a tail
- `StartsWithEntry` — a text has an entry at its head
- `IsParting` — a text is cut into spaces, entries and a tail without an entry at its head
- `IsUnit` — a character of a literal, as it is or escaped
- `Denotes` — a literal stands for a text
- `Writes` — a tag writes pairs of keys and values
- `strictBodyText?`, `strictLiteralText?` — reading that finds bare quotes itself

## Design notes

Two readers look at a literal. The scan of entries finds its closing quote and only knows that a
backslash takes the next character along; reading its text knows the escapes and takes up to nine
characters after a backslash. The grammar has a definition for each of them, `IsBody` and `IsUnit`.
-/

namespace TypeLint.Tag

open Text

/-! ## Entries -/

/-- A character that may stand in a key. -/
def IsKeyChar (c : Char) : Prop :=
  ' ' < c ∧ c ≠ ':' ∧ c ≠ '"' ∧ c ≠ '\x7f'

/-- A key is not empty and has only key characters. -/
def IsKey (key : List Char) : Prop :=
  key ≠ [] ∧ ∀ c ∈ key, IsKeyChar c

/-- What stands between the quotes of a closed literal: characters other than the quote and the
    backslash, and backslashes, each with the character after it. -/
inductive IsBody : List Char → Prop
  | nil : IsBody []
  | plain {c : Char} {body : List Char} :
      c ≠ '"' → c ≠ '\\' → IsBody body → IsBody (c :: body)
  | pair {c : Char} {body : List Char} : IsBody body → IsBody ('\\' :: c :: body)

/-- A literal with its closing quote. -/
def IsLiteral (text : List Char) : Prop :=
  ∃ body, IsBody body ∧ text = '"' :: body ++ ['"']

/-- An entry that can stand in a tag. -/
structure Entry.WellFormed (e : Entry) : Prop where
  key : IsKey e.key
  literal : IsLiteral e.literal

/-- The text of an entry with spaces in front. -/
def Entry.text (spaces : Nat) (e : Entry) : List Char :=
  List.replicate spaces ' ' ++ e.key ++ ':' :: e.literal

/-- The text consists of the well-formed entries, with any number of spaces before each, and the
    tail. -/
inductive Splits : List Char → List Entry → List Char → Prop
  | nil {tail : List Char} : Splits tail [] tail
  | cons {e : Entry} {es : List Entry} {text tail : List Char} (spaces : Nat) :
      e.WellFormed → Splits text es tail → Splits (e.text spaces ++ text) (e :: es) tail

/-- The text has a well-formed entry at its head. -/
def StartsWithEntry (text : List Char) : Prop :=
  ∃ spaces e rest, Entry.WellFormed e ∧ text = e.text spaces ++ rest

/-- The text of a run of entries, each behind its own number of spaces. -/
def runText (parts : List (Nat × Entry)) : List Char :=
  parts.flatMap fun (spaces, e) => e.text spaces

/-- The text consists of a run of well-formed entries, each behind its own number of spaces, and a
    tail that has no entry at its head. -/
structure IsParting (text : List Char) (parts : List (Nat × Entry)) (tail : List Char) : Prop where
  text_eq : text = runText parts ++ tail
  wellFormed : ∀ p ∈ parts, p.2.WellFormed
  ends : ¬ StartsWithEntry tail

theorem isKeyChar_iff {c : Char} : isKeyChar c = true ↔ IsKeyChar c := by
  simp [isKeyChar, IsKeyChar, and_assoc]

/-- The scan for the closing quote finds it exactly where the body before it is closed. -/
theorem closing_eq_some_iff {text body rest : List Char} :
    closing text = some (body, rest) ↔ IsBody body ∧ text = body ++ '"' :: rest := by
  constructor
  · intro h
    refine ⟨?_, closing_eq_append h⟩
    fun_induction closing text generalizing body with
    | case1 => simp at h
    | case2 text =>
      simp only [Option.some.injEq, Prod.mk.injEq] at h
      exact h.1 ▸ .nil
    | case3 c text ih =>
      simp only [Option.map_eq_some_iff, Prod.mk.injEq, Prod.exists] at h
      obtain ⟨inner, tail, found, rfl, rfl⟩ := h
      exact .pair (ih found)
    | case4 c text notQuote notPair ih =>
      simp only [Option.map_eq_some_iff, Prod.mk.injEq, Prod.exists] at h
      obtain ⟨inner, tail, found, rfl, rfl⟩ := h
      refine .plain notQuote ?_ (ih found)
      rintro rfl
      cases text with
      | nil => simp [closing] at found
      | cons d text => exact notPair d text rfl rfl
  · rintro ⟨closed, rfl⟩
    induction closed with
    | nil => simp [closing]
    | @plain c body notQuote notSlash _ ih =>
      rw [List.cons_append, closing]
      · simp [ih]
      · exact notQuote
      · rintro d text rfl
        exact absurd rfl notSlash
    | pair _ ih => simp [closing, ih]

/-! ## Literals -/

/-- The number that digits of a base stand for, most significant first. -/
def numeral (base : Nat) : List Char → Nat
  | [] => 0
  | d :: digits => digitValue d * base ^ digits.length + numeral base digits

/-- The text is `count` digits of a base that stand for the number of a character. -/
structure IsNumeral (base count : Nat) (digits : List Char) (c : Char) : Prop where
  length : digits.length = count
  digit : ∀ d ∈ digits, digitValue d < base
  value : numeral base digits = c.toNat

/-- The characters with a short escape, behind the character after the backslash. -/
def shortEscapes : List (Char × Char) :=
  [('a', '\x07'), ('b', '\x08'), ('f', '\x0c'), ('n', '\n'), ('r', '\r'), ('t', '\t'),
    ('v', '\x0b'), ('\\', '\\'), ('"', '"')]

/-- A unit of a literal's body and the character it stands for. -/
inductive IsUnit : List Char → Char → Prop
  | plain {c : Char} : c ≠ '\\' → c ≠ '\n' → IsUnit [c] c
  | short {e c : Char} : (e, c) ∈ shortEscapes → IsUnit ['\\', e] c
  | two {digits : List Char} {c : Char} :
      IsNumeral 16 2 digits c → IsUnit ('\\' :: 'x' :: digits) c
  | four {digits : List Char} {c : Char} :
      IsNumeral 16 4 digits c → IsUnit ('\\' :: 'u' :: digits) c
  | eight {digits : List Char} {c : Char} :
      IsNumeral 16 8 digits c → IsUnit ('\\' :: 'U' :: digits) c
  | octal {digits : List Char} {c : Char} :
      IsNumeral 8 3 digits c → c.toNat ≤ 0xff → IsUnit ('\\' :: digits) c

/-- The units make up the body of a literal. -/
def IsSplitting (body : List Char) (units : List (List Char × Char)) : Prop :=
  body = units.flatMap Prod.fst ∧ ∀ u ∈ units, IsUnit u.1 u.2

/-- The literal stands for the text. -/
def Denotes (literal text : List Char) : Prop :=
  ∃ body units, literal = '"' :: body ++ ['"'] ∧ IsSplitting body units ∧ text = units.map Prod.snd

/-- The text of a literal's body that has no bare quote. -/
def strictBodyText? : List Char → Option (List Char)
  | [] => some []
  | c :: text =>
    if c = '\n' ∨ c = '"' then none
    else if c = '\\' then
      match _ : readEscape text with
      | none => none
      | some (e, rest) => (strictBodyText? rest).map (e :: ·)
    else (strictBodyText? text).map (c :: ·)
termination_by body => body.length
decreasing_by
  · have := readEscape_length ‹_›
    simp only [List.length_cons]
    omega
  · simp

/-- The text of a literal that has no bare quote between its own. -/
def strictLiteralText? : List Char → Option (List Char)
  | '"' :: text => if text.getLast? = some '"' then strictBodyText? text.dropLast else none
  | _ => none

/-! ## Writing -/

/-- The literal writes the text: each character stands as it is or is escaped, and a quote is always
    escaped. -/
def Spells (literal text : List Char) : Prop :=
  ∃ body units, literal = '"' :: body ++ ['"'] ∧ IsSplitting body units ∧
    (∀ u ∈ units, u.1 ≠ ['"']) ∧ text = units.map Prod.snd

/-- The tag writes the pairs, each key with some literal that spells its value, with any number of
    spaces before, between and after them. -/
inductive Writes : List Char → List (String × String) → Prop
  | nil (spaces : Nat) : Writes (List.replicate spaces ' ') []
  | cons {key value : String} {literal text : List Char} {pairs : List (String × String)}
      (spaces : Nat) : IsKey key.toList → Spells literal value.toList → Writes text pairs →
      Writes ((Entry.mk key.toList literal).text spaces ++ text) ((key, value) :: pairs)

end TypeLint.Tag
