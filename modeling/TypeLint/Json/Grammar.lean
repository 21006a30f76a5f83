import TypeLint.Json.Value

/-!
# The grammar of JSON documents

What documents look like, said without the functions that read them. Strings, numbers and the
nesting of arrays and objects follow RFC 8259.

## Main definitions

- `IsString` — a string and its text, if it has one
- `IsNumeral` — a number
- `IsValue` — a value without blanks around it
- `IsDocument` — a value with blanks around it
-/

namespace TypeLint.Json

open Text

/-- Blanks may stand around every token. -/
def IsBlanks (text : List Char) : Prop :=
  ∀ c ∈ text, c = ' ' ∨ c = '\t' ∨ c = '\n' ∨ c = '\r'

/-! ## Strings -/

/-- The characters with a short escape, behind the character after the backslash. -/
def shortEscapes : List (Char × Char) :=
  [('"', '"'), ('\\', '\\'), ('/', '/'), ('b', '\x08'), ('f', '\x0c'), ('n', '\n'), ('r', '\r'),
    ('t', '\t')]

/-- Four hexadecimal digits and the number they stand for. -/
def IsUnitNumber (digits : List Char) (n : Nat) : Prop :=
  ∃ a b c d, digits = [a, b, c, d] ∧ (∀ x ∈ digits, digitValue x < 16) ∧
    n = ((digitValue a * 16 + digitValue b) * 16 + digitValue c) * 16 + digitValue d

/-- The spelling of one character of a string. A character beyond U+FFFF may be spelled by the two
    halves of its surrogate pair. -/
inductive IsCharacter : List Char → Char → Prop
  | plain {c : Char} : ' ' ≤ c → c ≠ '"' → c ≠ '\\' → IsCharacter [c] c
  | short {e c : Char} : (e, c) ∈ shortEscapes → IsCharacter ['\\', e] c
  | unit {digits : List Char} {c : Char} :
      IsUnitNumber digits c.toNat → IsCharacter ('\\' :: 'u' :: digits) c
  | pair {high low : List Char} {h l : Nat} {c : Char} :
      IsUnitNumber high (0xd800 + h) → IsUnitNumber low (0xdc00 + l) → h < 0x400 → l < 0x400 →
      c.toNat = 0x10000 + h * 0x400 + l →
      IsCharacter ('\\' :: 'u' :: high ++ '\\' :: 'u' :: low) c

/-- The spelling of one element of a string, which may be half of a surrogate pair. -/
inductive IsElement : List Char → Prop
  | character {text : List Char} {c : Char} : IsCharacter text c → IsElement text
  | surrogate {digits : List Char} {n : Nat} :
      IsUnitNumber digits n → 0xd800 ≤ n → n < 0xe000 → IsElement ('\\' :: 'u' :: digits)

/-- The body of a string spells the text. -/
def Spells (body : List Char) (text : List Char) : Prop :=
  ∃ parts : List (List Char × Char), body = parts.flatMap Prod.fst ∧ text = parts.map Prod.snd ∧
    ∀ p ∈ parts, IsCharacter p.1 p.2

/-- A string and its text. A string with a surrogate that belongs to no pair has none. -/
def IsString (literal : List Char) (text : Option String) : Prop :=
  ∃ body, literal = '"' :: body ++ ['"'] ∧
    (∃ parts : List (List Char), body = parts.flatten ∧ ∀ p ∈ parts, IsElement p) ∧
    ∀ s : String, text = some s ↔ Spells body s.toList

/-! ## Numbers -/

/-- A fraction, or nothing. -/
def IsFraction (text : List Char) : Prop :=
  text = [] ∨ ∃ digits, IsDigits digits ∧ text = '.' :: digits

/-- A number: a sign, a whole part that is zero or starts with another digit, a fraction and an
    exponent. The sign, the fraction and the exponent may be missing. -/
def IsNumeral (literal : List Char) : Prop :=
  ∃ sign whole fraction exponent, literal = sign ++ whole ++ fraction ++ exponent ∧
    (sign = [] ∨ sign = ['-']) ∧ IsDigits whole ∧ (whole = ['0'] ∨ whole.head? ≠ some '0') ∧
    IsFraction fraction ∧ IsExponent exponent

/-! ## Values -/

mutual

/-- The spelling of a value, without blanks around it. -/
inductive IsValue : List Char → Value → Prop
  | null : IsValue ['n', 'u', 'l', 'l'] .null
  | truth : IsValue ['t', 'r', 'u', 'e'] (.bool true)
  | falsehood : IsValue ['f', 'a', 'l', 's', 'e'] (.bool false)
  | number {literal : String} : IsNumeral literal.toList → IsValue literal.toList (.number literal)
  | string {literal : List Char} {text : Option String} :
      IsString literal text → IsValue literal (.string text)
  | emptyArray {blanks : List Char} : IsBlanks blanks → IsValue ('[' :: blanks ++ [']']) (.array [])
  | array {text : List Char} {items : List Value} :
      IsItems text items → IsValue ('[' :: text ++ [']']) (.array items)
  | emptyObject {blanks : List Char} :
      IsBlanks blanks → IsValue ('{' :: blanks ++ ['}']) (.object [])
  | object {text : List Char} {fields : List (Option String × Value)} :
      IsFields text fields → IsValue ('{' :: text ++ ['}']) (.object fields)

/-- The spelling of one item or more, with commas between them. -/
inductive IsItems : List Char → List Value → Prop
  | last {before text after : List Char} {v : Value} :
      IsBlanks before → IsValue text v → IsBlanks after → IsItems (before ++ text ++ after) [v]
  | more {before text after rest : List Char} {v : Value} {items : List Value} :
      IsBlanks before → IsValue text v → IsBlanks after → IsItems rest items →
      IsItems (before ++ text ++ after ++ ',' :: rest) (v :: items)

/-- The spelling of one field or more, with commas between them. -/
inductive IsFields : List Char → List (Option String × Value) → Prop
  | last {field : List Char} {k : Option String} {v : Value} :
      IsField field k v → IsFields field [(k, v)]
  | more {field rest : List Char} {k : Option String} {v : Value}
      {fields : List (Option String × Value)} :
      IsField field k v → IsFields rest fields → IsFields (field ++ ',' :: rest) ((k, v) :: fields)

/-- The spelling of a field with blanks around it. -/
inductive IsField : List Char → Option String → Value → Prop
  | mk {before key colon start text after : List Char} {k : Option String} {v : Value} :
      IsBlanks before → IsString key k → IsBlanks colon → IsBlanks start → IsValue text v →
      IsBlanks after → IsField (before ++ key ++ colon ++ ':' :: start ++ text ++ after) k v

end

/-- A document spells a value, with blanks around it. -/
def IsDocument (text : List Char) (v : Value) : Prop :=
  ∃ before value after, text = before ++ value ++ after ∧ IsBlanks before ∧ IsValue value v ∧
    IsBlanks after

end TypeLint.Json
