/-!
# Parts of decimal numbers

Numbers in documents and in snapshots are made of the same digits and exponents. Each part has a
check that a scanner runs, and a description that grammars use.

## Main definitions

- `isDigits`, `isExponent` — checks of a part
- `IsDigits`, `IsExponent` — what a part looks like
-/

namespace TypeLint.Text

/-- Whether the text is one digit or more. -/
def isDigits (text : List Char) : Bool :=
  text != [] && text.all Char.isDigit

/-- Whether the text is an exponent, or nothing. -/
def isExponent : List Char → Bool
  | [] => true
  | e :: text =>
    (e == 'e' || e == 'E') &&
      match text with
      | '+' :: digits => isDigits digits
      | '-' :: digits => isDigits digits
      | digits => isDigits digits

/-- One digit or more. -/
def IsDigits (text : List Char) : Prop :=
  text ≠ [] ∧ ∀ c ∈ text, '0' ≤ c ∧ c ≤ '9'

/-- An exponent with or without a sign, or nothing. -/
def IsExponent (text : List Char) : Prop :=
  text = [] ∨ ∃ e mark digits, (e = 'e' ∨ e = 'E') ∧
    (mark = [] ∨ mark = ['+'] ∨ mark = ['-']) ∧ IsDigits digits ∧ text = e :: mark ++ digits

end TypeLint.Text
