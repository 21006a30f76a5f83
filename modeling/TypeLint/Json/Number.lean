import TypeLint.Text.Decimal

/-!
# Numbers in JSON

A number is a sign, a whole part without superfluous zeros, a fraction and an exponent. Declared
types hold no numbers, so it is enough to tell numbers from other text.
-/

namespace TypeLint.Json

open Text

/-- Whether a character may occur in a number. -/
def isNumberChar (c : Char) : Bool :=
  c.isDigit || c == '-' || c == '+' || c == '.' || c == 'e' || c == 'E'

/-- Whether the text is a fraction and an exponent, either of which may be missing. -/
def isFraction : List Char → Bool
  | '.' :: text =>
    isDigits (text.takeWhile Char.isDigit) && isExponent (text.dropWhile Char.isDigit)
  | text => isExponent text

/-- Whether the text is a number without a sign. Only zero itself starts with a zero. -/
def isUnsigned (text : List Char) : Bool :=
  let whole := text.takeWhile Char.isDigit
  isDigits whole && (whole.length == 1 || whole.head? != some '0') &&
    isFraction (text.dropWhile Char.isDigit)

/-- Whether the text is a number. -/
def isNumber : List Char → Bool
  | '-' :: text => isUnsigned text
  | text => isUnsigned text

end TypeLint.Json
