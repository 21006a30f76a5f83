import TypeLint.Text.Decimal
import TypeLint.Text.Digit

/-!
# Numbers in snapshots

A number is a whole number in base ten, two, eight or sixteen, a decimal number with a fraction or
an exponent, or one of the two that have a name in place of digits: infinity, and what is not a
number. Each may have a sign. Declared types hold no numbers, so it is enough to tell numbers from
other text.
-/

namespace TypeLint.Snapshot

open Text

/-- The digits of a whole number in the given base, without the underscores that may follow the
    first one. -/
def wholeDigits? (base : Nat) : List Char → Option (List Char)
  | [] => none
  | c :: text =>
    let digits := (c :: text).filter (· != '_')
    if c ≠ '_' ∧ digits.all fun d => (digit? base d).isSome then some digits else none

/-- Whether the text is a whole number in the given base, up to `limit`. -/
def isWholeIn (base limit : Nat) (text : List Char) : Bool :=
  match wholeDigits? base text with
  | some digits =>
    match readDigits base digits.length 0 digits with
    | some (n, _) => n ≤ limit
    | none => false
  | none => false

/-- Whether the text is a whole number up to `limit`, in base ten or in another one that its first
    two characters tell. -/
def isWhole (limit : Nat) : List Char → Bool
  | '0' :: 'x' :: text => isWholeIn 16 limit text
  | '0' :: 'b' :: text => isWholeIn 2 limit text
  | '0' :: 'o' :: text => isWholeIn 8 limit text
  | text => isWholeIn 10 limit text

/-- Whether the text is a decimal number without a sign. Digits may be missing on one side of the
    point. -/
def isDecimal (text : List Char) : Bool :=
  let whole := text.takeWhile Char.isDigit
  match text.dropWhile Char.isDigit with
  | '.' :: text =>
    (whole != [] || (text.takeWhile Char.isDigit) != []) && isExponent (text.dropWhile Char.isDigit)
  | text => whole != [] && isExponent text

/-- Whether the text is the name of infinity or of what is not a number. -/
def isNamed (text : List Char) : Bool :=
  text == ['i', 'n', 'f'] || text == ['N', 'a', 'N']

/-- Whether the text is a number that does not read as a word. A whole number in a base other than
    ten, or one with underscores, has to fit into a signed or unsigned word of 64 bits. A name needs
    a sign in front of it, because it is a word without one. -/
def isNumber : List Char → Bool
  | '-' :: text => isNamed text || isWhole 0x8000000000000000 text || isDecimal text
  | '+' :: text => isNamed text || isWhole 0x7fffffffffffffff text || isDecimal text
  | text => isWhole 0xffffffffffffffff text || isDecimal text

end TypeLint.Snapshot
