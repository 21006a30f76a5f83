/-!
# Digits and numbered characters

Escapes in tags, documents and snapshots name a character by its number, written with a fixed count
of digits or between braces. This module reads and writes such numbers.

## Main definitions

- `digit?` — the value of one digit
- `foldDigits` — a number continued with digits
- `readDigits` — a number written with an exact count of digits
- `scalar?` — the character with a given number
- `hex` — a number in lower-case hexadecimal, without padding
-/

namespace TypeLint.Text

/-- The value of a character as a digit. Letters of either case count on from ten; any other
    character has the value 36, which is no digit in any base. -/
def digitValue (c : Char) : Nat :=
  if '0' ≤ c ∧ c ≤ '9' then c.toNat - '0'.toNat
  else if 'a' ≤ c ∧ c ≤ 'z' then c.toNat - 'a'.toNat + 10
  else if 'A' ≤ c ∧ c ≤ 'Z' then c.toNat - 'A'.toNat + 10
  else 36

/-- The value of a digit of a base up to 36. -/
def digit? (base : Nat) (c : Char) : Option Nat :=
  if digitValue c < base then some (digitValue c) else none

/-- The number `start` continued with digits, most significant first. -/
def foldDigits (base start : Nat) (digits : List Char) : Nat :=
  digits.foldl (fun n d => n * base + digitValue d) start

@[simp] theorem foldDigits_nil (base start : Nat) : foldDigits base start [] = start := rfl

@[simp] theorem foldDigits_cons (base start : Nat) (d : Char) (digits : List Char) :
    foldDigits base start (d :: digits) =
      foldDigits base (start * base + digitValue d) digits := rfl

/-- Reads exactly `count` digits, most significant first, and continues the number `start` with
    them. Returns the number and the text after it. -/
def readDigits (base : Nat) : (count start : Nat) → List Char → Option (Nat × List Char)
  | 0, start, text => some (start, text)
  | _ + 1, _, [] => none
  | count + 1, start, c :: text =>
    match digit? base c with
    | some d => readDigits base count (start * base + d) text
    | none => none

/-- The character with the given number. Surrogates and numbers above U+10FFFF have none. -/
def scalar? (n : Nat) : Option Char :=
  if n.isValidChar then some (Char.ofNat n) else none

/-- A number in lower-case hexadecimal without leading zeros. -/
def hex (n : Nat) : List Char :=
  Nat.toDigits 16 n

theorem digit?_lt {base d : Nat} {c : Char} (h : digit? base c = some d) : d < base := by
  unfold digit? at h
  split at h
  · simp_all
  · simp at h

/-- Just the digits are taken off the text. -/
theorem readDigits_length {base count start n : Nat} {text rest : List Char}
    (h : readDigits base count start text = some (n, rest)) :
    text.length = count + rest.length := by
  induction count generalizing start text with
  | zero => simp_all [readDigits]
  | succ count ih =>
    cases text with
    | nil => simp [readDigits] at h
    | cons c text =>
      simp only [readDigits] at h
      split at h
      · have := ih h
        simp only [List.length_cons]
        omega
      · simp at h

theorem toNat_ofNat_of_isValidChar {n : Nat} (h : n.isValidChar) : (Char.ofNat n).toNat = n := by
  rw [Char.ofNat, dif_pos h]
  rfl

/-- A number is that of one character at most. -/
theorem scalar?_eq_some_iff {n : Nat} {c : Char} : scalar? n = some c ↔ c.toNat = n := by
  unfold scalar?
  constructor
  · intro h
    split at h
    · rename_i valid
      obtain rfl := Option.some.inj h
      exact toNat_ofNat_of_isValidChar valid
    · simp at h
  · rintro rfl
    have valid : c.toNat.isValidChar := c.valid
    rw [if_pos valid, Char.ofNat_toNat]

end TypeLint.Text
