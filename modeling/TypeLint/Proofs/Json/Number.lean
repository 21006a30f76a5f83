import TypeLint.Json.Grammar
import TypeLint.Proofs.Text.Decimal

/-!
# Numbers of documents

The check of numbers agrees with the grammar: a part of a number ends where the next one starts, so
taking the longest run of digits for each part finds the only way to split the text.

## Main statements

- `isNumber_iff` — the check of a number
- `isNumberChar_of_isNumeral` — what numbers are made of
-/

namespace TypeLint.Json

open Text

/-! ## Parts of a number -/

/-- The check of a fraction and an exponent. -/
theorem isFraction_iff {text : List Char} :
    isFraction text = true ↔ ∃ fraction exponent, text = fraction ++ exponent ∧
      IsFraction fraction ∧ IsExponent exponent := by
  simp only [isFraction]
  constructor
  · intro h
    split at h
    · rename_i text
      obtain ⟨hdigits, hexponent⟩ := Bool.and_eq_true_iff.1 h
      exact ⟨'.' :: text.takeWhile Char.isDigit, text.dropWhile Char.isDigit,
        by rw [List.cons_append, List.takeWhile_append_dropWhile],
        .inr ⟨_, isDigits_iff.1 hdigits, rfl⟩, isExponent_iff.1 hexponent⟩
    · exact ⟨[], _, rfl, .inl rfl, isExponent_iff.1 h⟩
  · rintro ⟨_, exponent, rfl, rfl | ⟨digits, hdigits, rfl⟩, hexponent⟩
    · split
      · rename_i text htext
        -- An exponent does not start with a point.
        rcases hexponent with rfl | ⟨e, mark, digits, rfl | rfl, -, -, rfl⟩ <;> simp at htext
      · exact isExponent_iff.2 hexponent
    · obtain ⟨htake, hdrop⟩ :=
        takeWhile_isDigit hdigits (head_not_isDigit_of_isExponent hexponent)
      simp only [List.cons_append, htake, hdrop, Bool.and_eq_true]
      exact ⟨isDigits_iff.2 hdigits, isExponent_iff.2 hexponent⟩

/-- A number without a sign. -/
def IsUnsigned (text : List Char) : Prop :=
  ∃ whole fraction exponent, text = whole ++ (fraction ++ exponent) ∧ IsDigits whole ∧
    (whole = ['0'] ∨ whole.head? ≠ some '0') ∧ IsFraction fraction ∧ IsExponent exponent

theorem head_not_isDigit_of_isFraction {fraction exponent : List Char}
    (hfraction : IsFraction fraction) (hexponent : IsExponent exponent) :
    ∀ c ∈ (fraction ++ exponent).head?, ¬ c.isDigit := by
  rcases hfraction with rfl | ⟨digits, -, rfl⟩
  · exact head_not_isDigit_of_isExponent hexponent
  · simp

/-- Only zero itself starts with a zero. -/
theorem one_or_head_iff {whole : List Char} :
    (whole.length == 1 || whole.head? != some '0') = true ↔
      whole = ['0'] ∨ whole.head? ≠ some '0' := by
  rw [Bool.or_eq_true, beq_iff_eq, bne_iff_ne, List.length_eq_one_iff]
  constructor
  · rintro (⟨c, rfl⟩ | hhead)
    · by_cases hc : c = '0'
      · exact .inl (hc ▸ rfl)
      · exact .inr (by simpa using hc)
    · exact .inr hhead
  · rintro (rfl | hhead)
    · exact .inl ⟨'0', rfl⟩
    · exact .inr hhead

/-- The check of a number without a sign. -/
theorem isUnsigned_iff {text : List Char} : isUnsigned text = true ↔ IsUnsigned text := by
  simp only [isUnsigned, Bool.and_eq_true, isDigits_iff, isFraction_iff]
  constructor
  · intro h
    obtain ⟨⟨hwhole, hzero⟩, fraction, exponent, hrest, hfraction, hexponent⟩ := h
    refine ⟨_, fraction, exponent, ?_, hwhole, one_or_head_iff.1 hzero, hfraction,
      hexponent⟩
    rw [← hrest, List.takeWhile_append_dropWhile]
  · rintro ⟨whole, fraction, exponent, rfl, hwhole, hzero, hfraction, hexponent⟩
    obtain ⟨htake, hdrop⟩ :=
      takeWhile_isDigit hwhole (head_not_isDigit_of_isFraction hfraction hexponent)
    rw [htake, hdrop]
    exact ⟨⟨hwhole, one_or_head_iff.2 hzero⟩, fraction, exponent, rfl, hfraction, hexponent⟩

/-- A text is a number for the check exactly when it is one for the grammar. -/
theorem isNumber_iff {literal : List Char} : isNumber literal = true ↔ IsNumeral literal := by
  have hnumeral : IsNumeral literal ↔
      ∃ sign text, literal = sign ++ text ∧ (sign = [] ∨ sign = ['-']) ∧ IsUnsigned text := by
    constructor
    · intro h
      obtain ⟨sign, whole, fraction, exponent, rfl, hsign, hwhole, hzero, hfraction, hexponent⟩ := h
      exact ⟨sign, _, by simp, hsign, whole, fraction, exponent, rfl, hwhole, hzero, hfraction,
        hexponent⟩
    · rintro ⟨sign, _, rfl, hsign, whole, fraction, exponent, rfl, hwhole, hzero, hfraction,
        hexponent⟩
      exact ⟨sign, whole, fraction, exponent, by simp, hsign, hwhole, hzero, hfraction, hexponent⟩
  rw [hnumeral]
  simp only [isNumber]
  constructor
  · intro h
    split at h
    · exact ⟨['-'], _, rfl, .inr rfl, isUnsigned_iff.1 h⟩
    · exact ⟨[], _, rfl, .inl rfl, isUnsigned_iff.1 h⟩
  · rintro ⟨sign, text, rfl, rfl | rfl, hunsigned⟩
    · split
      · -- A number without a sign starts with a digit.
        rename_i text htext
        obtain ⟨whole, _, _, rfl, hwhole, -⟩ := hunsigned
        obtain ⟨c, whole, rfl⟩ := List.exists_cons_of_ne_nil hwhole.1
        obtain rfl : c = '-' := (List.cons.inj htext).1
        exact absurd hwhole (not_isDigit_of_isDigits_cons (by decide))
      · exact isUnsigned_iff.2 hunsigned
    · exact isUnsigned_iff.2 hunsigned

/-! ## Characters -/

theorem isNumberChar_of_isDigits {digits : List Char} (hdigits : IsDigits digits) :
    ∀ c ∈ digits, isNumberChar c := by
  intro c hc
  have hdigit := isDigit_of_isDigits hdigits c hc
  simp [isNumberChar, hdigit]

/-- A number is a run of characters of numbers. -/
theorem isNumberChar_of_isNumeral {literal : List Char} (hnumeral : IsNumeral literal) :
    ∀ c ∈ literal, isNumberChar c := by
  obtain ⟨sign, whole, fraction, exponent, rfl, hsign, hwhole, -, hfraction, hexponent⟩ := hnumeral
  have hsigned : ∀ c ∈ sign, isNumberChar c := by
    rcases hsign with rfl | rfl <;> simp [isNumberChar]
  have hpoint : ∀ c ∈ fraction, isNumberChar c := by
    rcases hfraction with rfl | ⟨digits, hdigits, rfl⟩
    · simp
    · exact List.forall_mem_cons.2 ⟨by decide, isNumberChar_of_isDigits hdigits⟩
  have hpower : ∀ c ∈ exponent, isNumberChar c := by
    rcases hexponent with rfl | ⟨e, mark, digits, he, hmark, hdigits, rfl⟩
    · simp
    · have hletter : isNumberChar e := by rcases he with rfl | rfl <;> decide
      have hmarked : ∀ c ∈ mark, isNumberChar c := by
        rcases hmark with rfl | rfl | rfl <;> simp [isNumberChar]
      exact List.forall_mem_cons.2 ⟨hletter,
        List.forall_mem_append.2 ⟨hmarked, isNumberChar_of_isDigits hdigits⟩⟩
  simp only [List.forall_mem_append]
  exact ⟨⟨⟨hsigned, isNumberChar_of_isDigits hwhole⟩, hpoint⟩, hpower⟩

/-- A number starts with its sign or a digit. -/
theorem head_of_isNumeral {literal : List Char} (hnumeral : IsNumeral literal) :
    ∃ c rest, literal = c :: rest ∧ (c = '-' ∨ c.isDigit) := by
  obtain ⟨sign, whole, fraction, exponent, rfl, hsign, hwhole, -⟩ := hnumeral
  obtain ⟨c, whole, rfl⟩ := List.exists_cons_of_ne_nil hwhole.1
  rcases hsign with rfl | rfl
  · exact ⟨c, whole ++ fraction ++ exponent, rfl, .inr (isDigit_of_isDigits hwhole c (by simp))⟩
  · exact ⟨'-', c :: whole ++ fraction ++ exponent, rfl, .inl rfl⟩

end TypeLint.Json
