import TypeLint.Proofs.Text.Digit
import TypeLint.Proofs.Text.Run
import TypeLint.Text.Decimal

/-!
# Checks of digits and exponents

The checks agree with what the parts of a number look like. Digits end where the next part starts,
so taking as many as there are finds the only way to split a number.

## Main statements

- `isDigits_iff`, `isExponent_iff` — the checks
- `takeWhile_isDigit` — the digits in front of another part
-/

namespace TypeLint.Text

theorem isDigits_iff {text : List Char} : isDigits text = true ↔ IsDigits text := by
  simp [isDigits, IsDigits, isDigit_iff]

theorem isDigit_of_isDigits {digits : List Char} (hdigits : IsDigits digits) :
    ∀ c ∈ digits, c.isDigit :=
  fun c hc => isDigit_iff.2 (hdigits.2 c hc)

theorem not_isDigit_of_isDigits_cons {c : Char} {text : List Char} (hc : ¬ c.isDigit) :
    ¬ IsDigits (c :: text) :=
  fun hdigits => hc (isDigit_of_isDigits hdigits c (by simp))

/-- The check of an exponent. -/
theorem isExponent_iff {text : List Char} : isExponent text = true ↔ IsExponent text := by
  constructor
  · intro h
    simp only [isExponent] at h
    split at h
    · exact .inl rfl
    · obtain ⟨he, hmarked⟩ := Bool.and_eq_true_iff.1 h
      rw [Bool.or_eq_true, beq_iff_eq, beq_iff_eq] at he
      right
      split at hmarked
      · exact ⟨_, ['+'], _, he, .inr (.inl rfl), isDigits_iff.1 hmarked, rfl⟩
      · exact ⟨_, ['-'], _, he, .inr (.inr rfl), isDigits_iff.1 hmarked, rfl⟩
      · exact ⟨_, [], _, he, .inl rfl, isDigits_iff.1 hmarked, rfl⟩
  · rintro (rfl | ⟨e, mark, digits, he, hmark, hdigits, rfl⟩)
    · rfl
    · have hletter : (e == 'e' || e == 'E') = true := by
        rw [Bool.or_eq_true, beq_iff_eq, beq_iff_eq]
        exact he
      rcases hmark with rfl | rfl | rfl
      · change isExponent (e :: digits) = true
        rw [isExponent.eq_def]
        refine Bool.and_eq_true_iff.2 ⟨hletter, ?_⟩
        split
        · exact absurd hdigits (not_isDigit_of_isDigits_cons (by decide))
        · exact absurd hdigits (not_isDigit_of_isDigits_cons (by decide))
        · exact isDigits_iff.2 hdigits
      · exact Bool.and_eq_true_iff.2 ⟨hletter, isDigits_iff.2 hdigits⟩
      · exact Bool.and_eq_true_iff.2 ⟨hletter, isDigits_iff.2 hdigits⟩

/-- An exponent does not go on with the digits in front of it. -/
theorem head_not_isDigit_of_isExponent {text : List Char} (hexponent : IsExponent text) :
    ∀ c ∈ text.head?, ¬ c.isDigit := by
  rcases hexponent with rfl | ⟨e, mark, digits, rfl | rfl, -, -, rfl⟩ <;> simp

/-- Digits up to something that is no digit are found by taking as many as there are. -/
theorem takeWhile_isDigit {digits rest : List Char} (hdigits : IsDigits digits)
    (hrest : ∀ c ∈ rest.head?, ¬ c.isDigit) :
    (digits ++ rest).takeWhile Char.isDigit = digits ∧
      (digits ++ rest).dropWhile Char.isDigit = rest :=
  ⟨takeWhile_run (isDigit_of_isDigits hdigits) hrest,
    dropWhile_run (isDigit_of_isDigits hdigits) hrest⟩

end TypeLint.Text
