import TypeLint.Text.Digit

/-!
# Numbers written with digits

Reading an exact count of digits takes them off the front of a text and leaves what follows. The
number that is read is the value of the digits, most significant first.

## Main statements

- `readDigits_eq_some_iff` — what is read with an exact count of digits
- `hex_spec` — the digits of a hexadecimal number stand for it
-/

namespace TypeLint.Text

/-- A digit of a base is read as its value. -/
theorem digit?_eq_some_iff {base n : Nat} {d : Char} :
    digit? base d = some n ↔ digitValue d < base ∧ digitValue d = n := by
  simp only [digit?]
  split
  · rename_i h
    simp [h]
  · rename_i h
    simp [h]

/-- A character is a digit of the bases above its value. -/
theorem isSome_digit?_iff {base : Nat} {d : Char} :
    (digit? base d).isSome ↔ digitValue d < base := by
  simp only [digit?]
  split <;> simp_all

/-- Reading `count` digits succeeds exactly on texts that start with that many digits. -/
theorem readDigits_eq_some_iff {base count start n : Nat} {text rest : List Char} :
    readDigits base count start text = some (n, rest) ↔
      ∃ digits, text = digits ++ rest ∧ digits.length = count ∧
        (∀ d ∈ digits, digitValue d < base) ∧ n = foldDigits base start digits := by
  induction count generalizing start text with
  | zero =>
    constructor
    · intro h
      simp only [readDigits, Option.some.injEq, Prod.mk.injEq] at h
      exact ⟨[], by simp [h.2], rfl, by simp, h.1.symm⟩
    · intro h
      obtain ⟨digits, rfl, hlen, -, rfl⟩ := h
      obtain rfl := List.length_eq_zero_iff.1 hlen
      rfl
  | succ count ih =>
    cases text with
    | nil =>
      simp only [readDigits, reduceCtorEq, false_iff]
      rintro ⟨digits, htext, hlen, -⟩
      obtain rfl := (List.append_eq_nil_iff.1 htext.symm).1
      simp at hlen
    | cons c text =>
      simp only [readDigits]
      constructor
      · intro h
        split at h
        · rename_i d hd
          obtain ⟨hlt, rfl⟩ := digit?_eq_some_iff.1 hd
          obtain ⟨digits, rfl, rfl, hdigits, rfl⟩ := ih.1 h
          exact ⟨c :: digits, rfl, rfl, List.forall_mem_cons.2 ⟨hlt, hdigits⟩, rfl⟩
        · simp at h
      · intro h
        obtain ⟨digits, htext, hlen, hdigits, rfl⟩ := h
        cases digits with
        | nil => simp at hlen
        | cons d digits =>
          obtain ⟨rfl, rfl⟩ := List.cons.inj htext
          obtain ⟨hlt, hdigits⟩ := List.forall_mem_cons.1 hdigits
          rw [digit?_eq_some_iff.2 ⟨hlt, rfl⟩]
          exact ih.2 ⟨digits, rfl, Nat.succ.inj hlen, hdigits, rfl⟩

/-- Digits are read off the front of any text. -/
theorem readDigits_append {base : Nat} {digits : List Char}
    (hdigits : ∀ d ∈ digits, digitValue d < base) (start : Nat) (rest : List Char) :
    readDigits base digits.length start (digits ++ rest) =
      some (foldDigits base start digits, rest) :=
  readDigits_eq_some_iff.2 ⟨digits, rfl, rfl, hdigits, rfl⟩

/-! ## ASCII -/

theorem isDigit_iff {c : Char} : c.isDigit ↔ '0' ≤ c ∧ c ≤ '9' := by
  have hform : c.isDigit = (decide ('0' ≤ c) && decide (c ≤ '9')) := rfl
  simp [hform]

theorem isAlpha_iff {c : Char} :
    c.isAlpha ↔ ('A' ≤ c ∧ c ≤ 'Z') ∨ ('a' ≤ c ∧ c ≤ 'z') := by
  have hform : c.isAlpha = (decide ('A' ≤ c ∧ c ≤ 'Z') ||
      decide ('a' ≤ c) && decide (c ≤ 'z')) := rfl
  simp [hform]

theorem isAlphanum_iff {c : Char} : c.isAlphanum ↔ c.isAlpha ∨ c.isDigit := by
  have hform : c.isAlphanum = (c.isAlpha || c.isDigit) := rfl
  simp [hform]

theorem toNat_lt_of_le {a c : Char} (ha : a.toNat < 128) (hc : c ≤ a) : c.toNat < 128 :=
  Nat.lt_of_le_of_lt (UInt32.le_iff_toNat_le.1 hc) ha

/-- Letters and digits are ASCII. -/
theorem toNat_lt_of_isAlphanum {c : Char} (h : c.isAlphanum) : c.toNat < 128 := by
  rw [isAlphanum_iff, isAlpha_iff, isDigit_iff] at h
  rcases h with (h | h) | h <;> exact toNat_lt_of_le (by decide) h.2

/-- The digits of all bases are ASCII letters and digits. -/
theorem isAlphanum_of_digitValue_lt {d : Char} (h : digitValue d < 36) : d.isAlphanum := by
  rw [isAlphanum_iff, isAlpha_iff, isDigit_iff]
  simp only [digitValue] at h
  split at h
  · rename_i hd
    exact .inr hd
  · split at h
    · rename_i hd
      exact .inl (.inr hd)
    · split at h
      · rename_i hd
        exact .inl (.inl hd)
      · omega

theorem isDigit_of_digitValue_lt {d : Char} (h : digitValue d < 10) : d.isDigit := by
  simp only [digitValue] at h
  split at h
  · rename_i hd
    exact isDigit_iff.2 hd
  · split at h
    · omega
    · split at h <;> omega

theorem toNat_lt_of_digitValue_lt {d : Char} (h : digitValue d < 36) : d.toNat < 128 :=
  toNat_lt_of_isAlphanum (isAlphanum_of_digitValue_lt h)

/-! ## Hexadecimal -/

/-- A number can be continued in two steps. -/
theorem foldDigits_append (base start : Nat) (xs ys : List Char) :
    foldDigits base start (xs ++ ys) = foldDigits base (foldDigits base start xs) ys :=
  List.foldl_append

theorem digitValue_digitChar {d : Nat} (hd : d < 16) : digitValue (Nat.digitChar d) = d := by
  have all : ∀ d < 16, digitValue (Nat.digitChar d) = d := by decide
  exact all d hd

/-- The hexadecimal form of a number consists of digits that stand for it. -/
theorem hex_spec (n : Nat) :
    (∀ d ∈ hex n, digitValue d < 16) ∧ foldDigits 16 0 (hex n) = n := by
  induction n using Nat.strongRecOn with
  | ind n ih =>
    by_cases hn : n < 16
    · rw [hex, Nat.toDigits_of_lt_base hn]
      have hd := digitValue_digitChar hn
      refine ⟨?_, by simp [hd]⟩
      intro d hmem
      rw [List.mem_singleton.1 hmem, hd]
      exact hn
    · have hlast := digitValue_digitChar (Nat.mod_lt n (show 16 > 0 by decide))
      obtain ⟨hdigits, hvalue⟩ := ih (n / 16) (by omega)
      rw [hex, Nat.toDigits_of_base_le (by decide) (by omega)]
      constructor
      · intro d hmem
        rcases List.mem_append.1 hmem with hmem | hmem
        · exact hdigits d hmem
        · rw [List.mem_singleton.1 hmem, hlast]
          omega
      · change foldDigits 16 0 (hex (n / 16) ++ _) = n
        rw [foldDigits_append, hvalue, foldDigits_cons, foldDigits_nil, hlast]
        omega

/-- The number of a character has at most six hexadecimal digits. -/
theorem length_hex_toNat_le (c : Char) : (hex c.toNat).length ≤ 6 := by
  refine (Nat.length_toDigits_le_iff (by decide) (by decide)).2 ?_
  have hc : c.toNat < 0x110000 := by
    rcases c.valid with h | h
    · exact Nat.lt_trans h (by decide)
    · exact h.2
  omega

end TypeLint.Text
