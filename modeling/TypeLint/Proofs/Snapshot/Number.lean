import Mathlib.Data.List.TakeWhile
import TypeLint.Proofs.Text.Decimal
import TypeLint.Snapshot.Grammar

/-!
# Numbers of snapshots

The check of numbers agrees with the grammar. A number has no character that could not stand in a
raw word, and it does not start like a plain word. Scanning relies on both to take a number for one
token.

## Main statements

- `isNumber_iff` — the check of a number
- `looksNumeric_of_isNumeral` — what numbers are made of
-/

namespace TypeLint.Snapshot

open Text

/-! ## Whole numbers -/

/-- No base has an underscore among its digits. -/
theorem ne_underscore_of_digitValue_lt {base : Nat} {c : Char} (hbase : base ≤ 36)
    (hc : digitValue c < base) : c ≠ '_' := by
  rintro rfl
  exact absurd hc (Nat.not_lt.2 hbase)

/-- What is left without the underscores are digits. -/
theorem forall_filter_iff {base : Nat} {text : List Char} :
    (∀ c ∈ text.filter (· != '_'), digitValue c < base) ↔
      ∀ c ∈ text, c = '_' ∨ digitValue c < base := by
  simp only [List.mem_filter, bne_iff_ne, and_imp, or_iff_not_imp_left]

/-- The digits of a whole number are all its characters but underscores, and its first character is
    one of them. -/
theorem wholeDigits?_eq_some_iff {base : Nat} (hbase : base ≤ 36) {text digits : List Char} :
    wholeDigits? base text = some digits ↔
      ∃ d rest, text = d :: rest ∧ digitValue d < base ∧
        (∀ c ∈ rest, c = '_' ∨ digitValue c < base) ∧
        digits = d :: rest.filter (· != '_') := by
  cases text with
  | nil => simp [wholeDigits?]
  | cons d rest =>
    have hfilter (hd : d ≠ '_') :
        (d :: rest).filter (· != '_') = d :: rest.filter (· != '_') :=
      List.filter_cons_of_pos (bne_iff_ne.2 hd)
    have hall : (d ≠ '_' ∧ ((d :: rest).filter (· != '_')).all fun c => (digit? base c).isSome) ↔
        digitValue d < base ∧ ∀ c ∈ rest, c = '_' ∨ digitValue c < base := by
      simp only [List.all_eq_true, isSome_digit?_iff, ← forall_filter_iff]
      constructor
      · rintro ⟨hd, hdigits⟩
        rwa [hfilter hd, List.forall_mem_cons] at hdigits
      · rintro ⟨hd, hrest⟩
        have hne := ne_underscore_of_digitValue_lt hbase hd
        refine ⟨hne, ?_⟩
        rw [hfilter hne]
        exact List.forall_mem_cons.2 ⟨hd, hrest⟩
    simp only [wholeDigits?]
    constructor
    · intro h
      split at h
      · rename_i hand
        obtain ⟨hd, hrest⟩ := hall.1 hand
        exact ⟨d, rest, rfl, hd, hrest, (hfilter hand.1 ▸ Option.some.inj h).symm⟩
      · simp at h
    · intro h
      obtain ⟨_, _, heq, hd, hrest, rfl⟩ := h
      obtain ⟨rfl, rfl⟩ := List.cons.inj heq
      rw [if_pos (hall.2 ⟨hd, hrest⟩), hfilter (hall.2 ⟨hd, hrest⟩).1]

/-- The check of a whole number in one base. -/
theorem isWholeIn_iff {base : Nat} (hbase : base ≤ 36) {limit : Nat} {text : List Char} :
    isWholeIn base limit text = true ↔ ∃ n, SpellsDigits base text n ∧ n ≤ limit := by
  have hread {d : Char} {rest : List Char} (hd : digitValue d < base)
      (hrest : ∀ c ∈ rest, c = '_' ∨ digitValue c < base) :
      readDigits base (d :: rest.filter (· != '_')).length 0 (d :: rest.filter (· != '_')) =
        some (foldDigits base 0 (d :: rest.filter (· != '_')), []) :=
    readDigits_eq_some_iff.2 ⟨_, (List.append_nil _).symm, rfl,
      List.forall_mem_cons.2 ⟨hd, forall_filter_iff.2 hrest⟩, rfl⟩
  simp only [isWholeIn]
  constructor
  · intro h
    split at h
    · rename_i digits hdigits
      obtain ⟨d, rest, rfl, hd, hrest, rfl⟩ := (wholeDigits?_eq_some_iff hbase).1 hdigits
      rw [hread hd hrest] at h
      exact ⟨_, ⟨d, rest, rfl, hd, hrest, rfl⟩, of_decide_eq_true h⟩
    · simp at h
  · rintro ⟨_, ⟨d, rest, rfl, hd, hrest, rfl⟩, hle⟩
    rw [(wholeDigits?_eq_some_iff hbase).2 ⟨d, rest, rfl, hd, hrest, rfl⟩]
    dsimp only
    rw [hread hd hrest]
    exact decide_eq_true hle

/-- The letter of another base is no digit in base ten. -/
theorem not_spellsDigits_ten {b c : Char} {text : List Char} {n : Nat} (hc : c ≠ '_')
    (hbase : ¬ digitValue c < 10) : ¬ SpellsDigits 10 (b :: c :: text) n := by
  rintro ⟨d, rest, heq, -, hrest, -⟩
  obtain ⟨-, rfl⟩ := List.cons.inj heq
  exact (hrest c (by simp)).elim hc hbase

/-- The check of a whole number up to a limit. -/
theorem isWhole_iff {limit : Nat} {text : List Char} :
    isWhole limit text = true ↔ ∃ n, SpellsWhole text n ∧ n ≤ limit := by
  rw [isWhole.eq_def]
  split
  · rw [isWholeIn_iff (by decide)]
    refine exists_congr fun n => and_congr_left fun _ => ⟨.sixteen, fun h => ?_⟩
    cases h with
    | ten h => exact absurd h (not_spellsDigits_ten (by decide) (by decide))
    | sixteen h => exact h
  · rw [isWholeIn_iff (by decide)]
    refine exists_congr fun n => and_congr_left fun _ => ⟨.two, fun h => ?_⟩
    cases h with
    | ten h => exact absurd h (not_spellsDigits_ten (by decide) (by decide))
    | two h => exact h
  · rw [isWholeIn_iff (by decide)]
    refine exists_congr fun n => and_congr_left fun _ => ⟨.eight, fun h => ?_⟩
    cases h with
    | ten h => exact absurd h (not_spellsDigits_ten (by decide) (by decide))
    | eight h => exact h
  · rename_i hsixteen htwo height
    rw [isWholeIn_iff (by decide)]
    refine exists_congr fun n => and_congr_left fun _ => ⟨.ten, fun h => ?_⟩
    cases h with
    | ten h => exact h
    | sixteen => exact absurd rfl (hsixteen _)
    | two => exact absurd rfl (htwo _)
    | eight => exact absurd rfl (height _)

/-! ## Decimal numbers -/

theorem isDigits_takeWhile {text : List Char} (hne : text.takeWhile Char.isDigit ≠ []) :
    IsDigits (text.takeWhile Char.isDigit) :=
  ⟨hne, fun _ hc => isDigit_iff.1 (List.mem_takeWhile_imp hc)⟩

/-- A decimal number without a point passes the check. -/
theorem isDecimal_of_isDigits {whole exponent : List Char} (hwhole : IsDigits whole)
    (hexponent : IsExponent exponent) : isDecimal (whole ++ exponent) = true := by
  obtain ⟨htake, hdrop⟩ := takeWhile_isDigit hwhole (head_not_isDigit_of_isExponent hexponent)
  simp only [isDecimal, htake, hdrop]
  split
  · -- An exponent does not start with a point.
    rcases hexponent with hnil | ⟨e, mark, digits, he, -, -, heq⟩
    · simp at hnil
    · obtain rfl : '.' = e := (List.cons.inj heq).1
      simp at he
  · exact Bool.and_eq_true_iff.2 ⟨bne_iff_ne.2 hwhole.1, isExponent_iff.2 hexponent⟩

/-- A decimal number with a point passes the check. -/
theorem isDecimal_of_point {whole digits exponent : List Char}
    (hdigits : IsDigits (whole ++ digits)) (hexponent : IsExponent exponent) :
    isDecimal (whole ++ '.' :: digits ++ exponent) = true := by
  have hrun := List.forall_mem_append.1 (isDigit_of_isDigits hdigits)
  have hpoint : ∀ c ∈ ('.' :: digits ++ exponent).head?, ¬ c.isDigit := by simp
  have hhead := head_not_isDigit_of_isExponent hexponent
  simp only [isDecimal]
  rw [List.append_assoc, takeWhile_run hrun.1 hpoint, dropWhile_run hrun.1 hpoint]
  simp only [List.cons_append, takeWhile_run hrun.2 hhead, dropWhile_run hrun.2 hhead,
    isExponent_iff.2 hexponent, Bool.and_true, Bool.or_eq_true, bne_iff_ne]
  rw [← not_and_or, ← List.append_eq_nil_iff]
  exact hdigits.1

/-- The check of a decimal number. -/
theorem isDecimal_iff {text : List Char} : isDecimal text = true ↔ IsDecimal text := by
  constructor
  · intro h
    simp only [isDecimal] at h
    have hsplit := List.takeWhile_append_dropWhile (p := Char.isDigit) (l := text)
    split at h
    · rename_i rest hrest
      simp only [Bool.and_eq_true, Bool.or_eq_true, bne_iff_ne] at h
      obtain ⟨hsome, hexponent⟩ := h
      refine ⟨text.takeWhile Char.isDigit, '.' :: rest.takeWhile Char.isDigit,
        rest.dropWhile Char.isDigit, ?_, isExponent_iff.1 hexponent, .inr ⟨_, rfl, ?_, ?_⟩⟩
      · rw [List.append_assoc, List.cons_append, List.takeWhile_append_dropWhile, ← hrest, hsplit]
      · rwa [Ne, List.append_eq_nil_iff, not_and_or]
      · rw [List.forall_mem_append]
        exact ⟨fun c hc => isDigit_iff.1 (List.mem_takeWhile_imp hc),
          fun c hc => isDigit_iff.1 (List.mem_takeWhile_imp hc)⟩
    · simp only [Bool.and_eq_true, bne_iff_ne] at h
      exact ⟨_, [], _, by rw [List.append_nil, hsplit], isExponent_iff.1 h.2,
        .inl ⟨rfl, isDigits_takeWhile h.1⟩⟩
  · rintro ⟨whole, _, exponent, rfl, hexponent, ⟨rfl, hwhole⟩ | ⟨digits, rfl, hdigits⟩⟩
    · rw [List.append_nil]
      exact isDecimal_of_isDigits hwhole hexponent
    · exact isDecimal_of_point hdigits hexponent

/-! ## Characters -/

/-- All characters may stand in a number, and the first does not start a word. -/
def LooksNumeric (text : List Char) : Prop :=
  (∀ c ∈ text, IsRunChar c) ∧ ∃ c rest, text = c :: rest ∧ ¬ c.isAlpha ∧ c ≠ '_'

theorem not_isAlpha_of_isDigit {c : Char} (h : c.isDigit) : ¬ c.isAlpha ∧ c ≠ '_' := by
  have hnine := (isDigit_iff.1 h).2
  constructor
  · intro halpha
    rcases isAlpha_iff.1 halpha with ⟨hletter, -⟩ | ⟨hletter, -⟩
    · exact absurd (Char.le_trans hletter hnine) (by decide)
    · exact absurd (Char.le_trans hletter hnine) (by decide)
  · rintro rfl
    exact absurd hnine (by decide)

theorem isRunChar_of_isDigit {c : Char} (h : c.isDigit) : IsRunChar c :=
  .inl (isAlphanum_iff.2 (.inr h))

theorem isRunChar_of_isExponent {text : List Char} (hexponent : IsExponent text) :
    ∀ c ∈ text, IsRunChar c := by
  rcases hexponent with rfl | ⟨e, mark, digits, he, hmark, hdigits, rfl⟩
  · simp
  · have hletter : IsRunChar e := by rcases he with rfl | rfl <;> decide
    have hsign : ∀ c ∈ mark, IsRunChar c := by
      rcases hmark with rfl | rfl | rfl
      · simp
      · exact List.forall_mem_singleton.2 (by decide)
      · exact List.forall_mem_singleton.2 (by decide)
    exact List.forall_mem_cons.2 ⟨hletter, List.forall_mem_append.2
      ⟨hsign, fun c hc => isRunChar_of_isDigit (isDigit_of_isDigits hdigits c hc)⟩⟩

/-- The characters of a whole number, which starts with a digit. -/
theorem chars_of_spellsWhole {text : List Char} {n : Nat} (hwhole : SpellsWhole text n) :
    (∀ c ∈ text, IsRunChar c) ∧ ∃ c rest, text = c :: rest ∧ c.isDigit := by
  have hchars {base : Nat} {text : List Char} (hbase : base ≤ 36)
      (hdigits : SpellsDigits base text n) : ∀ c ∈ text, IsRunChar c := by
    obtain ⟨d, rest, rfl, hd, hrest, -⟩ := hdigits
    have hdigit {c : Char} (hc : digitValue c < base) : IsRunChar c :=
      .inl (isAlphanum_of_digitValue_lt (Nat.lt_of_lt_of_le hc hbase))
    refine List.forall_mem_cons.2 ⟨hdigit hd, fun c hc => ?_⟩
    exact (hrest c hc).elim (.inr ∘ .inl) hdigit
  have hmarked {base : Nat} {letter : Char} {text : List Char} (hbase : base ≤ 36)
      (hletter : IsRunChar letter) (hdigits : SpellsDigits base text n) :
      (∀ c ∈ '0' :: letter :: text, IsRunChar c) ∧
        ∃ c rest, '0' :: letter :: text = c :: rest ∧ c.isDigit :=
    ⟨List.forall_mem_cons.2 ⟨by decide, List.forall_mem_cons.2 ⟨hletter, hchars hbase hdigits⟩⟩,
      '0', _, rfl, by decide⟩
  cases hwhole with
  | ten hdigits =>
    refine ⟨hchars (by decide) hdigits, ?_⟩
    obtain ⟨d, rest, rfl, hd, -⟩ := hdigits
    exact ⟨d, rest, rfl, isDigit_of_digitValue_lt hd⟩
  | sixteen hdigits => exact hmarked (by decide) (by decide) hdigits
  | two hdigits => exact hmarked (by decide) (by decide) hdigits
  | eight hdigits => exact hmarked (by decide) (by decide) hdigits

/-- The characters of a decimal number, which starts with a digit or with its point. -/
theorem chars_of_isDecimal {text : List Char} (hdecimal : IsDecimal text) :
    (∀ c ∈ text, IsRunChar c) ∧ ∃ c rest, text = c :: rest ∧ (c.isDigit ∨ c = '.') := by
  obtain ⟨whole, _, exponent, rfl, hexponent, ⟨rfl, hwhole⟩ | ⟨digits, rfl, hdigits⟩⟩ := hdecimal
  · have hdigit := isDigit_of_isDigits hwhole
    obtain ⟨c, rest, rfl⟩ := List.exists_cons_of_ne_nil hwhole.1
    refine ⟨?_, c, rest ++ [] ++ exponent, rfl, .inl (hdigit c (by simp))⟩
    simp only [List.append_nil, List.forall_mem_append]
    exact ⟨fun d hd => isRunChar_of_isDigit (hdigit d hd), isRunChar_of_isExponent hexponent⟩
  · obtain ⟨hfront, hback⟩ := List.forall_mem_append.1 (isDigit_of_isDigits hdigits)
    constructor
    · simp only [List.forall_mem_append, List.forall_mem_cons]
      exact ⟨⟨fun d hd => isRunChar_of_isDigit (hfront d hd), by decide,
        fun d hd => isRunChar_of_isDigit (hback d hd)⟩, isRunChar_of_isExponent hexponent⟩
    · cases whole with
      | nil => exact ⟨'.', _, rfl, .inr rfl⟩
      | cons c whole => exact ⟨c, _, rfl, .inl (hfront c (by simp))⟩

/-- A number looks like one. -/
theorem looksNumeric_of_isNumeral {text : List Char} (hnumeral : IsNumeral text) :
    LooksNumeric text := by
  have hsigned {sign : Char} {text : List Char} (hsign : sign = '+' ∨ sign = '-')
      (htext : ∀ c ∈ text, IsRunChar c) : LooksNumeric (sign :: text) := by
    refine ⟨List.forall_mem_cons.2 ⟨.inr (.inr (.inr hsign)), htext⟩, sign, text, rfl, ?_⟩
    rcases hsign with rfl | rfl <;> decide
  cases hnumeral with
  | decimal hsign hdecimal =>
    obtain ⟨hchars, c, rest, rfl, hc⟩ := chars_of_isDecimal hdecimal
    rcases hsign with rfl | rfl | rfl
    · refine ⟨hchars, c, rest, rfl, ?_⟩
      rcases hc with hc | rfl
      · exact not_isAlpha_of_isDigit hc
      · decide
    · exact hsigned (.inl rfl) hchars
    · exact hsigned (.inr rfl) hchars
  | whole hwhole =>
    obtain ⟨hchars, c, rest, rfl, hc⟩ := chars_of_spellsWhole hwhole
    exact ⟨hchars, c, rest, rfl, not_isAlpha_of_isDigit hc⟩
  | positive hwhole => exact hsigned (.inl rfl) (chars_of_spellsWhole hwhole).1
  | negative hwhole => exact hsigned (.inr rfl) (chars_of_spellsWhole hwhole).1
  | infinity hsign => exact hsigned hsign (by simpa using by decide)
  | notANumber hsign => exact hsigned hsign (by simpa using by decide)

/-! ## Numbers -/

/-- A number without a sign is checked as one. -/
theorem isNumber_unsigned {c : Char} {rest : List Char} (hc : c.isDigit ∨ c = '.') :
    isNumber (c :: rest) = (isWhole 0xffffffffffffffff (c :: rest) || isDecimal (c :: rest)) := by
  rw [isNumber.eq_def]
  split
  · rename_i heq
    obtain ⟨rfl, -⟩ := List.cons.inj heq
    exact absurd hc (by decide)
  · rename_i heq
    obtain ⟨rfl, -⟩ := List.cons.inj heq
    exact absurd hc (by decide)
  · rfl

theorem isNamed_iff {text : List Char} :
    isNamed text = true ↔ text = ['i', 'n', 'f'] ∨ text = ['N', 'a', 'N'] := by
  simp [isNamed]

/-- A text is a number for the check exactly when it is one for the grammar. -/
theorem isNumber_iff {text : List Char} : isNumber text = true ↔ IsNumeral text := by
  constructor
  · intro h
    simp only [isNumber] at h
    split at h
    · simp only [Bool.or_eq_true, isNamed_iff, isWhole_iff, isDecimal_iff] at h
      rcases h with ((rfl | rfl) | ⟨n, hwhole, hn⟩) | hdecimal
      · exact .infinity (.inr rfl)
      · exact .notANumber (.inr rfl)
      · exact .negative hwhole hn
      · exact .decimal (.inr (.inr rfl)) hdecimal
    · simp only [Bool.or_eq_true, isNamed_iff, isWhole_iff, isDecimal_iff] at h
      rcases h with ((rfl | rfl) | ⟨n, hwhole, hn⟩) | hdecimal
      · exact .infinity (.inl rfl)
      · exact .notANumber (.inl rfl)
      · exact .positive hwhole hn
      · exact .decimal (.inr (.inl rfl)) hdecimal
    · simp only [Bool.or_eq_true, isWhole_iff, isDecimal_iff] at h
      rcases h with ⟨n, hwhole, hn⟩ | hdecimal
      · exact .whole hwhole hn
      · exact .decimal (.inl rfl) hdecimal
  · intro h
    cases h with
    | decimal hsign hdecimal =>
      rcases hsign with rfl | rfl | rfl
      · obtain ⟨-, c, rest, rfl, hc⟩ := chars_of_isDecimal hdecimal
        rw [List.nil_append, isNumber_unsigned hc, isDecimal_iff.2 hdecimal, Bool.or_true]
      · simp [isNumber, isDecimal_iff.2 hdecimal]
      · simp [isNumber, isDecimal_iff.2 hdecimal]
    | whole hwhole hn =>
      have hcheck := isWhole_iff.2 ⟨_, hwhole, hn⟩
      obtain ⟨-, c, rest, rfl, hc⟩ := chars_of_spellsWhole hwhole
      rw [isNumber_unsigned (.inl hc)]
      simp [hcheck]
    | positive hwhole hn =>
      have hcheck := isWhole_iff.2 ⟨_, hwhole, hn⟩
      simp [isNumber, hcheck]
    | negative hwhole hn =>
      have hcheck := isWhole_iff.2 ⟨_, hwhole, hn⟩
      simp [isNumber, hcheck]
    | infinity hsign => rcases hsign with rfl | rfl <;> rfl
    | notANumber hsign => rcases hsign with rfl | rfl <;> rfl

end TypeLint.Snapshot
