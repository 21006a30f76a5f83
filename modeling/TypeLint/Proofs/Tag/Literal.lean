import TypeLint.Proofs.Text.Digit
import TypeLint.Tag.Grammar

/-!
# The text of a literal

Reading a literal of a tag succeeds exactly when its body splits into units, and the text is made of
the characters that the units stand for.

## Main statements

- `readEscape_eq_some_iff` — one escape
- `bodyText?_eq_some_iff`, `literalText?_eq_some_iff` — a body, and a literal with its quotes
-/

namespace TypeLint.Tag

open Text

/-! ## Numbered escapes -/

/-- A number continued with digits, by place values. -/
theorem foldDigits_eq_numeral (base start : Nat) (digits : List Char) :
    foldDigits base start digits = start * base ^ digits.length + numeral base digits := by
  induction digits generalizing start with
  | nil => simp [numeral]
  | cons d digits ih =>
    rw [foldDigits_cons, ih, numeral, List.length_cons, Nat.pow_succ']
    rw [Nat.add_mul, Nat.mul_assoc, Nat.add_assoc]

/-- Digits are read as the character whose number they stand for. -/
theorem readNumbered_eq_some_iff {base count : Nat} {text rest : List Char} {c : Char} :
    readNumbered base count text = some (c, rest) ↔
      ∃ digits, text = digits ++ rest ∧ IsNumeral base count digits c := by
  simp only [readNumbered]
  constructor
  · intro h
    split at h
    · rename_i n tail hread
      simp only [Option.map_eq_some_iff, Prod.mk.injEq, scalar?_eq_some_iff] at h
      obtain ⟨_, hvalue, rfl, rfl⟩ := h
      obtain ⟨digits, rfl, hlen, hdigits, rfl⟩ := readDigits_eq_some_iff.1 hread
      refine ⟨digits, rfl, hlen, hdigits, ?_⟩
      rw [hvalue, foldDigits_eq_numeral, Nat.zero_mul, Nat.zero_add]
    · simp at h
  · intro h
    obtain ⟨digits, rfl, hlen, hdigits, hvalue⟩ := h
    have hread : readDigits base count 0 (digits ++ rest) = some (c.toNat, rest) := by
      refine readDigits_eq_some_iff.2 ⟨digits, rfl, hlen, hdigits, ?_⟩
      rw [foldDigits_eq_numeral, Nat.zero_mul, Nat.zero_add, hvalue]
    simp only [hread, scalar?_eq_some_iff.2 rfl, Option.map_some]

/-! ## Escapes -/

/-- The short escapes are those of the grammar. -/
theorem namedEscape?_eq_some_iff {e c : Char} :
    namedEscape? e = some c ↔ (e, c) ∈ shortEscapes := by
  constructor
  · intro h
    simp only [namedEscape?] at h
    split at h <;> cases h <;> decide
  · have all : ∀ p ∈ shortEscapes, namedEscape? p.1 = some p.2 := by decide
    exact all (e, c)

/-- Octal digits have no other use after a backslash. -/
theorem octal_not_escape {d : Char} (hd : digitValue d < 8) :
    d ≠ 'x' ∧ d ≠ 'u' ∧ d ≠ 'U' ∧ namedEscape? d = none := by
  refine ⟨?_, ?_, ?_, ?_⟩
  · rintro rfl
    exact absurd hd (by decide)
  · rintro rfl
    exact absurd hd (by decide)
  · rintro rfl
    exact absurd hd (by decide)
  · rw [Option.eq_none_iff_forall_ne_some]
    intro c hc
    have all : ∀ p ∈ shortEscapes, ¬ digitValue p.1 < 8 := by decide
    exact all _ (namedEscape?_eq_some_iff.1 hc) hd

theorem readEscape_eq {e : Char} (hx : e ≠ 'x') (hu : e ≠ 'u') (hU : e ≠ 'U') (text : List Char) :
    readEscape (e :: text) =
      match namedEscape? e with
      | some c => some (c, text)
      | none => (readNumbered 8 3 (e :: text)).filter fun (c, _) => c.toNat ≤ 0xff := by
  unfold readEscape
  split
  · simp_all
  · simp_all
  · simp_all
  · simp_all
  · rename_i htext
    obtain ⟨rfl, rfl⟩ := List.cons.inj htext
    rfl

/-- An escape is read exactly when the text starts with one. -/
theorem readEscape_eq_some_iff {text rest : List Char} {c : Char} :
    readEscape text = some (c, rest) ↔
      ∃ spelling, text = spelling ++ rest ∧ IsUnit ('\\' :: spelling) c := by
  constructor
  · intro h
    simp only [readEscape] at h
    split at h
    · simp at h
    · obtain ⟨digits, rfl, hdigits⟩ := readNumbered_eq_some_iff.1 h
      exact ⟨'x' :: digits, rfl, .two hdigits⟩
    · obtain ⟨digits, rfl, hdigits⟩ := readNumbered_eq_some_iff.1 h
      exact ⟨'u' :: digits, rfl, .four hdigits⟩
    · obtain ⟨digits, rfl, hdigits⟩ := readNumbered_eq_some_iff.1 h
      exact ⟨'U' :: digits, rfl, .eight hdigits⟩
    · rename_i e text _ _ _
      split at h
      · -- A short escape is one character.
        rename_i hnamed
        obtain ⟨rfl, rfl⟩ := Prod.mk.inj (Option.some.inj h)
        exact ⟨[e], rfl, .short (namedEscape?_eq_some_iff.1 hnamed)⟩
      · -- Anything else has to be three octal digits.
        obtain ⟨hread, hsmall⟩ := Option.filter_eq_some_iff.1 h
        obtain ⟨digits, htext, hdigits⟩ := readNumbered_eq_some_iff.1 hread
        exact ⟨digits, htext, .octal hdigits (by simpa using hsmall)⟩
  · rintro ⟨spelling, rfl, hunit⟩
    cases hunit with
    | plain hslash => exact absurd rfl hslash
    | @short e _ hmem =>
      have hne : ∀ p ∈ shortEscapes, p.1 ≠ 'x' ∧ p.1 ≠ 'u' ∧ p.1 ≠ 'U' := by decide
      obtain ⟨hx, hu, hU⟩ := hne _ hmem
      rw [List.singleton_append, readEscape_eq hx hu hU, namedEscape?_eq_some_iff.2 hmem]
    | two hdigits => exact readNumbered_eq_some_iff.2 ⟨_, rfl, hdigits⟩
    | four hdigits => exact readNumbered_eq_some_iff.2 ⟨_, rfl, hdigits⟩
    | eight hdigits => exact readNumbered_eq_some_iff.2 ⟨_, rfl, hdigits⟩
    | octal hdigits hsmall =>
      have hread : readNumbered 8 3 (spelling ++ rest) = some (c, rest) :=
        readNumbered_eq_some_iff.2 ⟨_, rfl, hdigits⟩
      cases spelling with
      | nil => exact absurd hdigits.length (by simp)
      | cons d digits =>
        obtain ⟨hx, hu, hU, hnamed⟩ := octal_not_escape (hdigits.digit d (by simp))
        rw [List.cons_append] at hread ⊢
        rw [readEscape_eq hx hu hU, hnamed]
        simp [hread, Option.filter, hsmall]

/-! ## Bodies and literals -/

/-- A character other than a backslash or a line feed stands for itself. -/
theorem bodyText?_plain {c : Char} (hslash : c ≠ '\\') (hfeed : c ≠ '\n') (body : List Char) :
    bodyText? (c :: body) = (bodyText? body).map (c :: ·) := by
  rw [bodyText?, if_neg hfeed, if_neg hslash]

/-- An escape stands for its character. -/
theorem bodyText?_escape {text rest : List Char} {c : Char}
    (hread : readEscape text = some (c, rest)) :
    bodyText? ('\\' :: text) = (bodyText? rest).map (c :: ·) := by
  rw [bodyText?, if_neg (by decide), if_pos rfl]
  split
  · simp_all
  · simp_all

/-- A backslash that starts no escape spoils the literal. -/
theorem bodyText?_of_readEscape_eq_none {text : List Char} (hread : readEscape text = none) :
    bodyText? ('\\' :: text) = none := by
  rw [bodyText?, if_neg (by decide), if_pos rfl]
  split
  · rfl
  · simp_all

/-- A unit at the head of a body is read as its character. -/
theorem bodyText?_unit {spelling : List Char} {c : Char} (hunit : IsUnit spelling c)
    (body : List Char) : bodyText? (spelling ++ body) = (bodyText? body).map (c :: ·) := by
  have hescape {tail : List Char} (htail : spelling = '\\' :: tail) :
      bodyText? (spelling ++ body) = (bodyText? body).map (c :: ·) := by
    subst htail
    exact bodyText?_escape (readEscape_eq_some_iff.2 ⟨tail, rfl, hunit⟩)
  cases hunit with
  | plain hslash hfeed => exact bodyText?_plain hslash hfeed body
  | _ => exact hescape rfl

/-- A body is read exactly when it splits into units. -/
theorem bodyText?_eq_some_iff {body text : List Char} :
    bodyText? body = some text ↔ ∃ units, IsSplitting body units ∧ text = units.map Prod.snd := by
  constructor
  · intro h
    have hcons {spelling rest : List Char} {c : Char} {tail : List Char}
        (hunit : IsUnit spelling c)
        (hrest : ∃ units, IsSplitting rest units ∧ tail = units.map Prod.snd) :
        ∃ units, IsSplitting (spelling ++ rest) units ∧ c :: tail = units.map Prod.snd := by
      obtain ⟨units, ⟨rfl, hunits⟩, rfl⟩ := hrest
      exact ⟨(spelling, c) :: units, ⟨rfl, List.forall_mem_cons.2 ⟨hunit, hunits⟩⟩, rfl⟩
    fun_induction bodyText? body generalizing text with
    | case1 => exact ⟨[], ⟨rfl, by simp⟩, (Option.some.inj h).symm⟩
    | case2 => simp at h
    | case3 => simp at h
    | case4 text' e rest hread _ ih =>
      obtain ⟨tail, htail, rfl⟩ := Option.map_eq_some_iff.1 h
      obtain ⟨spelling, rfl, hunit⟩ := readEscape_eq_some_iff.1 hread
      exact hcons hunit (ih htail)
    | case5 c body hfeed hslash ih =>
      obtain ⟨tail, htail, rfl⟩ := Option.map_eq_some_iff.1 h
      exact hcons (.plain hslash hfeed) (ih htail)
  · intro h
    obtain ⟨units, ⟨rfl, hunits⟩, rfl⟩ := h
    induction units with
    | nil => rw [List.flatMap_nil, bodyText?, List.map_nil]
    | cons u units ih =>
      obtain ⟨hu, hunits⟩ := List.forall_mem_cons.1 hunits
      rw [List.flatMap_cons, bodyText?_unit hu, ih hunits, Option.map_some, List.map_cons]

theorem literalText?_quoted (body : List Char) :
    literalText? ('"' :: body ++ ['"']) = bodyText? body := by
  rw [List.cons_append, literalText?, if_pos (by simp), List.dropLast_concat]

/-- A literal is read as the text that it stands for, and nothing else is read. -/
theorem literalText?_eq_some_iff {literal text : List Char} :
    literalText? literal = some text ↔ Denotes literal text := by
  constructor
  · intro h
    simp only [literalText?] at h
    split at h
    · rename_i tail
      split at h
      · rename_i hlast
        obtain ⟨body, rfl⟩ := List.getLast?_eq_some_iff.1 hlast
        rw [List.dropLast_concat] at h
        obtain ⟨units, hsplit, htext⟩ := bodyText?_eq_some_iff.1 h
        exact ⟨body, units, rfl, hsplit, htext⟩
      · simp at h
    · simp at h
  · rintro ⟨body, units, rfl, hsplit, htext⟩
    rw [literalText?_quoted]
    exact bodyText?_eq_some_iff.2 ⟨units, hsplit, htext⟩

end TypeLint.Tag
