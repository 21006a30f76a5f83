import TypeLint.Proofs.Tag.Literal
import TypeLint.Tag.Word32

/-!
# The one splitting of a body

The body of a literal splits into units in one way at most: the first characters of a unit tell how
many more belong to it. So a literal stands for one text at most. Putting the number of an escape
together in a word of 32 bits reads the same text, because eight hexadecimal digits and three octal
ones fit into a word.

## Main statements

- `IsUnit.shape` — what units look like
- `IsSplitting.unique` — there is one splitting at most
- `IsSplitting.isBody_iff` — which splittings the scan for the closing quote goes along with
- `Word32.literalText?_eq` — no literal makes a word overflow
- `literalText?_iff_one_splitting` — what reading a literal accepts, and what it gives
-/

namespace TypeLint.Tag

open Text

variable {spelling other body : List Char} {c d : Char}

/-! ## Units -/

theorem IsNumeral.digit_lt {base count : Nat} {digits : List Char}
    (hdigits : IsNumeral base count digits c) (hbase : base ≤ 36) :
    ∀ d ∈ digits, digitValue d < 36 :=
  fun d hd => Nat.lt_of_lt_of_le (hdigits.digit d hd) hbase

/-- A unit is one character, or a backslash with one character, or a backslash with letters and
    digits. -/
theorem IsUnit.shape (hunit : IsUnit spelling c) :
    (c ≠ '\\' ∧ spelling = [c]) ∨ (∃ e, (e, c) ∈ shortEscapes ∧ spelling = ['\\', e]) ∨
      ∃ e digits, spelling = '\\' :: e :: digits ∧ ∀ d ∈ e :: digits, digitValue d < 36 := by
  have hnumbered {letter : Char} {count : Nat} {digits : List Char}
      (hletter : digitValue letter < 36) (hdigits : IsNumeral 16 count digits c) :
      ∀ d ∈ letter :: digits, digitValue d < 36 :=
    List.forall_mem_cons.2 ⟨hletter, hdigits.digit_lt (by decide)⟩
  cases hunit with
  | plain hslash _ => exact .inl ⟨hslash, rfl⟩
  | @short e _ hmem => exact .inr (.inl ⟨e, hmem, rfl⟩)
  | two hdigits => exact .inr (.inr ⟨_, _, rfl, hnumbered (by decide) hdigits⟩)
  | four hdigits => exact .inr (.inr ⟨_, _, rfl, hnumbered (by decide) hdigits⟩)
  | eight hdigits => exact .inr (.inr ⟨_, _, rfl, hnumbered (by decide) hdigits⟩)
  | @octal digits _ hdigits _ =>
    cases digits with
    | nil => exact absurd hdigits.length (by simp)
    | cons e digits => exact .inr (.inr ⟨e, digits, rfl, hdigits.digit_lt (by decide)⟩)

/-- A unit is a character of its own or starts with a backslash. -/
theorem IsUnit.plain_or_escape (hunit : IsUnit spelling c) :
    (c ≠ '\\' ∧ spelling = [c]) ∨ ∃ e tail, spelling = '\\' :: e :: tail := by
  rcases hunit.shape with hplain | ⟨e, -, rfl⟩ | ⟨e, digits, rfl, -⟩
  · exact .inl hplain
  · exact .inr ⟨e, [], rfl⟩
  · exact .inr ⟨e, digits, rfl⟩

theorem IsUnit.ne_nil (hunit : IsUnit spelling c) : spelling ≠ [] := by
  rcases hunit.plain_or_escape with ⟨-, rfl⟩ | ⟨e, tail, rfl⟩ <;> simp

/-- A text starts with one unit at most. -/
theorem IsUnit.append_inj {xs ys : List Char} (hunit : IsUnit spelling c) (hother : IsUnit other d)
    (h : spelling ++ xs = other ++ ys) : spelling = other ∧ c = d ∧ xs = ys := by
  rcases hunit.plain_or_escape with ⟨hc, rfl⟩ | ⟨e, tail, rfl⟩
  · rcases hother.plain_or_escape with ⟨-, rfl⟩ | ⟨e, tail, rfl⟩
    · obtain ⟨rfl, rfl⟩ := List.cons.inj h
      exact ⟨rfl, rfl, rfl⟩
    · exact absurd (List.cons.inj h).1 hc
  · rcases hother.plain_or_escape with ⟨hd, rfl⟩ | ⟨e', tail', rfl⟩
    · exact absurd (List.cons.inj h).1.symm hd
    · -- One reader takes both escapes off the same text.
      have htail : e :: tail ++ xs = e' :: tail' ++ ys := (List.cons.inj h).2
      have hread : readEscape (e :: tail ++ xs) = some (c, xs) :=
        readEscape_eq_some_iff.2 ⟨_, rfl, hunit⟩
      have hread' : readEscape (e' :: tail' ++ ys) = some (d, ys) :=
        readEscape_eq_some_iff.2 ⟨_, rfl, hother⟩
      rw [htail, hread'] at hread
      obtain ⟨rfl, rfl⟩ := Prod.mk.inj (Option.some.inj hread)
      exact ⟨by rw [List.append_cancel_right htail], rfl, rfl⟩

/-! ## Splittings -/

theorem isSplitting_nil_iff : IsSplitting body [] ↔ body = [] := by
  simp [IsSplitting]

/-- A body is split by taking the first unit off and splitting the rest. -/
theorem isSplitting_cons_iff {u : List Char × Char} {units : List (List Char × Char)} :
    IsSplitting body (u :: units) ↔
      IsUnit u.1 u.2 ∧ ∃ rest, body = u.1 ++ rest ∧ IsSplitting rest units := by
  constructor
  · rintro ⟨rfl, hunits⟩
    obtain ⟨hu, hunits⟩ := List.forall_mem_cons.1 hunits
    exact ⟨hu, _, rfl, rfl, hunits⟩
  · rintro ⟨hu, rest, rfl, rfl, hunits⟩
    exact ⟨rfl, List.forall_mem_cons.2 ⟨hu, hunits⟩⟩

/-- Two splittings of one body are the same. -/
theorem IsSplitting.unique {units units' : List (List Char × Char)} (h : IsSplitting body units)
    (h' : IsSplitting body units') : units' = units := by
  induction units generalizing body units' with
  | nil =>
    obtain rfl := isSplitting_nil_iff.1 h
    cases units' with
    | nil => rfl
    | cons u units' =>
      obtain ⟨hu, rest, hbody, -⟩ := isSplitting_cons_iff.1 h'
      exact absurd (List.append_eq_nil_iff.1 hbody.symm).1 hu.ne_nil
  | cons v units ih =>
    obtain ⟨hv, rest, rfl, hrest⟩ := isSplitting_cons_iff.1 h
    cases units' with
    | nil =>
      have hbody := isSplitting_nil_iff.1 h'
      exact absurd (List.append_eq_nil_iff.1 hbody).1 hv.ne_nil
    | cons u units' =>
      obtain ⟨hu, rest', hbody, hrest'⟩ := isSplitting_cons_iff.1 h'
      obtain ⟨hspelling, hchar, rfl⟩ := hv.append_inj hu hbody
      rw [ih hrest hrest', Prod.ext hspelling hchar]

/-! ## Closed bodies -/

/-- A character in front keeps a body if it is no quote. -/
theorem isBody_cons_iff (hslash : c ≠ '\\') : IsBody (c :: body) ↔ c ≠ '"' ∧ IsBody body := by
  constructor
  · intro h
    cases h with
    | plain hquote _ hbody => exact ⟨hquote, hbody⟩
    | pair _ => exact absurd rfl hslash
  · rintro ⟨hquote, hbody⟩
    exact .plain hquote hslash hbody

/-- A backslash in front keeps a body, whatever the character behind it. -/
theorem isBody_pair_iff : IsBody ('\\' :: c :: body) ↔ IsBody body := by
  constructor
  · intro h
    cases h with
    | plain _ hslash _ => exact absurd rfl hslash
    | pair hbody => exact hbody
  · exact .pair

/-- Digits neither close a literal nor take a character along. -/
theorem isBody_digits_iff {digits : List Char} (hdigits : ∀ d ∈ digits, digitValue d < 36) :
    IsBody (digits ++ body) ↔ IsBody body := by
  induction digits with
  | nil => rfl
  | cons d digits ih =>
    obtain ⟨hd, hdigits⟩ := List.forall_mem_cons.1 hdigits
    have hslash : d ≠ '\\' := by
      rintro rfl
      exact absurd hd (by decide)
    have hquote : d ≠ '"' := by
      rintro rfl
      exact absurd hd (by decide)
    rw [List.cons_append, isBody_cons_iff hslash, ih hdigits]
    exact and_iff_right hquote

/-- The scan for the closing quote passes over a unit as a whole, unless it is a bare quote. -/
theorem IsUnit.isBody_append_iff (hunit : IsUnit spelling c) :
    IsBody (spelling ++ body) ↔ spelling ≠ ['"'] ∧ IsBody body := by
  rcases hunit.shape with ⟨hslash, rfl⟩ | ⟨e, -, rfl⟩ | ⟨e, digits, rfl, hdigits⟩
  · rw [List.singleton_append, isBody_cons_iff hslash]
    simp
  · rw [List.cons_append, List.singleton_append, isBody_pair_iff]
    simp
  · rw [List.cons_append, List.cons_append, isBody_pair_iff,
      isBody_digits_iff (List.forall_mem_cons.1 hdigits).2]
    simp

/-- The scan for the closing quote passes over a body exactly when no unit is a bare quote. -/
theorem IsSplitting.isBody_iff {units : List (List Char × Char)} (h : IsSplitting body units) :
    IsBody body ↔ ∀ u ∈ units, u.1 ≠ ['"'] := by
  induction units generalizing body with
  | nil =>
    obtain rfl := isSplitting_nil_iff.1 h
    simp [IsBody.nil]
  | cons u units ih =>
    obtain ⟨hu, rest, rfl, hrest⟩ := isSplitting_cons_iff.1 h
    rw [hu.isBody_append_iff, ih hrest, List.forall_mem_cons]

/-! ## Words -/

/-- No body makes a word overflow. -/
theorem Word32.bodyText?_eq (body : List Char) :
    Word32.bodyText? body = .ok (Tag.bodyText? body) := by
  fun_induction Word32.bodyText? body with
  | case1 =>
    rw [Tag.bodyText?]
    rfl
  | case2 text =>
    rw [Tag.bodyText?, if_pos rfl]
    rfl
  | case3 text overflow hread => simp [Word32.readEscape_eq] at hread
  | case4 text hread =>
    rw [Word32.readEscape_eq] at hread
    rw [bodyText?_of_readEscape_eq_none (Except.ok.inj hread)]
    rfl
  | case5 text e rest hread _ ih =>
    rw [Word32.readEscape_eq] at hread
    rw [ih, bodyText?_escape (Except.ok.inj hread)]
    rfl
  | case6 c text hfeed hslash ih =>
    rw [ih, bodyText?_plain hslash hfeed]
    rfl

/-- No literal makes a word overflow. -/
theorem Word32.literalText?_eq (literal : List Char) :
    Word32.literalText? literal = .ok (Tag.literalText? literal) := by
  unfold Word32.literalText?
  split
  · rw [Tag.literalText?]
    split
    · exact Word32.bodyText?_eq _
    · rfl
  · rename_i hopened
    rw [Tag.literalText?]
    · rfl
    · exact hopened

/-! ## Literals -/

/-- A literal is read exactly when its body splits into units, and then as the text that they stand
    for. There is no other splitting, and the number in no escape needs more than 32 bits on the
    way. -/
theorem literalText?_iff_one_splitting (literal : List Char) :
    (∀ text, literalText? literal = some text ↔ Denotes literal text) ∧
    (literalText? literal = none ↔ ∀ text, ¬ Denotes literal text) ∧
    (∀ body units, literal = '"' :: body ++ ['"'] → IsSplitting body units →
      ∀ units', IsSplitting body units' ↔ units' = units) ∧
    Word32.literalText? literal = .ok (literalText? literal) := by
  refine ⟨fun text => literalText?_eq_some_iff, ?_, ?_, Word32.literalText?_eq literal⟩
  · rw [Option.eq_none_iff_forall_ne_some]
    simp only [ne_eq, literalText?_eq_some_iff]
  · rintro body units - hsplit units'
    refine ⟨hsplit.unique, ?_⟩
    rintro rfl
    exact hsplit

/-- Escapes of each length with a digit behind them. -/
theorem literalText?_iff_one_splitting_digits_behind_escapes :
    let literal := "\"\\x412\\1017\\u00e98\"".toList
    let units : List (List Char × Char) :=
      [(['\\', 'x', '4', '1'], 'A'), (['2'], '2'), (['\\', '1', '0', '1'], 'A'), (['7'], '7'),
        (['\\', 'u', '0', '0', 'e', '9'], 'é'), (['8'], '8')]
    let body := units.flatMap Prod.fst
    literal = '"' :: body ++ ['"'] ∧ IsSplitting body units ∧
      (∀ units', IsSplitting body units' ↔ units' = units) ∧
      literalText? literal = some "A2A7é8".toList ∧
      Word32.literalText? literal = .ok (some "A2A7é8".toList) := by
  intro literal units body
  have hunits : ∀ u ∈ units, IsUnit u.1 u.2 := by
    simp only [units, List.forall_mem_cons]
    refine ⟨.two ?_, .plain (by decide) (by decide), .octal ?_ (by decide),
      .plain (by decide) (by decide), .four ?_, .plain (by decide) (by decide), by simp⟩
    all_goals exact ⟨rfl, by simp [digitValue], by decide⟩
  have hliteral : literal = '"' :: body ++ ['"'] := by decide
  have hsplit : IsSplitting body units := ⟨rfl, hunits⟩
  obtain ⟨hvalue, -, hone, hword⟩ := literalText?_iff_one_splitting literal
  have htext : literalText? literal = some "A2A7é8".toList :=
    (hvalue _).2 ⟨body, units, hliteral, hsplit, by decide⟩
  exact ⟨hliteral, hsplit, hone body units hliteral hsplit, htext, htext ▸ hword⟩

end TypeLint.Tag
