import Mathlib.Data.List.Basic
import TypeLint.Proofs.Text.Digit
import TypeLint.Proofs.Text.Utf8
import TypeLint.Snapshot.Grammar

/-!
# Reading quoted strings of snapshots

Scanning looks at bytes and the grammar spells characters. The two agree because an ASCII character
is one byte and all bytes of any other character lie above ASCII, so that no quote, backslash or
hash is seen inside it. From that, each spelling of a text is read back as the text.

## Main statements

- `readEscape_of_spells` — an escape stands for its character
- `readQuoted_of_spells` — a string with escapes
- `readFenced_of_closes` — a raw string
-/

namespace TypeLint.Snapshot

open Text

/-! ## Bytes as characters -/

theorem toNat_glyph (b : UInt8) : (glyph b).toNat = b.toNat :=
  UInt8.toNat_toUInt32 b

/-- An ASCII character is looked at as itself. -/
theorem glyph_toUInt8 {c : Char} (hc : c.toNat < 128) : glyph c.toUInt8 = c := by
  rw [← Char.toNat_inj, toNat_glyph, toNat_toUInt8 hc]

/-- No byte of a character looks like another ASCII character. -/
theorem glyph_ne_of_mem {c a : Char} {b : UInt8} (ha : a.toNat < 128) (hca : c ≠ a)
    (hb : b ∈ String.utf8EncodeChar c) : glyph b ≠ a := by
  rintro rfl
  apply hca
  rw [← toUInt8_mem_utf8EncodeChar_iff ha]
  have hbyte : (glyph b).toUInt8 = b := by
    rw [← UInt8.toNat_inj, toNat_toUInt8 ha, toNat_glyph]
  rwa [hbyte]

theorem map_glyph_map_toUInt8 {cs : List Char} (hcs : ∀ c ∈ cs, c.toNat < 128) :
    (cs.map Char.toUInt8).map glyph = cs := by
  rw [List.map_map]
  exact (List.map_congr_left fun c hc => glyph_toUInt8 (hcs c hc)).trans (List.map_id cs)

/-! ## Escapes -/

/-- The short escapes are read, and none is the start of a numbered one. -/
theorem namedEscape?_eq_some {e c : Char} (h : (e, c) ∈ shortEscapes) :
    namedEscape? e = some c ∧ e ≠ 'x' ∧ e ≠ 'u' ∧ e.toNat < 128 := by
  have all : ∀ p ∈ shortEscapes,
      namedEscape? p.1 = some p.2 ∧ p.1 ≠ 'x' ∧ p.1 ≠ 'u' ∧ p.1.toNat < 128 := by decide
  exact all _ h

theorem toNat_lt_of_isNumberOf {digits : List Char} {c : Char} (h : IsNumberOf digits c) :
    ∀ d ∈ digits, d.toNat < 128 :=
  fun d hd => toNat_lt_of_digitValue_lt (Nat.lt_trans (h.1 d hd) (by decide))

/-- Digits in braces are read up to the closing brace. -/
theorem readBraced_of_digits {digits : List Char} {c : Char} (hpos : 1 ≤ digits.length)
    (hlen : digits.length ≤ 6) (h : IsNumberOf digits c) (rest : List UInt8) :
    readBraced (digits.map Char.toUInt8 ++ '\x7d'.toUInt8 :: rest) = some (c.toNat, rest) := by
  have hascii := toNat_lt_of_isNumberOf h
  have hrun : (digits.map Char.toUInt8 ++ '\x7d'.toUInt8 :: rest).takeWhile
      (fun b => (digit? 16 (glyph b)).isSome) = digits.map Char.toUInt8 := by
    rw [List.takeWhile_append_of_pos]
    · have hbrace : (digit? 16 (glyph '\x7d'.toUInt8)).isSome = false := by decide
      simp [hbrace]
    · intro b hb
      obtain ⟨d, hd, rfl⟩ := List.mem_map.1 hb
      rw [glyph_toUInt8 (hascii d hd), digit?_eq_some_iff.2 ⟨h.1 d hd, rfl⟩]
      rfl
  have hread := readDigits_append h.1 0 []
  rw [List.append_nil] at hread
  simp only [readBraced]
  simp only [hrun, map_glyph_map_toUInt8 hascii]
  rw [show digits.length = (digits.map Char.toUInt8).length by simp, List.drop_left]
  have hbrace : glyph '\x7d'.toUInt8 = '\x7d' := by decide
  have hne : digits ≠ [] := List.ne_nil_of_length_pos hpos
  simp only [hbrace, hne, hlen, List.length_map, ne_eq, not_false_eq_true, and_self, if_true,
    hread, Option.map_some]
  rw [← h.2]

/-- A short escape is read as its character. -/
theorem readEscape_short {e c : Char} (hmem : (e, c) ∈ shortEscapes) (rest : List UInt8) :
    readEscape (e.toUInt8 :: rest) = some (c, rest) := by
  obtain ⟨hname, hx, hu, hascii⟩ := namedEscape?_eq_some hmem
  rw [readEscape, glyph_toUInt8 hascii]
  · simp [hname]
  · exact fun _ _ _ h => absurd (glyph_toUInt8 hascii ▸ h) hx
  · exact fun _ _ h => absurd (glyph_toUInt8 hascii ▸ h) hu

/-- An escape with two digits is read as the character of that number. -/
theorem readEscape_two {digits : List Char} {c : Char} (hlen : digits.length = 2)
    (h : IsNumberOf digits c) (rest : List UInt8) :
    readEscape ('x'.toUInt8 :: (digits.map Char.toUInt8 ++ rest)) = some (c, rest) := by
  obtain ⟨d, e, rfl⟩ := List.length_eq_two.1 hlen
  have hascii := toNat_lt_of_isNumberOf h
  have hx : glyph 'x'.toUInt8 = 'x' := by decide
  have hread := readDigits_append h.1 0 []
  simp only [List.append_nil, h.2, List.length_cons, List.length_nil] at hread
  simp only [List.map_cons, List.map_nil, List.cons_append, List.nil_append, readEscape, hx]
  rw [glyph_toUInt8 (hascii d (by simp)), glyph_toUInt8 (hascii e (by simp)), hread]
  simp [scalar?_eq_some_iff.2 rfl]

/-- An escape with digits in braces is read as the character of that number. -/
theorem readEscape_braced {digits : List Char} {c : Char} (hpos : 1 ≤ digits.length)
    (hlen : digits.length ≤ 6) (h : IsNumberOf digits c) (rest : List UInt8) :
    readEscape ('u'.toUInt8 :: '\x7b'.toUInt8 ::
      (digits.map Char.toUInt8 ++ '\x7d'.toUInt8 :: rest)) = some (c, rest) := by
  have hu : glyph 'u'.toUInt8 = 'u' := by decide
  have hbrace : glyph '\x7b'.toUInt8 = '\x7b' := by decide
  simp only [readEscape, hu, hbrace, if_true, readBraced_of_digits hpos hlen h rest]
  simp [scalar?_eq_some_iff.2 rfl]

/-- Each spelling of an escape is read as its character. -/
theorem readEscape_of_spells {spelling : List Char} {c : Char}
    (h : SpellsCharacter ('\\' :: spelling) c) (rest : List UInt8) :
    readEscape (spelling.flatMap String.utf8EncodeChar ++ rest) = some (c, rest) := by
  cases h with
  | plain _ hslash => exact absurd rfl hslash
  | short hmem =>
    rw [List.flatMap_singleton, utf8EncodeChar_ascii (namedEscape?_eq_some hmem).2.2.2]
    exact readEscape_short hmem rest
  | two hlen hdigits =>
    rw [List.flatMap_cons, utf8EncodeChar_ascii (by decide),
      flatMap_utf8EncodeChar_ascii (toNat_lt_of_isNumberOf hdigits)]
    exact readEscape_two hlen hdigits rest
  | @braced digits _ hpos hlen hdigits =>
    -- The braces are ASCII like the digits between them.
    have hascii : ∀ d ∈ 'u' :: '\x7b' :: (digits ++ ['\x7d']), d.toNat < 128 := by
      refine List.forall_mem_cons.2 ⟨by decide, List.forall_mem_cons.2 ⟨by decide, ?_⟩⟩
      exact List.forall_mem_append.2 ⟨toNat_lt_of_isNumberOf hdigits, by simp⟩
    change readEscape (List.flatMap String.utf8EncodeChar ('u' :: '\x7b' :: (digits ++ ['\x7d'])) ++
      rest) = _
    rw [flatMap_utf8EncodeChar_ascii hascii]
    simpa using readEscape_braced hpos hlen hdigits rest

/-! ## Strings with escapes -/

/-- Bytes other than quotes and backslashes stand for themselves. -/
theorem readQuoted_plain {bytes : List UInt8}
    (h : ∀ b ∈ bytes, glyph b ≠ '"' ∧ glyph b ≠ '\\') (rest : List UInt8) :
    readQuoted (bytes ++ rest) =
      (readQuoted rest).map fun (content, tail) => (bytes ++ content, tail) := by
  induction bytes with
  | nil => simp
  | cons b bytes ih =>
    obtain ⟨⟨hquote, hslash⟩, h⟩ := List.forall_mem_cons.1 h
    rw [List.cons_append, readQuoted, if_neg hquote, if_neg hslash, ih h, Option.map_map]
    rfl

/-- A spelled character is read as the bytes of the character. -/
theorem readQuoted_part {part : List Char} {c : Char} (h : SpellsCharacter part c)
    (rest : List UInt8) :
    readQuoted (part.flatMap String.utf8EncodeChar ++ rest) =
      (readQuoted rest).map fun (content, tail) =>
        (String.utf8EncodeChar c ++ content, tail) := by
  have hescape {spelling : List Char} (h : SpellsCharacter ('\\' :: spelling) c) :
      readQuoted (('\\' :: spelling).flatMap String.utf8EncodeChar ++ rest) =
        (readQuoted rest).map fun (content, tail) =>
          (String.utf8EncodeChar c ++ content, tail) := by
    have hquote : ¬ glyph '\\'.toUInt8 = '"' := by decide
    have hslash : glyph '\\'.toUInt8 = '\\' := by decide
    rw [List.flatMap_cons, utf8EncodeChar_ascii (by decide), List.append_assoc,
      List.singleton_append, readQuoted, if_neg hquote, if_pos hslash]
    split
    · rename_i hnone
      rw [readEscape_of_spells h] at hnone
      simp at hnone
    · rename_i d tail hread
      rw [readEscape_of_spells h] at hread
      obtain ⟨rfl, rfl⟩ := Prod.mk.inj (Option.some.inj hread)
      rfl
  have hspelled := h
  cases h with
  | plain hquote hslash =>
    rw [List.flatMap_singleton]
    apply readQuoted_plain
    intro b hb
    exact ⟨glyph_ne_of_mem (by decide) hquote hb, glyph_ne_of_mem (by decide) hslash hb⟩
  | short _ => exact hescape hspelled
  | two _ _ => exact hescape hspelled
  | braced _ _ _ => exact hescape hspelled

/-- A string with escapes is read up to its closing quote. -/
theorem readQuoted_of_spells (parts : List (List Char × Char))
    (h : ∀ p ∈ parts, SpellsCharacter p.1 p.2) (rest : List UInt8) :
    readQuoted ((parts.flatMap Prod.fst).flatMap String.utf8EncodeChar ++ '"'.toUInt8 :: rest) =
      some ((parts.map Prod.snd).flatMap String.utf8EncodeChar, rest) := by
  induction parts with
  | nil =>
    have hquote : glyph '"'.toUInt8 = '"' := by decide
    simp [readQuoted, hquote]
  | cons p parts ih =>
    obtain ⟨hp, h⟩ := List.forall_mem_cons.1 h
    rw [List.flatMap_cons, List.flatMap_append, List.append_assoc, readQuoted_part hp, ih h]
    simp

/-! ## Raw strings -/

theorem glyph_eq_iff {a : Char} (ha : a.toNat < 128) {b : UInt8} :
    glyph b = a ↔ b = a.toUInt8 := by
  refine ⟨fun h => ?_, fun h => h ▸ glyph_toUInt8 ha⟩
  rw [← UInt8.toNat_inj, ← toNat_glyph, ← toNat_glyph, h, glyph_toUInt8 ha]

theorem le_length_takeWhile_iff {n : Nat} {bytes : List UInt8} :
    n ≤ (bytes.takeWhile (glyph · == '#')).length ↔
      List.replicate n '#'.toUInt8 <+: bytes := by
  induction n generalizing bytes with
  | zero => simp
  | succ n ih =>
    cases bytes with
    | nil => simp [List.replicate_succ]
    | cons b bytes =>
      rw [List.takeWhile_cons, List.replicate_succ, List.cons_prefix_cons, ← ih]
      by_cases hb : glyph b = '#'
      · obtain rfl := (glyph_eq_iff (by decide)).1 hb
        simp [hb]
      · have hb' : ¬ '#'.toUInt8 = b := fun h => hb (h ▸ by decide)
        simp [hb, hb']

/-- Hashes in front of a quote belong to the text before it. -/
theorem prefix_of_hashes {n : Nat} {text : List Char} {tail : List UInt8}
    (h : List.replicate n '#'.toUInt8 <+:
      text.flatMap String.utf8EncodeChar ++ '"'.toUInt8 :: tail) :
    List.replicate n '#' <+: text := by
  induction n generalizing text with
  | zero => simp
  | succ n ih =>
    rw [List.replicate_succ] at h
    cases text with
    | nil =>
      rw [List.flatMap_nil, List.nil_append, List.cons_prefix_cons] at h
      exact absurd h.1 (by decide)
    | cons c text =>
      by_cases hc : c = '#'
      · subst hc
        rw [List.flatMap_cons, utf8EncodeChar_ascii (by decide), List.append_assoc,
          List.singleton_append, List.cons_prefix_cons] at h
        rw [List.replicate_succ, List.cons_prefix_cons]
        exact ⟨rfl, ih h.2⟩
      · obtain ⟨b, bytes, hbytes⟩ := List.exists_cons_of_ne_nil
          (String.utf8EncodeChar_ne_nil (c := c))
        rw [List.flatMap_cons, hbytes, List.cons_append, List.cons_append,
          List.cons_prefix_cons] at h
        have hb : b ∈ String.utf8EncodeChar c := by simp [hbytes]
        exact absurd (h.1 ▸ by decide) (glyph_ne_of_mem (a := '#') (by decide) hc hb)

/-- Bytes other than quotes cannot close a raw string. -/
theorem readFenced_plain {hashes : Nat} {bytes : List UInt8}
    (h : ∀ b ∈ bytes, glyph b ≠ '"') (rest : List UInt8) :
    readFenced hashes (bytes ++ rest) =
      (readFenced hashes rest).map fun (content, tail) => (bytes ++ content, tail) := by
  induction bytes with
  | nil => simp
  | cons b bytes ih =>
    obtain ⟨hb, h⟩ := List.forall_mem_cons.1 h
    rw [List.cons_append, readFenced, if_neg (fun hand => hb hand.1), ih h, Option.map_map]
    rfl

/-- A raw string is read up to its first closing. -/
theorem readFenced_of_closes {hashes : Nat} {text : List Char}
    (h : ∀ before, before ++ '"' :: List.replicate hashes '#' <+:
      text ++ '"' :: List.replicate hashes '#' → before = text) (rest : List UInt8) :
    readFenced hashes (text.flatMap String.utf8EncodeChar ++
        '"'.toUInt8 :: (List.replicate hashes '#'.toUInt8 ++ rest)) =
      some (text.flatMap String.utf8EncodeChar, rest) := by
  induction text with
  | nil =>
    have hquote : glyph '"'.toUInt8 = '"' := by decide
    have hrun := le_length_takeWhile_iff.2
      (List.prefix_append (List.replicate hashes '#'.toUInt8) rest)
    simp only [List.flatMap_nil, List.nil_append, readFenced, hquote, hrun, and_self, if_true]
    rw [List.drop_left' (by simp)]
  | cons c text ih =>
    have htext : ∀ before, before ++ '"' :: List.replicate hashes '#' <+:
        text ++ '"' :: List.replicate hashes '#' → before = text := by
      intro before hbefore
      exact (List.cons.inj (h (c :: before) (List.cons_prefix_cons.2 ⟨rfl, hbefore⟩))).2
    rw [List.flatMap_cons, List.append_assoc]
    by_cases hc : c = '"'
    · subst hc
      -- A quote inside the text is not followed by enough hashes.
      have hopen : ¬ hashes ≤ ((text.flatMap String.utf8EncodeChar ++ '"'.toUInt8 ::
          (List.replicate hashes '#'.toUInt8 ++ rest)).takeWhile (glyph · == '#')).length := by
        intro hrun
        have hprefix := prefix_of_hashes (le_length_takeWhile_iff.1 hrun)
        have := h [] (List.cons_prefix_cons.2
          ⟨rfl, hprefix.trans (List.prefix_append text _)⟩)
        simp at this
      rw [utf8EncodeChar_ascii (by decide), List.singleton_append, readFenced,
        if_neg (fun hand => hopen hand.2), ih htext]
      rfl
    · rw [readFenced_plain fun b hb => glyph_ne_of_mem (by decide) hc hb, ih htext]
      rfl

end TypeLint.Snapshot
