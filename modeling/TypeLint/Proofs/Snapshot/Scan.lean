import TypeLint.Proofs.Snapshot.Number
import TypeLint.Proofs.Snapshot.Quoted
import TypeLint.Proofs.Text.Run

/-!
# Scanning spelled tokens

Bytes that spell tokens are scanned to these tokens: gaps are passed over, and each token is taken
whole because what is after it could not belong to it.

## Main statements

- `scan_gap` — gaps mean nothing
- `next_of_spells` — one token
- `scan_of_spells` — all tokens of a file
-/

namespace TypeLint.Snapshot

open Text

/-! ## Gaps -/

/-- A token is taken off the front of a file. -/
theorem scan_cons_token {b : UInt8} {bytes rest : List UInt8} {t : Token}
    (h : Token.next b bytes = some (some t, rest)) :
    Token.scan (b :: bytes) = (Token.scan rest).map (t :: ·) := by
  rw [Token.scan]
  split
  · simp_all
  · simp_all
  · simp_all

/-- A lexeme without a token is passed over. -/
theorem scan_cons_skip {b : UInt8} {bytes rest : List UInt8}
    (h : Token.next b bytes = some (none, rest)) :
    Token.scan (b :: bytes) = Token.scan rest := by
  rw [Token.scan]
  split
  · simp_all
  · simp_all
  · simp_all

theorem next_slash (bytes : List UInt8) :
    Token.next '/'.toUInt8 bytes = (skipComment bytes).map (none, ·) := rfl

theorem dropBlock_cons_cons (depth : Nat) (a b : UInt8) (bytes : List UInt8) :
    dropBlock depth (a :: b :: bytes) =
      if glyph a = '/' ∧ glyph b = '*' then dropBlock (depth + 1) bytes
      else if glyph a = '*' ∧ glyph b = '/' then
        match depth with
        | 0 => some bytes
        | outer + 1 => dropBlock outer bytes
      else dropBlock depth (b :: bytes) :=
  dropBlock.eq_def depth (a :: b :: bytes)

/-- A block comment ends where its opening and all openings inside it are closed. -/
theorem dropBlock_of_rest {comment : List UInt8} (h : IsBlockRest comment) (depth : Nat)
    (rest : List UInt8) :
    dropBlock depth (comment ++ rest) =
      match depth with
      | 0 => some rest
      | outer + 1 => dropBlock outer rest := by
  have hslash {b : UInt8} : glyph b = '/' ↔ b = '/'.toUInt8 := glyph_eq_iff (by decide)
  have hstar {b : UInt8} : glyph b = '*' ↔ b = '*'.toUInt8 := glyph_eq_iff (by decide)
  have hopen : utf8 "/*" = ['/'.toUInt8, '*'.toUInt8] := by decide
  have hclose : utf8 "*/" = ['*'.toUInt8, '/'.toUInt8] := by decide
  induction h generalizing depth rest with
  | close =>
    rw [hclose, List.cons_append, List.cons_append, dropBlock_cons_cons,
      if_neg (by rw [hslash]; exact fun hand => absurd hand.1 (by decide)),
      if_pos ⟨hstar.2 rfl, hslash.2 rfl⟩]
    rfl
  | nested _ _ ihinner ihrest =>
    rw [hopen, List.append_assoc, List.append_assoc, List.cons_append, List.cons_append,
      List.nil_append, dropBlock_cons_cons, if_pos ⟨hslash.2 rfl, hstar.2 rfl⟩, ihinner]
    exact ihrest depth rest
  | @byte b tail hnoOpen hnoClose htail ih =>
    -- A comment is never closed by its first byte, so a second byte decides.
    obtain ⟨c, tail, rfl⟩ : ∃ c rest, tail = c :: rest := by
      cases htail with
      | close => exact ⟨_, _, hclose⟩
      | nested _ _ => exact ⟨_, _, by rw [hopen]; rfl⟩
      | byte _ _ _ => exact ⟨_, _, rfl⟩
    rw [List.cons_append, List.cons_append, dropBlock_cons_cons, if_neg, if_neg]
    · exact ih depth rest
    · intro h
      obtain ⟨hb, hc⟩ := h
      apply hnoClose
      rw [hclose, hstar.1 hb, hslash.1 hc]
      exact ⟨tail, rfl⟩
    · rintro ⟨hb, hc⟩
      apply hnoOpen
      rw [hopen, hslash.1 hb, hstar.1 hc]
      exact ⟨tail, rfl⟩

/-- A line comment is passed over up to its line feed, which is a blank. -/
theorem scan_line {comment : List UInt8} (h : IsLine comment) (rest : List UInt8) :
    Token.scan (comment ++ rest) = Token.scan (dropLine rest) := by
  obtain ⟨text, rfl, htext⟩ := h
  have hopen : utf8 "//" = ['/'.toUInt8, '/'.toUInt8] := by decide
  have hslash : glyph '/'.toUInt8 = '/' := by decide
  rw [hopen, List.append_assoc, List.cons_append]
  apply scan_cons_skip
  rw [next_slash, List.cons_append, List.nil_append, skipComment, if_pos hslash]
  have hdrop : dropLine (text ++ rest) = dropLine rest := by
    induction text with
    | nil => rfl
    | cons b text ih =>
      obtain ⟨hb, htext⟩ := List.forall_mem_cons.1 htext
      have hpos : (glyph b != '\n') = true := by simpa using hb
      rw [List.cons_append, dropLine, List.dropWhile_cons, if_pos hpos]
      exact ih htext
  rw [hdrop]
  rfl

/-- Scanning goes on after a gap as if it were not there. -/
theorem scan_gap {gap : List UInt8} (h : IsGap gap) (rest : List UInt8) :
    Token.scan (gap ++ rest) = Token.scan rest := by
  induction h with
  | nil => rfl
  | @blank b gap hb _ ih =>
    have hblank : isBlank b := by
      simpa [isBlank, or_assoc] using hb
    have hnext : Token.next b (gap ++ rest) = some (none, gap ++ rest) := by
      rw [Token.next, if_pos hblank]
    rw [List.cons_append, scan_cons_skip hnext, ih]
  | @line comment gap hline _ ih =>
    have hfeed : utf8 "\n" = ['\n'.toUInt8] := by decide
    rw [List.append_assoc, List.append_assoc, scan_line hline, hfeed, List.singleton_append]
    have hnext : Token.next '\n'.toUInt8 (gap ++ rest) = some (none, gap ++ rest) := rfl
    exact (scan_cons_skip hnext).trans ih
  | @block comment gap hblock _ ih =>
    have hopen : utf8 "/*" = ['/'.toUInt8, '*'.toUInt8] := by decide
    rw [hopen, List.append_assoc, List.append_assoc, List.cons_append, ← ih]
    apply scan_cons_skip
    have hstar : glyph '*'.toUInt8 = '*' := by decide
    rw [next_slash, List.cons_append, List.nil_append, skipComment,
      if_neg (by rw [hstar]; decide), if_pos hstar, dropBlock_of_rest hblock]
    rfl

/-- There is no token in what may follow the last one. -/
theorem scan_lastGap {gap : List UInt8} (h : IsLastGap gap) : Token.scan gap = some [] := by
  rcases h with h | ⟨gap, comment, rfl, hgap, hline⟩
  · have := scan_gap h []
    rw [List.append_nil] at this
    rw [this, Token.scan]
  · have := scan_line hline []
    rw [List.append_nil] at this
    rw [scan_gap hgap, this]
    exact Token.scan.eq_1

/-! ## Words and numbers -/

/-- The characters of words and numbers are ASCII. -/
theorem toNat_lt_of_isRunChar {c : Char} (h : IsRunChar c) : c.toNat < 128 := by
  rcases h with h | rfl | rfl | rfl | rfl
  · exact toNat_lt_of_isAlphanum h
  all_goals decide

/-- The bytes of raw words and numbers are those of their characters. -/
theorem isRawByte_iff {b : UInt8} : isRawByte b ↔ IsRunChar (glyph b) := by
  simp [isRawByte, isWordByte, IsRunChar, or_assoc]

theorem isRawByte_toUInt8 {c : Char} (h : IsRunChar c) : isRawByte c.toUInt8 := by
  rw [isRawByte_iff, glyph_toUInt8 (toNat_lt_of_isRunChar h)]
  exact h

theorem isWordByte_toUInt8 {c : Char} (h : c.isAlphanum ∨ c = '_') : isWordByte c.toUInt8 := by
  have hc := glyph_toUInt8 (toNat_lt_of_isRunChar (h.imp id .inl))
  simpa [isWordByte, hc] using h

theorem isRawByte_of_isWordByte {b : UInt8} (h : isWordByte b) : isRawByte b := by
  simp [isRawByte, h]

/-- A byte of words and numbers is no mark of punctuation. -/
theorem next_of_isRawByte {b : UInt8} (h : isRawByte b) (bytes : List UInt8) :
    Token.next b bytes = (Token.nextRun b bytes).map fun (t, rest) => (some t, rest) := by
  have hne {a : Char} (ha : isRawByte a.toUInt8 = false) (hascii : a.toNat < 128) :
      glyph b ≠ a := by
    intro hb
    rw [(glyph_eq_iff hascii).1 hb, ha] at h
    simp at h
  have hblank : ¬ isBlank b := by
    simp only [isBlank, Bool.or_eq_true, beq_iff_eq, not_or]
    exact ⟨⟨⟨hne (by decide) (by decide), hne (by decide) (by decide)⟩,
      hne (by decide) (by decide)⟩, hne (by decide) (by decide)⟩
  rw [Token.next, if_neg hblank]
  split
  case h_14 => rfl
  all_goals exact absurd ‹glyph b = _› (hne (by decide) (by decide))

theorem glyphs_map_toUInt8 {cs : List Char} (hcs : ∀ c ∈ cs, c.toNat < 128) :
    glyphs (cs.map Char.toUInt8) = String.ofList cs := by
  rw [glyphs, map_glyph_map_toUInt8 hcs]

theorem utf8_ascii {s : String} (hs : ∀ c ∈ s.toList, c.toNat < 128) :
    utf8 s = s.toList.map Char.toUInt8 :=
  flatMap_utf8EncodeChar_ascii hs

theorem utf8_cons {s : String} {c : Char} {tail : List Char} (hs : s.toList = c :: tail)
    (hascii : ∀ d ∈ c :: tail, d.toNat < 128) :
    utf8 s = c.toUInt8 :: tail.map Char.toUInt8 := by
  rw [utf8_ascii (hs ▸ hascii), hs, List.map_cons]

theorem toNat_lt_of_run {cs : List Char} (hcs : ∀ c ∈ cs, IsRunChar c) :
    ∀ c ∈ cs, c.toNat < 128 :=
  fun c hc => toNat_lt_of_isRunChar (hcs c hc)

theorem isRawByte_of_run {cs : List Char} (hcs : ∀ c ∈ cs, IsRunChar c) :
    ∀ b ∈ cs.map Char.toUInt8, isRawByte b := by
  intro b hb
  obtain ⟨c, hc, rfl⟩ := List.mem_map.1 hb
  exact isRawByte_toUInt8 (hcs c hc)

theorem not_isRawByte_of_endsRun {rest : List UInt8} (hend : EndsRun rest) :
    ∀ b ∈ rest.head?, ¬ isRawByte b :=
  fun b hb hraw => (hend b hb).1 (isRawByte_iff.1 hraw)

/-- Neither a quote nor a hash comes after the first letter of a plain word. -/
theorem head_not_mark {tail : List Char} {rest : List UInt8}
    (htail : ∀ d ∈ tail, d.isAlphanum ∨ d = '_') (hend : EndsRun rest) :
    ¬ ((tail.map Char.toUInt8 ++ rest).head?.map glyph = some '"' ∨
      (tail.map Char.toUInt8 ++ rest).head?.map glyph = some '#') := by
  cases tail with
  | nil =>
    -- The word is a single letter, and what comes after it ends the word.
    cases rest with
    | nil => simp
    | cons b rest =>
      obtain ⟨-, hquote, hhash⟩ := hend b rfl
      simp [hquote, hhash]
  | cons d tail =>
    have hd := htail d (by simp)
    have hglyph := glyph_toUInt8 (toNat_lt_of_isRunChar (hd.imp id .inl))
    simp only [List.map_cons, List.cons_append, List.head?_cons, Option.map_some, hglyph,
      Option.some.injEq]
    rintro (rfl | rfl)
    · exact absurd hd (by decide)
    · exact absurd hd (by decide)

/-- A plain word is scanned to its end. -/
theorem next_word {name : String} (h : IsWord name) {rest : List UInt8} (hend : EndsRun rest) :
    ∃ b bytes, utf8 name = b :: bytes ∧
      Token.next b (bytes ++ rest) = some (some (.word name false), rest) := by
  obtain ⟨c, tail, hname, hc, htail⟩ := h
  have hcword : c.isAlphanum ∨ c = '_' := hc.imp (fun h => isAlphanum_iff.2 (.inl h)) id
  have hchars : ∀ d ∈ c :: tail, d.isAlphanum ∨ d = '_' :=
    List.forall_mem_cons.2 ⟨hcword, htail⟩
  have hascii : ∀ d ∈ c :: tail, d.toNat < 128 :=
    toNat_lt_of_run fun d hd => (hchars d hd).imp id .inl
  refine ⟨_, _, utf8_cons hname hascii, ?_⟩
  have hword : ∀ b ∈ tail.map Char.toUInt8, isWordByte b := by
    intro b hb
    obtain ⟨d, hd, rfl⟩ := List.mem_map.1 hb
    exact isWordByte_toUInt8 (htail d hd)
  have hstop : ∀ b ∈ rest.head?, ¬ isWordByte b :=
    fun b hb h => not_isRawByte_of_endsRun hend b hb (isRawByte_of_isWordByte h)
  have hstart : isWordStart c.toUInt8 := by
    simpa [isWordStart, glyph_toUInt8 (hascii c (by simp))] using hc
  -- A word that starts with the letter `r` is not taken for a raw one.
  rw [next_of_isRawByte (isRawByte_of_isWordByte (isWordByte_toUInt8 hcword)), Token.nextRun,
    if_neg (fun hand => head_not_mark htail hend hand.2), if_pos hstart, Token.nextWord,
    takeWhile_run hword hstop, dropWhile_run hword hstop, ← List.map_cons,
    glyphs_map_toUInt8 hascii, ← hname]
  simp

/-- A raw word is scanned to its end, without its marker. -/
theorem next_rawWord {name : String} (h : IsRawWord name) {rest : List UInt8}
    (hend : EndsRun rest) :
    ∃ b bytes, utf8 ("r#" ++ name) = b :: bytes ∧
      Token.next b (bytes ++ rest) = some (some (.word name true), rest) := by
  obtain ⟨hne, hchars⟩ := h
  obtain ⟨c, tail, hname⟩ := List.exists_cons_of_ne_nil (l := name.toList) (by simpa using hne)
  rw [hname] at hchars
  have hascii := toNat_lt_of_run hchars
  obtain ⟨hc, htail⟩ := List.forall_mem_cons.1 hchars
  have hbytes : utf8 ("r#" ++ name) =
      'r'.toUInt8 :: '#'.toUInt8 :: c.toUInt8 :: tail.map Char.toUInt8 := by
    rw [utf8, String.toList_append, List.flatMap_append]
    change _ ++ utf8 name = _
    rw [utf8_cons hname hascii]
    rfl
  refine ⟨_, _, hbytes, ?_⟩
  have hraw := isRawByte_of_run htail
  have hstop := not_isRawByte_of_endsRun hend
  have hhash : glyph '#'.toUInt8 = '#' := by decide
  have hcraw := isRawByte_toUInt8 hc
  -- The marker has one hash only, since the name does not start with another.
  have hcne : ¬ glyph c.toUInt8 = '#' := by
    intro hb
    rw [(glyph_eq_iff (by decide)).1 hb] at hcraw
    exact absurd hcraw (by decide)
  rw [next_of_isRawByte (by decide), Token.nextRun, if_pos ⟨by decide, .inr (by simp [hhash])⟩]
  simp only [List.cons_append, Token.nextAfterR, List.takeWhile_cons, hhash, hcne, beq_iff_eq,
    if_true, if_false, List.length_cons, List.length_nil, List.drop_succ_cons, List.drop_zero,
    hcraw, takeWhile_run hraw hstop, dropWhile_run hraw hstop]
  rw [← List.map_cons, glyphs_map_toUInt8 hascii, ← hname]
  simp

/-- A number is scanned to its end. -/
theorem next_number {literal : String} (h : IsNumeral literal.toList) {rest : List UInt8}
    (hend : EndsRun rest) :
    ∃ b bytes, utf8 literal = b :: bytes ∧
      Token.next b (bytes ++ rest) = some (some (.number literal), rest) := by
  have hnumber : isNumber literal.toList := isNumber_iff.2 h
  obtain ⟨hchars, c, tail, hliteral, hc⟩ := looksNumeric_of_isNumeral h
  rw [hliteral] at hchars
  have hascii := toNat_lt_of_run hchars
  obtain ⟨hcrun, htail⟩ := List.forall_mem_cons.1 hchars
  refine ⟨_, _, utf8_cons hliteral hascii, ?_⟩
  have hraw := isRawByte_of_run htail
  have hstop := not_isRawByte_of_endsRun hend
  have hglyph := glyph_toUInt8 (toNat_lt_of_isRunChar hcrun)
  have hletter : ¬ glyph c.toUInt8 = 'r' := by
    intro hr
    rw [hglyph] at hr
    exact hc.1 (hr ▸ by decide)
  have hstart : ¬ isWordStart c.toUInt8 := by
    simpa [isWordStart, hglyph] using hc
  rw [next_of_isRawByte (isRawByte_toUInt8 hcrun), Token.nextRun,
    if_neg (fun hand => hletter hand.1), if_neg hstart, Token.nextNumber,
    takeWhile_run hraw hstop, dropWhile_run hraw hstop, ← List.map_cons,
    map_glyph_map_toUInt8 hascii, glyphs_map_toUInt8 hascii, ← hliteral]
  simp [hnumber]

/-! ## Strings and characters -/

theorem next_quote (bytes : List UInt8) :
    Token.next '"'.toUInt8 bytes =
      ((readQuoted bytes).bind textToken).map fun (t, rest) => (some t, rest) := rfl

theorem next_apostrophe (bytes : List UInt8) :
    Token.next '\x27'.toUInt8 bytes =
      (readCharacter bytes).map fun (c, rest) => (some (.char c), rest) := rfl

theorem textToken_utf8 (value : String) (rest : List UInt8) :
    textToken (value.toList.flatMap String.utf8EncodeChar, rest) = some (.text value, rest) := by
  rw [textToken]
  change (ofUtf8? (utf8 value)).map _ = _
  rw [ofUtf8?_utf8]
  rfl

/-- After the letter `r`, a raw string is scanned with any number of hashes. -/
theorem nextAfterR_fenced {hashes : Nat} {bytes : List UInt8} {read : List UInt8 × List UInt8}
    (h : readFenced hashes bytes = some read) :
    Token.nextAfterR (List.replicate hashes '#'.toUInt8 ++ '"'.toUInt8 :: bytes) =
      textToken read := by
  have hquote : glyph '"'.toUInt8 = '"' := by decide
  have hrun : (List.replicate hashes '#'.toUInt8 ++ '"'.toUInt8 :: bytes).takeWhile
      (glyph · == '#') = List.replicate hashes '#'.toUInt8 := by
    apply takeWhile_run
    · intro b hb
      rw [List.eq_of_mem_replicate hb]
      decide
    · intro b hb
      obtain rfl := Option.some.inj hb
      decide
  have hdrop : (List.replicate hashes '#'.toUInt8 ++ '"'.toUInt8 :: bytes).drop
      (List.replicate hashes '#'.toUInt8).length = '"'.toUInt8 :: bytes := List.drop_left
  have hraw : isRawByte '"'.toUInt8 = false := by decide
  unfold Token.nextAfterR
  dsimp only
  rw [hrun, hdrop]
  split
  · -- A single hash could also mark a raw word, but a quote is not in any word.
    rename_i hhashes heq
    obtain ⟨rfl, rfl⟩ := List.cons.inj heq
    have hone : hashes = 1 := by simpa using congrArg List.length hhashes
    subst hone
    rw [if_neg (by rw [hraw]; decide), if_pos hquote, h, Option.bind_some]
  · rename_i heq _
    obtain ⟨rfl, rfl⟩ := List.cons.inj heq
    rw [if_pos hquote, List.length_replicate, h, Option.bind_some]
  · rename_i heq
    simp at heq

/-- A string in quotes is scanned to its text. -/
theorem next_quoted {parts : List (List Char × Char)} {value : String}
    (hparts : ∀ p ∈ parts, SpellsCharacter p.1 p.2) (hvalue : value.toList = parts.map Prod.snd)
    (rest : List UInt8) :
    ∃ b bytes, utf8 (String.ofList ('"' :: parts.flatMap Prod.fst ++ ['"'])) = b :: bytes ∧
      Token.next b (bytes ++ rest) = some (some (.text value), rest) := by
  have hquote : String.utf8EncodeChar '"' = ['"'.toUInt8] := by decide
  have hbytes : utf8 (String.ofList ('"' :: parts.flatMap Prod.fst ++ ['"'])) = '"'.toUInt8 ::
      ((parts.flatMap Prod.fst).flatMap String.utf8EncodeChar ++ ['"'.toUInt8]) := by
    rw [utf8_ofList, List.cons_append, List.flatMap_cons, List.flatMap_append,
      List.flatMap_singleton, hquote]
    rfl
  refine ⟨_, _, hbytes, ?_⟩
  rw [next_quote, List.append_assoc, List.singleton_append, readQuoted_of_spells parts hparts,
    ← hvalue, Option.bind_some, textToken_utf8]
  rfl

theorem flatMap_utf8EncodeChar_replicate_hash (hashes : Nat) :
    (List.replicate hashes '#').flatMap String.utf8EncodeChar =
      List.replicate hashes '#'.toUInt8 := by
  rw [flatMap_utf8EncodeChar_ascii, List.map_replicate]
  intro c hc
  rw [List.eq_of_mem_replicate hc]
  decide

/-- A raw string is scanned to its text. -/
theorem next_fenced {hashes : Nat} {value : String}
    (hcloses : ∀ before, before ++ '"' :: List.replicate hashes '#' <+:
      value.toList ++ '"' :: List.replicate hashes '#' → before = value.toList)
    (rest : List UInt8) :
    ∃ b bytes, utf8 (String.ofList ('r' :: List.replicate hashes '#' ++ '"' :: value.toList ++
        '"' :: List.replicate hashes '#')) = b :: bytes ∧
      Token.next b (bytes ++ rest) = some (some (.text value), rest) := by
  have hquote : String.utf8EncodeChar '"' = ['"'.toUInt8] := by decide
  have hr : String.utf8EncodeChar 'r' = ['r'.toUInt8] := by decide
  have hbytes : utf8 (String.ofList ('r' :: List.replicate hashes '#' ++ '"' :: value.toList ++
      '"' :: List.replicate hashes '#')) = 'r'.toUInt8 :: (List.replicate hashes '#'.toUInt8 ++
        '"'.toUInt8 :: (value.toList.flatMap String.utf8EncodeChar ++
          '"'.toUInt8 :: List.replicate hashes '#'.toUInt8)) := by
    rw [utf8_ofList]
    simp only [List.cons_append, List.flatMap_cons, List.flatMap_append, hr, hquote,
      flatMap_utf8EncodeChar_replicate_hash, List.nil_append, List.append_assoc]
  refine ⟨_, _, hbytes, ?_⟩
  have hhead (tail : List UInt8) :
      (List.replicate hashes '#'.toUInt8 ++ '"'.toUInt8 :: tail).head?.map glyph = some '"' ∨
        (List.replicate hashes '#'.toUInt8 ++ '"'.toUInt8 :: tail).head?.map glyph = some '#' := by
    cases hashes with
    | zero => exact .inl rfl
    | succ n => exact .inr rfl
  simp only [List.append_assoc, List.cons_append]
  rw [next_of_isRawByte (by decide), Token.nextRun, if_pos ⟨by decide, hhead _⟩,
    nextAfterR_fenced (readFenced_of_closes hcloses rest), textToken_utf8]
  rfl

/-- A string is scanned to its text. -/
theorem next_text {spelling : List Char} {value : String} (h : SpellsText spelling value.toList)
    (rest : List UInt8) :
    ∃ b bytes, utf8 (String.ofList spelling) = b :: bytes ∧
      Token.next b (bytes ++ rest) = some (some (.text value), rest) := by
  generalize htext : value.toList = text at h
  cases h with
  | quoted parts hparts => exact next_quoted hparts htext rest
  | fenced hashes hcloses =>
    subst htext
    exact next_fenced hcloses rest

theorem readCharacter_plain {c : Char} (hquote : c ≠ '\x27') (hslash : c ≠ '\\')
    (rest : List UInt8) :
    readCharacter (String.utf8EncodeChar c ++ '\x27'.toUInt8 :: rest) = some (c, rest) := by
  have hrun : (String.utf8EncodeChar c ++ '\x27'.toUInt8 :: rest).takeWhile
      (glyph · != '\x27') = String.utf8EncodeChar c := by
    apply takeWhile_run
    · intro b hb
      simpa using glyph_ne_of_mem (by decide) hquote hb
    · intro b hb
      obtain rfl := Option.some.inj hb
      decide
  have hread : ofUtf8? (String.utf8EncodeChar c) = some (String.ofList [c]) := by
    have := ofUtf8?_utf8 (String.ofList [c])
    rwa [utf8_ofList, List.flatMap_singleton] at this
  -- The first byte of the character decides that it is not an escape.
  obtain ⟨b, bytes, hbytes⟩ := List.exists_cons_of_ne_nil (String.utf8EncodeChar_ne_nil (c := c))
  have hb : ¬ glyph b = '\\' := glyph_ne_of_mem (by decide) hslash (by simp [hbytes])
  rw [hbytes] at hrun hread ⊢
  rw [List.cons_append] at hrun ⊢
  rw [readCharacter, if_neg hb]
  simp only [hrun, hread]
  rw [← List.cons_append, List.drop_left]
  simp

theorem readCharacter_escaped {spelling : List Char} {c : Char}
    (h : SpellsCharacter ('\\' :: spelling) c) (rest : List UInt8) :
    readCharacter ('\\'.toUInt8 :: (spelling.flatMap String.utf8EncodeChar ++
      '\x27'.toUInt8 :: rest)) = some (c, rest) := by
  have hslash : glyph '\\'.toUInt8 = '\\' := by decide
  have hend : glyph '\x27'.toUInt8 = '\x27' := by decide
  rw [readCharacter, if_pos hslash, readEscape_of_spells h]
  simp [hend]

theorem next_plainChar {c : Char} (hquote : c ≠ '\x27') (hslash : c ≠ '\\')
    (rest : List UInt8) :
    ∃ b bytes, utf8 (String.ofList ['\x27', c, '\x27']) = b :: bytes ∧
      Token.next b (bytes ++ rest) = some (some (.char c), rest) := by
  have hend : String.utf8EncodeChar '\x27' = ['\x27'.toUInt8] := by decide
  have hbytes : utf8 (String.ofList ['\x27', c, '\x27']) =
      '\x27'.toUInt8 :: (String.utf8EncodeChar c ++ ['\x27'.toUInt8]) := by
    rw [utf8_ofList]
    simp only [List.flatMap_cons, List.flatMap_nil, hend, List.cons_append, List.nil_append]
  refine ⟨_, _, hbytes, ?_⟩
  rw [next_apostrophe, List.append_assoc, List.singleton_append, readCharacter_plain hquote hslash]
  rfl

theorem next_escapedChar {spelling : List Char} {c : Char}
    (h : SpellsCharacter ('\\' :: spelling) c) (rest : List UInt8) :
    ∃ b bytes,
      utf8 (String.ofList ('\x27' :: '\\' :: spelling ++ ['\x27'])) = b :: bytes ∧
      Token.next b (bytes ++ rest) = some (some (.char c), rest) := by
  have hend : String.utf8EncodeChar '\x27' = ['\x27'.toUInt8] := by decide
  have hslash : String.utf8EncodeChar '\\' = ['\\'.toUInt8] := by decide
  have hbytes : utf8 (String.ofList ('\x27' :: '\\' :: spelling ++ ['\x27'])) =
      '\x27'.toUInt8 :: '\\'.toUInt8 ::
        (spelling.flatMap String.utf8EncodeChar ++ ['\x27'.toUInt8]) := by
    rw [utf8_ofList]
    simp only [List.cons_append, List.flatMap_cons, List.flatMap_append, List.flatMap_nil,
      hend, hslash, List.nil_append, List.append_nil]
  refine ⟨_, _, hbytes, ?_⟩
  rw [next_apostrophe, List.cons_append, List.append_assoc, List.singleton_append,
    readCharacter_escaped h]
  rfl

/-! ## All tokens -/

/-- A spelled token is scanned whole in front of bytes that do not change it. -/
theorem next_of_spells {spelling rest : List UInt8} {t : Token} (h : SpellsToken spelling t)
    (hend : t.EndsBefore rest) :
    ∃ b bytes, spelling = b :: bytes ∧ Token.next b (bytes ++ rest) = some (some t, rest) := by
  cases h with
  | openRound =>
    refine ⟨'('.toUInt8, [], by decide, ?_⟩
    have hround : Token.nextRound rest = (.openRound, rest) := by
      cases rest with
      | nil => rfl
      | cons b rest => exact if_neg (hend b rfl)
    change some (some (Token.nextRound rest).1, (Token.nextRound rest).2) = _
    rw [hround]
  | closeRound => exact ⟨')'.toUInt8, [], by decide, rfl⟩
  | openSquare => exact ⟨'['.toUInt8, [], by decide, rfl⟩
  | closeSquare => exact ⟨']'.toUInt8, [], by decide, rfl⟩
  | openCurly => exact ⟨'\x7b'.toUInt8, [], by decide, rfl⟩
  | closeCurly => exact ⟨'\x7d'.toUInt8, [], by decide, rfl⟩
  | unit => exact ⟨'('.toUInt8, [')'.toUInt8], by decide, rfl⟩
  | comma => exact ⟨','.toUInt8, [], by decide, rfl⟩
  | colon => exact ⟨':'.toUInt8, [], by decide, rfl⟩
  | hash => exact ⟨'#'.toUInt8, [], by decide, rfl⟩
  | bang => exact ⟨'!'.toUInt8, [], by decide, rfl⟩
  | word hname => exact next_word hname hend
  | rawWord hname => exact next_rawWord hname hend
  | number hliteral => exact next_number hliteral hend
  | text hvalue => exact next_text hvalue rest
  | plainChar hquote hslash => exact next_plainChar hquote hslash rest
  | escapedChar hspelled => exact next_escapedChar hspelled rest

/-- Bytes that spell tokens are scanned to these tokens. -/
theorem scan_of_spells {file : List UInt8} {tokens : List Token} (h : SpellsTokens file tokens) :
    Token.scan file = some tokens := by
  induction h with
  | nil hgap => exact scan_lastGap hgap
  | @cons gap spelling rest t ts hgap hspelled hend _ ih =>
    obtain ⟨b, bytes, rfl, hnext⟩ := next_of_spells hspelled hend
    rw [List.append_assoc, scan_gap hgap, List.cons_append, scan_cons_token hnext, ih]
    rfl

end TypeLint.Snapshot
