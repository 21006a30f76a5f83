import TypeLint.Json.Grammar
import TypeLint.Proofs.Text.Digit

/-!
# Strings of documents

A string is read piece by piece, and the grammar spells it character by character. A character
beyond U+FFFF may be spelled by two pieces, and a piece that is half of a pair spells nothing by
itself. Since the pieces of a string are unique, its text is the one that joining them gives.

## Main definitions

- `IsPiece`, `SpellsPieces` — the spelling of pieces

## Main statements

- `readPieces_eq_some_iff` — reading finds the pieces that are spelled
- `joinPieces_eq_some_iff` — joining gives the text that is spelled
- `isString_iff` — a string and its text, by way of its pieces
-/

namespace TypeLint.Json

open Text

/-! ## Pieces -/

/-- The spelling of a piece of a string. -/
inductive IsPiece : List Char → Piece → Prop
  | plain {c : Char} : ' ' ≤ c → c ≠ '"' → c ≠ '\\' → IsPiece [c] (.char c)
  | short {e c : Char} : (e, c) ∈ shortEscapes → IsPiece ['\\', e] (.char c)
  | unit {digits : List Char} {n : Nat} :
      IsUnitNumber digits n → IsPiece ('\\' :: 'u' :: digits) (.ofUnit n)

/-- The spelling of the pieces of a string. -/
inductive SpellsPieces : List Char → List Piece → Prop
  | nil : SpellsPieces [] []
  | cons {text body : List Char} {p : Piece} {pieces : List Piece} :
      IsPiece text p → SpellsPieces body pieces → SpellsPieces (text ++ body) (p :: pieces)

theorem SpellsPieces.append {front back : List Char} {ps qs : List Piece}
    (hfront : SpellsPieces front ps) (hback : SpellsPieces back qs) :
    SpellsPieces (front ++ back) (ps ++ qs) := by
  induction hfront with
  | nil => exact hback
  | cons hp _ ih =>
    rw [List.append_assoc]
    exact .cons hp ih

theorem IsPiece.spells {text : List Char} {p : Piece} (hp : IsPiece text p) :
    SpellsPieces text [p] := by
  have hcons := SpellsPieces.cons hp .nil
  rwa [List.append_nil] at hcons

/-- Four characters are read as the number that they stand for. -/
theorem unit?_eq_some_iff {a b c d : Char} {n : Nat} :
    unit? a b c d = some n ↔ IsUnitNumber [a, b, c, d] n := by
  have hvalue : foldDigits 16 0 [a, b, c, d] =
      ((digitValue a * 16 + digitValue b) * 16 + digitValue c) * 16 + digitValue d := by
    simp
  rw [unit?, Option.map_eq_some_iff]
  constructor
  · intro h
    obtain ⟨⟨m, rest⟩, hread, rfl⟩ := h
    obtain ⟨digits, htext, hlen, hdigits, rfl⟩ := readDigits_eq_some_iff.1 hread
    obtain rfl : rest = [] := by
      have := congrArg List.length htext
      simp only [List.length_append, hlen, List.length_cons, List.length_nil] at this
      exact List.length_eq_zero_iff.1 (by omega)
    rw [List.append_nil] at htext
    exact ⟨a, b, c, d, rfl, htext ▸ hdigits, htext ▸ hvalue⟩
  · rintro ⟨a', b', c', d', hlist, hdigits, rfl⟩
    obtain ⟨rfl, rfl, rfl, rfl⟩ : a = a' ∧ b = b' ∧ c = c' ∧ d = d' := by simpa using hlist
    exact ⟨(_, []), readDigits_eq_some_iff.2 ⟨_, rfl, rfl, hdigits, hvalue.symm⟩, rfl⟩

/-- The short escapes are those of the grammar. -/
theorem namedEscape?_eq_some_iff {e c : Char} :
    namedEscape? e = some c ↔ (e, c) ∈ shortEscapes := by
  constructor
  · intro h
    simp only [namedEscape?] at h
    split at h <;> cases h <;> decide
  · have all : ∀ p ∈ shortEscapes, namedEscape? p.1 = some p.2 := by decide
    exact all (e, c)

/-! ## Reading -/

theorem readPieces_plain {c : Char} (hspace : ' ' ≤ c) (hquote : c ≠ '"') (hslash : c ≠ '\\')
    (text : List Char) :
    readPieces (c :: text) =
      (readPieces text).map fun (pieces, rest) => (.char c :: pieces, rest) := by
  rw [readPieces.eq_def]
  split
  · simp_all
  · simp_all
  · simp_all
  · simp_all
  · rename_i htext
    obtain ⟨rfl, rfl⟩ := List.cons.inj htext
    exact if_neg (Char.not_lt.2 hspace)

theorem readPieces_short {e c : Char} (hmem : (e, c) ∈ shortEscapes) (text : List Char) :
    readPieces ('\\' :: e :: text) =
      (readPieces text).map fun (pieces, rest) => (.char c :: pieces, rest) := by
  have hne : ∀ p ∈ shortEscapes, p.1 ≠ 'u' := by decide
  have hu : e ≠ 'u' := hne _ hmem
  rw [readPieces.eq_def]
  split
  · simp_all
  · simp_all
  · simp_all
  · rename_i htext
    obtain ⟨-, htext⟩ := List.cons.inj htext
    obtain ⟨rfl, rfl⟩ := List.cons.inj htext
    rw [namedEscape?_eq_some_iff.2 hmem]
    cases readPieces text <;> rfl
  · rename_i hnot htext
    obtain ⟨rfl, rfl⟩ := List.cons.inj htext
    exact absurd rfl (hnot e text rfl)

theorem readPieces_unit {digits : List Char} {n : Nat} (hunit : IsUnitNumber digits n)
    (text : List Char) :
    readPieces ('\\' :: 'u' :: digits ++ text) =
      (readPieces text).map fun (pieces, rest) => (.ofUnit n :: pieces, rest) := by
  obtain ⟨a, b, c, d, rfl, hdigits, hn⟩ := hunit
  have hread : unit? a b c d = some n := unit?_eq_some_iff.2 ⟨a, b, c, d, rfl, hdigits, hn⟩
  change readPieces ('\\' :: 'u' :: a :: b :: c :: d :: text) = _
  rw [readPieces.eq_def]
  simp only [hread]
  cases readPieces text <;> rfl

/-- A piece is read off the front of a text. -/
theorem readPieces_piece {part : List Char} {p : Piece} (hp : IsPiece part p) (text : List Char) :
    readPieces (part ++ text) =
      (readPieces text).map fun (pieces, rest) => (p :: pieces, rest) := by
  cases hp with
  | plain hspace hquote hslash => exact readPieces_plain hspace hquote hslash text
  | short hmem => exact readPieces_short hmem text
  | unit hunit => exact readPieces_unit hunit text

/-- What is read up to the closing quote is spelled by the body in front of it. -/
theorem spells_of_readPieces {text rest : List Char} {pieces : List Piece}
    (h : readPieces text = some (pieces, rest)) :
    ∃ body, text = body ++ '"' :: rest ∧ SpellsPieces body pieces := by
  have hcons {part text rest : List Char} {p : Piece} {pieces : List Piece} (hp : IsPiece part p)
      (hrest : ∃ body, text = body ++ '"' :: rest ∧ SpellsPieces body pieces) :
      ∃ body, part ++ text = body ++ '"' :: rest ∧ SpellsPieces body (p :: pieces) := by
    obtain ⟨body, rfl, hspells⟩ := hrest
    exact ⟨part ++ body, by rw [List.append_assoc], .cons hp hspells⟩
  fun_induction readPieces text generalizing pieces rest with
  | case1 => simp at h
  | case2 text =>
    -- The closing quote.
    obtain ⟨rfl, rfl⟩ := Prod.mk.inj (Option.some.inj h)
    exact ⟨[], rfl, .nil⟩
  | case3 a b c d text n inner tail hread hunit ih =>
    -- An escape by number.
    obtain ⟨rfl, rfl⟩ := Prod.mk.inj (Option.some.inj h)
    exact hcons (.unit (unit?_eq_some_iff.1 hunit)) (ih hread)
  | case4 => simp at h
  | case5 e text hnot c inner tail hread hnamed ih =>
    -- A short escape.
    obtain ⟨rfl, rfl⟩ := Prod.mk.inj (Option.some.inj h)
    exact hcons (.short (namedEscape?_eq_some_iff.1 hnamed)) (ih hread)
  | case6 => simp at h
  | case7 => simp at h
  | case8 c text hquote _ hslash hspace ih =>
    obtain ⟨⟨inner, tail⟩, hread, hpieces⟩ := Option.map_eq_some_iff.1 h
    obtain ⟨rfl, rfl⟩ := Prod.mk.inj hpieces
    have hne : c ≠ '\\' := by
      -- A backslash at the end of the text leaves nothing to read.
      rintro rfl
      cases text with
      | nil => simp [readPieces] at hread
      | cons d text => exact hslash d text rfl rfl
    exact hcons (.plain (Char.not_lt.1 hspace) hquote hne) (ih hread)

/-- A string is read as its pieces, up to the quote that closes it. -/
theorem readPieces_eq_some_iff {text rest : List Char} {pieces : List Piece} :
    readPieces text = some (pieces, rest) ↔
      ∃ body, text = body ++ '"' :: rest ∧ SpellsPieces body pieces := by
  refine ⟨spells_of_readPieces, ?_⟩
  intro h
  obtain ⟨body, rfl, hspells⟩ := h
  induction hspells with
  | nil => rw [List.nil_append, readPieces]
  | cons hp _ ih =>
    rw [List.append_assoc, readPieces_piece hp, ih]
    rfl

/-- The pieces of a string are unique. -/
theorem SpellsPieces.unique {body : List Char} {ps qs : List Piece} (hps : SpellsPieces body ps)
    (hqs : SpellsPieces body qs) : ps = qs := by
  have hread : readPieces (body ++ '"' :: []) = some (ps, []) :=
    readPieces_eq_some_iff.2 ⟨body, rfl, hps⟩
  rw [readPieces_eq_some_iff.2 ⟨body, rfl, hqs⟩] at hread
  exact (Prod.mk.inj (Option.some.inj hread)).1.symm

/-! ## Halves of pairs -/

/-- Four hexadecimal digits stand for a number of two bytes. -/
theorem lt_of_isUnitNumber {digits : List Char} {n : Nat} (hunit : IsUnitNumber digits n) :
    n < 0x10000 := by
  obtain ⟨a, b, c, d, rfl, hdigits, rfl⟩ := hunit
  have ha := hdigits a (by simp)
  have hb := hdigits b (by simp)
  have hc := hdigits c (by simp)
  have hd := hdigits d (by simp)
  omega

/-- A unit is a character if it is the number of one. -/
theorem ofUnit_eq_char_iff {n : Nat} (hn : n < 0x10000) {c : Char} :
    Piece.ofUnit n = .char c ↔ c.toNat = n := by
  simp only [Piece.ofUnit]
  constructor
  · intro h
    split at h
    · rename_i hlow
      cases h
      exact toNat_ofNat_of_isValidChar (.inl hlow)
    · split at h
      · cases h
      · split at h
        · cases h
        · cases h
          exact toNat_ofNat_of_isValidChar (.inr ⟨by omega, by omega⟩)
  · rintro rfl
    have hvalid : c.toNat.isValidChar := c.valid
    rw [Char.ofNat_toNat]
    rcases hvalid with hlow | ⟨hhigh, -⟩
    · rw [if_pos hlow]
    · rw [if_neg (by omega), if_neg (by omega), if_neg (by omega)]

theorem ofUnit_eq_high_iff {n h : Nat} : Piece.ofUnit n = .high h ↔ n = 0xd800 + h ∧ h < 0x400 := by
  simp only [Piece.ofUnit]
  constructor
  · intro heq
    split at heq
    · cases heq
    · split at heq
      · have hbits := Piece.high.inj heq
        omega
      · split at heq <;> cases heq
  · rintro ⟨rfl, hh⟩
    rw [if_neg (by omega), if_pos (by omega), Nat.add_sub_cancel_left]

theorem ofUnit_eq_low_iff {n l : Nat} : Piece.ofUnit n = .low l ↔ n = 0xdc00 + l ∧ l < 0x400 := by
  simp only [Piece.ofUnit]
  constructor
  · intro heq
    split at heq
    · cases heq
    · split at heq
      · cases heq
      · split at heq
        · have hbits := Piece.low.inj heq
          omega
        · cases heq
  · intro h
    obtain ⟨rfl, hl⟩ := h
    rw [if_neg (by omega), if_neg (by omega), if_pos (by omega), Nat.add_sub_cancel_left]

/-- A piece that is a character spells it. -/
theorem isCharacter_of_isPiece {text : List Char} {c : Char} (hp : IsPiece text (.char c)) :
    IsCharacter text c := by
  generalize hpiece : Piece.char c = p at hp
  cases hp with
  | plain hspace hquote hslash =>
    cases hpiece
    exact .plain hspace hquote hslash
  | short hmem =>
    cases hpiece
    exact .short hmem
  | unit hunit =>
    have hc := (ofUnit_eq_char_iff (lt_of_isUnitNumber hunit)).1 hpiece.symm
    exact .unit (hc ▸ hunit)

theorem isUnitNumber_of_isPiece_high {text : List Char} {h : Nat} (hp : IsPiece text (.high h)) :
    h < 0x400 ∧ ∃ digits, text = '\\' :: 'u' :: digits ∧ IsUnitNumber digits (0xd800 + h) := by
  generalize hpiece : Piece.high h = p at hp
  cases hp with
  | unit hunit =>
    obtain ⟨rfl, hh⟩ := ofUnit_eq_high_iff.1 hpiece.symm
    exact ⟨hh, _, rfl, hunit⟩
  | _ => cases hpiece

theorem isUnitNumber_of_isPiece_low {text : List Char} {l : Nat} (hp : IsPiece text (.low l)) :
    l < 0x400 ∧ ∃ digits, text = '\\' :: 'u' :: digits ∧ IsUnitNumber digits (0xdc00 + l) := by
  generalize hpiece : Piece.low l = p at hp
  cases hp with
  | unit hunit =>
    obtain ⟨rfl, hl⟩ := ofUnit_eq_low_iff.1 hpiece.symm
    exact ⟨hl, _, rfl, hunit⟩
  | _ => cases hpiece

theorem toNat_pair {h l : Nat} (hh : h < 0x400) (hl : l < 0x400) :
    (Char.ofNat (0x10000 + h * 0x400 + l)).toNat = 0x10000 + h * 0x400 + l :=
  toNat_ofNat_of_isValidChar (.inr ⟨by omega, by omega⟩)

/-! ## The text of a string -/

theorem Spells.cons {text body tail : List Char} {c : Char} (hc : IsCharacter text c)
    (hbody : Spells body tail) : Spells (text ++ body) (c :: tail) := by
  obtain ⟨parts, rfl, rfl, hparts⟩ := hbody
  exact ⟨(text, c) :: parts, rfl, rfl, List.forall_mem_cons.2 ⟨hc, hparts⟩⟩

/-- Pieces that are joined to a text spell it. -/
theorem spells_of_joinPieces {body text : List Char} {pieces : List Piece}
    (hspells : SpellsPieces body pieces) (hjoin : joinPieces pieces = some text) :
    Spells body text := by
  fun_induction joinPieces pieces generalizing body text with
  | case1 =>
    cases hspells
    cases hjoin
    exact ⟨[], rfl, rfl, by simp⟩
  | case2 c pieces ih =>
    obtain ⟨tail, htail, rfl⟩ := Option.map_eq_some_iff.1 hjoin
    cases hspells with
    | cons hp hspells => exact .cons (isCharacter_of_isPiece hp) (ih hspells htail)
  | case3 h l pieces ih =>
    obtain ⟨tail, htail, rfl⟩ := Option.map_eq_some_iff.1 hjoin
    cases hspells with
    | cons hfirst hspells =>
      cases hspells with
      | cons hsecond hspells =>
        obtain ⟨hh, high, rfl, hhigh⟩ := isUnitNumber_of_isPiece_high hfirst
        obtain ⟨hl, low, rfl, hlow⟩ := isUnitNumber_of_isPiece_low hsecond
        have hpair := IsCharacter.pair hhigh hlow hh hl (toNat_pair hh hl)
        have hcons := Spells.cons hpair (ih hspells htail)
        rwa [List.append_assoc] at hcons
  | case4 => cases hjoin

/-- The spelling of a character is made of one piece or two, which join to the character. -/
theorem pieces_of_isCharacter {text : List Char} {c : Char} (hc : IsCharacter text c) :
    ∃ ps, SpellsPieces text ps ∧
      ∀ pieces, joinPieces (ps ++ pieces) = (joinPieces pieces).map (c :: ·) := by
  cases hc with
  | plain hspace hquote hslash =>
    exact ⟨[.char c], (IsPiece.plain hspace hquote hslash).spells, fun _ => rfl⟩
  | short hmem => exact ⟨[.char c], (IsPiece.short hmem).spells, fun _ => rfl⟩
  | unit hunit =>
    have hpiece := (ofUnit_eq_char_iff (lt_of_isUnitNumber hunit)).2 rfl
    exact ⟨[.char c], hpiece ▸ (IsPiece.unit hunit).spells, fun _ => rfl⟩
  | @pair high low h l _ hhigh hlow hh hl hvalue =>
    have hfirst : SpellsPieces ('\\' :: 'u' :: high) [.high h] :=
      ofUnit_eq_high_iff.2 ⟨rfl, hh⟩ ▸ (IsPiece.unit hhigh).spells
    have hsecond : SpellsPieces ('\\' :: 'u' :: low) [.low l] :=
      ofUnit_eq_low_iff.2 ⟨rfl, hl⟩ ▸ (IsPiece.unit hlow).spells
    refine ⟨[.high h, .low l], hfirst.append hsecond, fun pieces => ?_⟩
    change (joinPieces pieces).map (Char.ofNat (0x10000 + h * 0x400 + l) :: ·) = _
    rw [← hvalue, Char.ofNat_toNat]

/-- A body that spells a text has pieces that are joined to it. -/
theorem pieces_of_spells {body text : List Char} (hspells : Spells body text) :
    ∃ pieces, SpellsPieces body pieces ∧ joinPieces pieces = some text := by
  obtain ⟨parts, rfl, rfl, hparts⟩ := hspells
  induction parts with
  | nil => exact ⟨[], .nil, rfl⟩
  | cons p parts ih =>
    obtain ⟨hp, hparts⟩ := List.forall_mem_cons.1 hparts
    obtain ⟨ps, hps, hjoin⟩ := pieces_of_isCharacter hp
    obtain ⟨pieces, hpieces, htail⟩ := ih hparts
    exact ⟨ps ++ pieces, hps.append hpieces, by rw [hjoin, htail]; rfl⟩

/-- The pieces of a string are joined to exactly the text that the string spells. -/
theorem joinPieces_eq_some_iff {body text : List Char} {pieces : List Piece}
    (hspells : SpellsPieces body pieces) : joinPieces pieces = some text ↔ Spells body text := by
  constructor
  · exact spells_of_joinPieces hspells
  · intro htext
    obtain ⟨ps, hps, hjoin⟩ := pieces_of_spells htext
    rw [hspells.unique hps, hjoin]

/-! ## Elements -/

/-- A piece is an element of a string, even half of a pair. -/
theorem isElement_of_isPiece {text : List Char} {p : Piece} (hp : IsPiece text p) :
    IsElement text := by
  cases hp with
  | plain hspace hquote hslash => exact .character (.plain hspace hquote hslash)
  | short hmem => exact .character (.short hmem)
  | @unit digits n hunit =>
    by_cases hhalf : 0xd800 ≤ n ∧ n < 0xe000
    · exact .surrogate hunit hhalf.1 hhalf.2
    · have hn := lt_of_isUnitNumber hunit
      have hvalid : n.isValidChar := by
        rcases Nat.lt_or_ge n 0xd800 with hlow | hhigh
        · exact .inl hlow
        · exact .inr ⟨by omega, by omega⟩
      have hvalue := toNat_ofNat_of_isValidChar hvalid
      exact .character (.unit (hvalue.symm ▸ hunit))

/-- An element of a string is made of pieces. -/
theorem pieces_of_isElement {text : List Char} (helement : IsElement text) :
    ∃ ps, SpellsPieces text ps := by
  cases helement with
  | character hc =>
    obtain ⟨ps, hps, -⟩ := pieces_of_isCharacter hc
    exact ⟨ps, hps⟩
  | surrogate hunit _ _ => exact ⟨_, (IsPiece.unit hunit).spells⟩

/-- A body is made of elements exactly when it has pieces. -/
theorem isElements_iff {body : List Char} :
    (∃ parts : List (List Char), body = parts.flatten ∧ ∀ p ∈ parts, IsElement p) ↔
      ∃ pieces, SpellsPieces body pieces := by
  constructor
  · rintro ⟨parts, rfl, hparts⟩
    induction parts with
    | nil => exact ⟨[], .nil⟩
    | cons p parts ih =>
      obtain ⟨hp, hparts⟩ := List.forall_mem_cons.1 hparts
      obtain ⟨ps, hps⟩ := pieces_of_isElement hp
      obtain ⟨pieces, hpieces⟩ := ih hparts
      exact ⟨ps ++ pieces, hps.append hpieces⟩
  · intro h
    obtain ⟨pieces, hpieces⟩ := h
    induction hpieces with
    | nil => exact ⟨[], rfl, by simp⟩
    | @cons text _ _ _ hp _ ih =>
      obtain ⟨parts, rfl, hparts⟩ := ih
      exact ⟨text :: parts, rfl, List.forall_mem_cons.2 ⟨isElement_of_isPiece hp, hparts⟩⟩

/-- A string has the text that its pieces are joined to. -/
theorem isString_iff {literal : List Char} {text : Option String} :
    IsString literal text ↔ ∃ body pieces, literal = '"' :: body ++ ['"'] ∧
      SpellsPieces body pieces ∧ text = (joinPieces pieces).map String.ofList := by
  have hjoined {body : List Char} {pieces : List Piece} (hspells : SpellsPieces body pieces)
      (s : String) : (joinPieces pieces).map String.ofList = some s ↔ Spells body s.toList := by
    rw [← joinPieces_eq_some_iff hspells, Option.map_eq_some_iff]
    constructor
    · rintro ⟨text, htext, rfl⟩
      rwa [String.toList_ofList]
    · intro htext
      exact ⟨_, htext, String.ofList_toList⟩
  constructor
  · intro h
    obtain ⟨body, rfl, helements, htext⟩ := h
    obtain ⟨pieces, hpieces⟩ := isElements_iff.1 helements
    refine ⟨body, pieces, rfl, hpieces, Option.ext fun s => ?_⟩
    rw [htext, hjoined hpieces]
  · rintro ⟨body, pieces, rfl, hpieces, rfl⟩
    exact ⟨body, rfl, isElements_iff.2 ⟨pieces, hpieces⟩, hjoined hpieces⟩

end TypeLint.Json
