import TypeLint.Proofs.Json.Number
import TypeLint.Proofs.Json.Quoted

/-!
# Scanning documents

A text is scanned into tokens exactly when it is made of their spellings, with blanks around them.
Numbers are the only tokens that could go on, so no character of numbers may follow one.

## Main definitions

- `SpellsToken` — the spellings of a token
- `Lexes` — a text is made of the spellings of tokens

## Main statements

- `next_eq_some_iff` — the token at the head of a text
- `scan_eq_some_iff` — all tokens of a text
-/

namespace TypeLint.Json

open Text

/-! ## Tokens in a text -/

/-- The spelling of a token. -/
inductive SpellsToken : List Char → Token → Prop
  | openBrace : SpellsToken ['{'] .openBrace
  | closeBrace : SpellsToken ['}'] .closeBrace
  | openBracket : SpellsToken ['['] .openBracket
  | closeBracket : SpellsToken [']'] .closeBracket
  | comma : SpellsToken [','] .comma
  | colon : SpellsToken [':'] .colon
  | null : SpellsToken ['n', 'u', 'l', 'l'] .null
  | truth : SpellsToken ['t', 'r', 'u', 'e'] (.bool true)
  | falsehood : SpellsToken ['f', 'a', 'l', 's', 'e'] (.bool false)
  | number {literal : String} :
      IsNumeral literal.toList → SpellsToken literal.toList (.number literal)
  | string {literal : List Char} {text : Option String} :
      IsString literal text → SpellsToken literal (.string text)

/-- The text does not go on with a number. -/
def EndsNumber (text : List Char) : Prop :=
  ∀ c ∈ text.head?, ¬ isNumberChar c

/-- The token is not changed by the text right after it. -/
def Token.EndsBefore (text : List Char) : Token → Prop
  | number _ => EndsNumber text
  | _ => True

/-- The text is made of the spellings of the tokens, with blanks around them. -/
inductive Lexes : List Char → List Token → Prop
  | nil {blanks : List Char} : IsBlanks blanks → Lexes blanks []
  | cons {blanks spelling rest : List Char} {t : Token} {ts : List Token} :
      IsBlanks blanks → SpellsToken spelling t → t.EndsBefore rest → Lexes rest ts →
      Lexes (blanks ++ spelling ++ rest) (t :: ts)

theorem isBlank_iff {c : Char} : isBlank c = true ↔ c = ' ' ∨ c = '\t' ∨ c = '\n' ∨ c = '\r' := by
  simp [isBlank, or_assoc]

/-- Blanks in front of a text add no token. -/
theorem Lexes.append_blanks {blanks text : List Char} {ts : List Token} (hlexes : Lexes text ts)
    (hblanks : IsBlanks blanks) : Lexes (blanks ++ text) ts := by
  cases hlexes with
  | nil hrest => exact .nil (List.forall_mem_append.2 ⟨hblanks, hrest⟩)
  | cons hrest hspells hends hlexes =>
    have hcons := Lexes.cons (List.forall_mem_append.2 ⟨hblanks, hrest⟩) hspells hends hlexes
    simpa only [List.append_assoc] using hcons

theorem isBlanks_nil : IsBlanks [] := by
  simp [IsBlanks]

theorem Lexes.token {spelling rest : List Char} {t : Token} {ts : List Token}
    (hlexes : Lexes rest ts) (hspells : SpellsToken spelling t) (hends : t.EndsBefore rest) :
    Lexes (spelling ++ rest) (t :: ts) :=
  .cons isBlanks_nil hspells hends hlexes

/-- A token of one character. -/
theorem Lexes.mark {c : Char} {rest : List Char} {t : Token} {ts : List Token}
    (hlexes : Lexes rest ts) (hspells : SpellsToken [c] t) (hends : t.EndsBefore rest) :
    Lexes (c :: rest) (t :: ts) :=
  hlexes.token hspells hends

/-- The first token with the blanks in front of it. -/
theorem Lexes.uncons {text : List Char} {t : Token} {ts : List Token}
    (hlexes : Lexes text (t :: ts)) :
    ∃ blanks spelling rest, text = blanks ++ (spelling ++ rest) ∧ IsBlanks blanks ∧
      SpellsToken spelling t ∧ Lexes rest ts := by
  cases hlexes with
  | cons hblanks hspells _ hlexes => exact ⟨_, _, _, List.append_assoc .., hblanks, hspells, hlexes⟩

/-- No token starts with a blank. -/
theorem head_of_spellsToken {spelling : List Char} {t : Token} (hspells : SpellsToken spelling t) :
    ∃ c rest, spelling = c :: rest ∧ isBlank c = false := by
  cases hspells with
  | number hnumeral =>
    obtain ⟨c, rest, hliteral, hc⟩ := head_of_isNumeral hnumeral
    refine ⟨c, rest, hliteral, ?_⟩
    rw [Bool.eq_false_iff, Ne, isBlank_iff]
    rintro (rfl | rfl | rfl | rfl) <;> exact absurd hc (by decide)
  | string hstring =>
    obtain ⟨body, rfl, -⟩ := hstring
    exact ⟨'"', _, rfl, by decide⟩
  | _ => exact ⟨_, _, rfl, by decide⟩

/-! ## One token -/

/-- A number is as long as it can be. -/
theorem next_number {c : Char} (hc : c = '-' ∨ c.isDigit) (text : List Char) :
    Token.next c text =
      if isNumber (c :: text.takeWhile isNumberChar) then
        some (.number (String.ofList (c :: text.takeWhile isNumberChar)),
          text.dropWhile isNumberChar)
      else none := by
  simp only [Token.next]
  split
  case h_11 => rfl
  -- No other token starts with a sign or a digit.
  all_goals exact absurd hc (by decide)

theorem spellsToken_number {text : List Char} (hnumber : isNumber text = true) :
    SpellsToken text (.number (String.ofList text)) := by
  have hspells := @SpellsToken.number (String.ofList text)
  rw [String.toList_ofList] at hspells
  exact hspells (isNumber_iff.1 hnumber)

theorem endsNumber_dropWhile (text : List Char) : EndsNumber (text.dropWhile isNumberChar) := by
  intro c hc
  have hhead := List.head?_dropWhile_not isNumberChar text
  rw [hc] at hhead
  simpa using hhead

/-- The token that is found is spelled at the head of the text, and it ends there. -/
theorem spells_of_next {c : Char} {text rest : List Char} {t : Token}
    (h : Token.next c text = some (t, rest)) :
    ∃ spelling, c :: text = spelling ++ rest ∧ SpellsToken spelling t ∧ t.EndsBefore rest := by
  unfold Token.next at h
  split at h
  case h_10 =>
    -- A string, up to its closing quote.
    obtain ⟨⟨pieces, tail⟩, hread, heq⟩ := Option.map_eq_some_iff.1 h
    obtain ⟨rfl, rfl⟩ := Prod.mk.inj heq
    obtain ⟨body, rfl, hpieces⟩ := readPieces_eq_some_iff.1 hread
    refine ⟨'"' :: body ++ ['"'], by simp, .string ?_, trivial⟩
    exact isString_iff.2 ⟨body, pieces, rfl, hpieces, rfl⟩
  case h_11 =>
    -- A number, as long as it can be.
    dsimp only at h
    split at h
    · rename_i hnumber
      obtain ⟨rfl, rfl⟩ := Prod.mk.inj (Option.some.inj h)
      refine ⟨c :: text.takeWhile isNumberChar, ?_, spellsToken_number hnumber, ?_⟩
      · rw [List.cons_append, List.takeWhile_append_dropWhile]
      · exact endsNumber_dropWhile text
    · simp at h
  all_goals
    obtain ⟨rfl, rfl⟩ := Prod.mk.inj (Option.some.inj h)
  · exact ⟨_, rfl, .openBrace, trivial⟩
  · exact ⟨_, rfl, .closeBrace, trivial⟩
  · exact ⟨_, rfl, .openBracket, trivial⟩
  · exact ⟨_, rfl, .closeBracket, trivial⟩
  · exact ⟨_, rfl, .comma, trivial⟩
  · exact ⟨_, rfl, .colon, trivial⟩
  · exact ⟨_, rfl, .null, trivial⟩
  · exact ⟨_, rfl, .truth, trivial⟩
  · exact ⟨_, rfl, .falsehood, trivial⟩

/-- A spelled token is found whole in front of a text that does not change it. -/
theorem next_of_spells {c : Char} {spelling text rest : List Char} {t : Token}
    (htext : c :: text = spelling ++ rest) (hspells : SpellsToken spelling t)
    (hends : t.EndsBefore rest) : Token.next c text = some (t, rest) := by
  cases hspells with
  | @number literal hnumeral =>
    obtain ⟨d, digits, hliteral, hd⟩ := head_of_isNumeral hnumeral
    have hchars := isNumberChar_of_isNumeral hnumeral
    rw [hliteral] at htext hchars
    obtain ⟨rfl, rfl⟩ := List.cons.inj htext
    have hrun := (List.forall_mem_cons.1 hchars).2
    have hnumber : isNumber (c :: digits) = true := isNumber_iff.2 (hliteral ▸ hnumeral)
    rw [next_number hd, List.append_eq, takeWhile_run hrun hends, dropWhile_run hrun hends,
      if_pos hnumber, ← hliteral, String.ofList_toList]
  | string hstring =>
    obtain ⟨body, pieces, rfl, hpieces, rfl⟩ := isString_iff.1 hstring
    obtain ⟨rfl, rfl⟩ := List.cons.inj htext
    have hread : readPieces (body ++ ['"'] ++ rest) = some (pieces, rest) :=
      readPieces_eq_some_iff.2 ⟨body, by simp, hpieces⟩
    change (readPieces (body ++ ['"'] ++ rest)).map _ = _
    rw [hread]
    rfl
  | _ =>
    obtain ⟨rfl, rfl⟩ := List.cons.inj htext
    rfl

/-- A token is found exactly where one is spelled and ends. -/
theorem next_eq_some_iff {c : Char} {text rest : List Char} {t : Token} :
    Token.next c text = some (t, rest) ↔
      ∃ spelling, c :: text = spelling ++ rest ∧ SpellsToken spelling t ∧ t.EndsBefore rest := by
  refine ⟨spells_of_next, ?_⟩
  intro h
  obtain ⟨spelling, htext, hspells, hends⟩ := h
  exact next_of_spells htext hspells hends

/-! ## All tokens -/

/-- Blanks are passed over. -/
theorem scan_blanks {blanks : List Char} (hblanks : IsBlanks blanks) (text : List Char) :
    Token.scan (blanks ++ text) = Token.scan text := by
  induction blanks with
  | nil => rfl
  | cons c blanks ih =>
    obtain ⟨hc, hblanks⟩ := List.forall_mem_cons.1 hblanks
    rw [List.cons_append, Token.scan, if_pos (isBlank_iff.2 hc), ih hblanks]

theorem scan_cons {c : Char} {text rest : List Char} {t : Token} (hblank : isBlank c = false)
    (hnext : Token.next c text = some (t, rest)) :
    Token.scan (c :: text) = (Token.scan rest).map (t :: ·) := by
  rw [Token.scan, if_neg (by simp [hblank])]
  split
  · simp_all
  · simp_all

/-- A text is scanned exactly into the tokens that it is made of. -/
theorem scan_eq_some_iff {text : List Char} {ts : List Token} :
    Token.scan text = some ts ↔ Lexes text ts := by
  constructor
  · intro h
    fun_induction Token.scan text generalizing ts with
    | case1 =>
      cases h
      exact .nil isBlanks_nil
    | case2 c text hblank ih =>
      have hblanks : IsBlanks [c] := by
        simpa [IsBlanks] using isBlank_iff.1 hblank
      exact (ih h).append_blanks hblanks
    | case3 => simp at h
    | case4 c text _ t rest hnext ih =>
      obtain ⟨tail, htail, rfl⟩ := Option.map_eq_some_iff.1 h
      obtain ⟨spelling, htext, hspells, hends⟩ := next_eq_some_iff.1 hnext
      rw [htext]
      exact (ih htail).token hspells hends
  · intro hlexes
    induction hlexes with
    | nil hblanks =>
      have hscan := scan_blanks hblanks []
      rwa [List.append_nil, Token.scan] at hscan
    | @cons blanks spelling rest t ts hblanks hspells hends _ ih =>
      obtain ⟨c, text, rfl, hblank⟩ := head_of_spellsToken hspells
      have hnext : Token.next c (text ++ rest) = some (t, rest) :=
        next_eq_some_iff.2 ⟨_, rfl, hspells, hends⟩
      rw [List.append_assoc, scan_blanks hblanks, List.cons_append, scan_cons hblank hnext, ih]
      rfl

end TypeLint.Json
