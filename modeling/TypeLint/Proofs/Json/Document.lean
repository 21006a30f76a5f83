import TypeLint.Proofs.Json.Machine
import TypeLint.Proofs.Json.Scan

/-!
# Documents and their tokens

A document spells a value exactly when it is made of the tokens of the value, so reading a document
gives the value that the grammar says.

## Main statements

- `lexes_of_isValue` — a spelled value is made of its tokens
- `isValue_of_lexes` — the tokens of a value spell it
- `Value.read?_eq_some_iff` — reading a document
-/

namespace TypeLint.Json

/-! ## From documents to tokens -/

theorem endsNumber_blanks {blanks rest : List Char} (hblanks : IsBlanks blanks)
    (hrest : EndsNumber rest) : EndsNumber (blanks ++ rest) := by
  cases blanks with
  | nil => exact hrest
  | cons c blanks =>
    have hc : ∀ d ∈ [' ', '\t', '\n', '\r'], ¬ isNumberChar d := by
      simp only [List.forall_mem_cons, List.not_mem_nil, false_imp_iff, implies_true]
      decide
    intro d hd
    obtain rfl : c = d := by simpa using hd
    exact hc c (by simpa using hblanks c (by simp))

theorem endsNumber_cons {c : Char} (hc : isNumberChar c = false) (rest : List Char) :
    EndsNumber (c :: rest) := by
  intro d hd
  obtain rfl : c = d := by simpa using hd
  simp [hc]

mutual

/-- A spelled value is made of its tokens. -/
theorem lexes_of_isValue {text rest : List Char} {v : Value} {ts : List Token} :
    IsValue text v → EndsNumber rest → Lexes rest ts → Lexes (text ++ rest) (v.tokens ++ ts)
  | .null, _, hrest => hrest.token .null trivial
  | .truth, _, hrest => hrest.token .truth trivial
  | .falsehood, _, hrest => hrest.token .falsehood trivial
  | .number hnumeral, hends, hrest => hrest.token (.number hnumeral) hends
  | .string hstring, _, hrest => hrest.token (.string hstring) trivial
  | .emptyArray hblanks, _, hrest => by
    -- From right to left: what follows, the closing bracket, the blanks, the opening one.
    have hclose := (hrest.mark .closeBracket trivial).append_blanks hblanks
    have hopen := hclose.mark .openBracket trivial
    rw [Value.tokens, Value.itemTokens]
    simpa only [List.append_assoc, List.cons_append, List.nil_append] using hopen
  | .array hitems, _, hrest => by
    have hclose := hrest.mark .closeBracket trivial
    have hopen := (lexes_of_isItems hitems (endsNumber_cons rfl _) hclose).mark .openBracket trivial
    rw [Value.tokens]
    simpa only [List.append_assoc, List.cons_append, List.nil_append] using hopen
  | .emptyObject hblanks, _, hrest => by
    have hclose := (hrest.mark .closeBrace trivial).append_blanks hblanks
    have hopen := hclose.mark .openBrace trivial
    rw [Value.tokens, Value.fieldTokens]
    simpa only [List.append_assoc, List.cons_append, List.nil_append] using hopen
  | .object hfields, _, hrest => by
    have hclose := hrest.mark .closeBrace trivial
    have hopen := (lexes_of_isFields hfields (endsNumber_cons rfl _) hclose).mark .openBrace trivial
    rw [Value.tokens]
    simpa only [List.append_assoc, List.cons_append, List.nil_append] using hopen

/-- Spelled items are made of their tokens. -/
theorem lexes_of_isItems {text rest : List Char} {items : List Value} {ts : List Token} :
    IsItems text items → EndsNumber rest → Lexes rest ts →
      Lexes (text ++ rest) (Value.itemTokens items ++ ts)
  | .last hbefore hv hafter, hends, hrest => by
    -- A number ends where the blanks after it begin.
    have hvalue := lexes_of_isValue hv (endsNumber_blanks hafter hends) (hrest.append_blanks hafter)
    simpa only [List.append_assoc, Value.itemTokens] using hvalue.append_blanks hbefore
  | .more hbefore hv hafter hitems, hends, hrest => by
    have hcomma := (lexes_of_isItems hitems hends hrest).mark .comma trivial
    have hvalue := lexes_of_isValue hv (endsNumber_blanks hafter (endsNumber_cons rfl _))
      (hcomma.append_blanks hafter)
    rw [Value.itemTokens]
    · simpa only [List.append_assoc, List.cons_append, List.nil_append] using
        hvalue.append_blanks hbefore
    · rintro rfl
      cases hitems

/-- Spelled fields are made of their tokens. -/
theorem lexes_of_isFields {text rest : List Char} {fields : List (Option String × Value)}
    {ts : List Token} : IsFields text fields → EndsNumber rest → Lexes rest ts →
      Lexes (text ++ rest) (Value.fieldTokens fields ++ ts)
  | .last hfield, hends, hrest => lexes_of_isField hfield hends hrest
  | .more hfield hfields, hends, hrest => by
    have hcomma := (lexes_of_isFields hfields hends hrest).mark .comma trivial
    have hfirst := lexes_of_isField hfield (endsNumber_cons rfl _) hcomma
    rw [Value.fieldTokens]
    · simpa only [List.append_assoc, List.cons_append, List.nil_append] using hfirst
    · rintro rfl
      cases hfields

/-- A spelled field is made of its tokens. -/
theorem lexes_of_isField {text rest : List Char} {k : Option String} {v : Value}
    {ts : List Token} : IsField text k v → EndsNumber rest → Lexes rest ts →
      Lexes (text ++ rest) (.string k :: .colon :: v.tokens ++ ts)
  | .mk hbefore hkey hcolon hstart hv hafter, hends, hrest => by
    have hvalue := lexes_of_isValue hv (endsNumber_blanks hafter hends) (hrest.append_blanks hafter)
    have hmark := ((hvalue.append_blanks hstart).mark .colon trivial).append_blanks hcolon
    have hfield := (hmark.token (.string hkey) trivial).append_blanks hbefore
    simpa only [List.append_assoc, List.cons_append, List.nil_append] using hfield

end

/-! ## From tokens to documents -/

/-- The token is always the same character. -/
def IsMark (c : Char) (t : Token) : Prop :=
  ∀ spelling, SpellsToken spelling t → spelling = [c]

theorem isMark_openBracket : IsMark '[' .openBracket :=
  fun _ hspells => by cases hspells; rfl

theorem isMark_closeBracket : IsMark ']' .closeBracket :=
  fun _ hspells => by cases hspells; rfl

theorem isMark_openBrace : IsMark '{' .openBrace :=
  fun _ hspells => by cases hspells; rfl

theorem isMark_closeBrace : IsMark '}' .closeBrace :=
  fun _ hspells => by cases hspells; rfl

theorem isMark_comma : IsMark ',' .comma :=
  fun _ hspells => by cases hspells; rfl

theorem isMark_colon : IsMark ':' .colon :=
  fun _ hspells => by cases hspells; rfl

/-- A mark is in the text with some blanks in front of it. -/
theorem Lexes.unmark {text : List Char} {c : Char} {t : Token} {ts : List Token}
    (hmark : IsMark c t) (hlexes : Lexes text (t :: ts)) :
    ∃ blanks rest, text = blanks ++ c :: rest ∧ IsBlanks blanks ∧ Lexes rest ts := by
  obtain ⟨blanks, spelling, rest, rfl, hblanks, hspells, hrest⟩ := hlexes.uncons
  obtain rfl := hmark spelling hspells
  exact ⟨blanks, rest, rfl, hblanks, hrest⟩

/-- Wherever the tokens of the value come next, some blanks and then the value are spelled. -/
def IsSpelled (v : Value) : Prop :=
  ∀ text ts, Lexes text (v.tokens ++ ts) → ∃ before value rest, text = before ++ (value ++ rest) ∧
    IsBlanks before ∧ IsValue value v ∧ Lexes rest ts

/-- A value of one token is spelled like the token. -/
theorem isSpelled_of_token {t : Token} {v : Value} (htokens : v.tokens = [t])
    (hvalue : ∀ spelling, SpellsToken spelling t → IsValue spelling v) : IsSpelled v := by
  intro text ts hlexes
  rw [htokens] at hlexes
  obtain ⟨blanks, spelling, rest, rfl, hblanks, hspells, hrest⟩ := Lexes.uncons hlexes
  exact ⟨blanks, spelling, rest, rfl, hblanks, hvalue spelling hspells, hrest⟩

/-- An item of an array, up to the mark after it. -/
theorem IsSpelled.item {v : Value} (hv : IsSpelled v) {text : List Char} {c : Char} {t : Token}
    {ts : List Token} (hmark : IsMark c t) (hlexes : Lexes text (v.tokens ++ t :: ts)) :
    ∃ before value after rest, text = before ++ value ++ after ++ c :: rest ∧ IsBlanks before ∧
      IsValue value v ∧ IsBlanks after ∧ Lexes rest ts := by
  obtain ⟨before, value, rest, rfl, hbefore, hvalue, hrest⟩ := hv text _ hlexes
  obtain ⟨after, rest, rfl, hafter, hrest⟩ := hrest.unmark hmark
  exact ⟨before, value, after, rest, by simp, hbefore, hvalue, hafter, hrest⟩

/-- A field of an object, up to the mark after it. -/
theorem IsSpelled.field {v : Value} (hv : IsSpelled v) {k : Option String} {text : List Char}
    {c : Char} {t : Token} {ts : List Token} (hmark : IsMark c t)
    (hlexes : Lexes text (.string k :: .colon :: (v.tokens ++ t :: ts))) :
    ∃ field rest, text = field ++ c :: rest ∧ IsField field k v ∧ Lexes rest ts := by
  obtain ⟨before, key, rest, rfl, hbefore, hkey, hrest⟩ := hlexes.uncons
  obtain ⟨colon, rest, rfl, hcolon, hrest⟩ := hrest.unmark isMark_colon
  obtain ⟨start, value, after, rest, rfl, hstart, hvalue, hafter, hrest⟩ := hv.item hmark hrest
  cases hkey with
  | string hkey =>
    exact ⟨_, rest, by simp, .mk hbefore hkey hcolon hstart hvalue hafter, hrest⟩

mutual

/-- The tokens of a value spell it, behind some blanks. -/
theorem isSpelled : (v : Value) → IsSpelled v
  | .null => isSpelled_of_token rfl fun _ hspells => by
    cases hspells
    exact .null
  | .bool b => isSpelled_of_token rfl fun _ hspells => by
    cases hspells
    · exact .truth
    · exact .falsehood
  | .number literal => isSpelled_of_token rfl fun _ hspells => by
    cases hspells with
    | number hnumeral => exact .number hnumeral
  | .string s => isSpelled_of_token rfl fun _ hspells => by
    cases hspells with
    | string hstring => exact .string hstring
  | .array [] => fun _ _ hlexes => by
    obtain ⟨before, rest, rfl, hbefore, hrest⟩ := hlexes.unmark isMark_openBracket
    obtain ⟨blanks, rest, rfl, hblanks, hrest⟩ := hrest.unmark isMark_closeBracket
    exact ⟨before, _, rest, by simp, hbefore, .emptyArray hblanks, hrest⟩
  | .array (v :: items) => fun _ _ hlexes => by
    rw [Value.tokens, List.append_assoc, List.cons_append] at hlexes
    obtain ⟨before, rest, rfl, hbefore, hrest⟩ := hlexes.unmark isMark_openBracket
    obtain ⟨body, rest, rfl, hitems, hrest⟩ := isItems_of_lexes (v :: items) (by simp) _ _ hrest
    exact ⟨before, _, rest, by simp, hbefore, .array hitems, hrest⟩
  | .object [] => fun _ _ hlexes => by
    obtain ⟨before, rest, rfl, hbefore, hrest⟩ := hlexes.unmark isMark_openBrace
    obtain ⟨blanks, rest, rfl, hblanks, hrest⟩ := hrest.unmark isMark_closeBrace
    exact ⟨before, _, rest, by simp, hbefore, .emptyObject hblanks, hrest⟩
  | .object (kv :: fields) => fun _ _ hlexes => by
    rw [Value.tokens, List.append_assoc, List.cons_append] at hlexes
    obtain ⟨before, rest, rfl, hbefore, hrest⟩ := hlexes.unmark isMark_openBrace
    obtain ⟨body, rest, rfl, hfields, hrest⟩ := isFields_of_lexes (kv :: fields) (by simp) _ _ hrest
    exact ⟨before, _, rest, by simp, hbefore, .object hfields, hrest⟩

/-- The tokens of items spell them, up to the closing bracket. -/
theorem isItems_of_lexes : (items : List Value) → items ≠ [] → ∀ text ts,
    Lexes text (Value.itemTokens items ++ .closeBracket :: ts) →
      ∃ body rest, text = body ++ ']' :: rest ∧ IsItems body items ∧ Lexes rest ts
  | [], hne, _, _, _ => absurd rfl hne
  | [v], _, _, _, hlexes => by
    obtain ⟨before, value, after, rest, rfl, hbefore, hvalue, hafter, hrest⟩ :=
      (isSpelled v).item isMark_closeBracket hlexes
    exact ⟨_, rest, rfl, .last hbefore hvalue hafter, hrest⟩
  | v :: w :: items, _, _, _, hlexes => by
    rw [Value.itemTokens, List.append_assoc] at hlexes
    · obtain ⟨before, value, after, rest, rfl, hbefore, hvalue, hafter, hrest⟩ :=
        (isSpelled v).item isMark_comma hlexes
      obtain ⟨body, rest, rfl, hitems, hrest⟩ := isItems_of_lexes (w :: items) (by simp) _ _ hrest
      exact ⟨_, rest, by simp, .more hbefore hvalue hafter hitems, hrest⟩
    · simp

/-- The tokens of fields spell them, up to the closing brace. -/
theorem isFields_of_lexes : (fields : List (Option String × Value)) → fields ≠ [] → ∀ text ts,
    Lexes text (Value.fieldTokens fields ++ .closeBrace :: ts) →
      ∃ body rest, text = body ++ '}' :: rest ∧ IsFields body fields ∧ Lexes rest ts
  | [], hne, _, _, _ => absurd rfl hne
  | [(k, v)], _, _, _, hlexes => by
    obtain ⟨field, rest, rfl, hfield, hrest⟩ :=
      (isSpelled v).field isMark_closeBrace hlexes
    exact ⟨_, rest, rfl, .last hfield, hrest⟩
  | (k, v) :: kw :: fields, _, _, _, hlexes => by
    rw [Value.fieldTokens, List.append_assoc] at hlexes
    · obtain ⟨field, rest, rfl, hfield, hrest⟩ :=
        (isSpelled v).field isMark_comma hlexes
      obtain ⟨body, rest, rfl, hfields, hrest⟩ :=
        isFields_of_lexes (kw :: fields) (by simp) _ _ hrest
      exact ⟨_, rest, by simp, .more hfield hfields, hrest⟩
    · simp

end

/-- A text is made of the tokens of a value exactly when it is a document that spells the value. -/
theorem lexes_tokens_iff {text : List Char} {v : Value} :
    Lexes text v.tokens ↔ IsDocument text v := by
  constructor
  · intro hlexes
    -- The tokens of the value are followed by none.
    rw [← List.append_nil v.tokens] at hlexes
    obtain ⟨before, value, rest, rfl, hbefore, hvalue, hrest⟩ := isSpelled v _ _ hlexes
    cases hrest with
    | nil hafter => exact ⟨before, value, rest, by simp, hbefore, hvalue, hafter⟩
  · intro h
    obtain ⟨before, value, after, rfl, hbefore, hvalue, hafter⟩ := h
    have hends : EndsNumber (after ++ []) := endsNumber_blanks hafter (by simp [EndsNumber])
    rw [List.append_nil] at hends
    have hlexes := (lexes_of_isValue hvalue hends (.nil hafter)).append_blanks hbefore
    simpa using hlexes

/-- A document is read as the value that it spells, and nothing else is read. -/
theorem Value.read?_eq_some_iff {text : List Char} {v : Value} :
    read? text = some v ↔ IsDocument text v := by
  rw [← lexes_tokens_iff, ← scan_eq_some_iff, read?]
  constructor
  · intro h
    split at h
    · rename_i tokens hscan
      rw [hscan, ofTokens?_eq_some_iff.1 h]
    · simp at h
  · intro hscan
    simp only [hscan, ofTokens?_eq_some_iff]

end TypeLint.Json
