import TypeLint.Proofs.Snapshot.Quoted

/-!
# The written layout is a spelling

The writer puts tokens between line breaks, indentation and spaces. Each token is written the way
the grammar spells it, and the layout is made of gaps, so a written value spells the value. The same
goes for any other blanks in the place of the line breaks and spaces.

## Main statements

- `spellsTokens_of_laysOut` — marks laid out with any blanks spell their tokens
- `spellsValue_of_writable` — the tokens of a written value spell it
- `spellsFile_of_laysOut` — a value laid out with any blanks
-/

namespace TypeLint.Snapshot

open Text

/-! ## Strings -/

theorem shortEscape?_eq_some {e c : Char} (hescape : shortEscape? c = some e) :
    (e, c) ∈ shortEscapes := by
  simp only [shortEscape?] at hescape
  split at hescape <;> cases hescape <;> decide

/-- An escaped character is spelled by its escape. -/
theorem spellsCharacter_escape (numbered : Char → Bool) (c : Char) :
    SpellsCharacter (escape numbered c) c := by
  simp only [escape]
  split
  · rename_i e hescape
    exact .short (shortEscape?_eq_some hescape)
  · rename_i hescape
    split
    · -- The number of any character has a digit.
      have hpos : 1 ≤ (hex c.toNat).length := Nat.length_toDigits_pos
      exact .braced hpos (length_hex_toNat_le c) (hex_spec c.toNat)
    · refine .plain ?_ ?_
      · rintro rfl
        simp [shortEscape?] at hescape
      · rintro rfl
        simp [shortEscape?] at hescape

/-- A quoted text is spelled by its quotation. -/
theorem spellsText_quote (numbered : Char → Bool) (s : String) :
    SpellsText (quote numbered s) s.toList := by
  have hquoted := SpellsText.quoted (s.toList.map fun c => (escape numbered c, c)) <| by
    intro p hp
    obtain ⟨c, -, rfl⟩ := List.mem_map.1 hp
    exact spellsCharacter_escape numbered c
  simpa [quote, List.flatMap_map, Function.comp_def] using hquoted

/-! ## Gaps -/

theorem IsGap.append {gap rest : List UInt8} (hgap : IsGap gap) (hrest : IsGap rest) :
    IsGap (gap ++ rest) := by
  induction hgap with
  | nil => exact hrest
  | blank hb _ ih => exact .blank hb ih
  | line hline _ ih =>
    rw [List.append_assoc]
    exact .line hline ih
  | block hblock _ ih =>
    rw [List.append_assoc]
    exact .block hblock ih

/-- A gap in front of a file adds no token. -/
theorem SpellsTokens.append_gap {gap file : List UInt8} {tokens : List Token} (hgap : IsGap gap)
    (htokens : SpellsTokens file tokens) : SpellsTokens (gap ++ file) tokens := by
  cases htokens with
  | nil hlast =>
    rcases hlast with hrest | ⟨rest, comment, rfl, hrest, hline⟩
    · exact .nil (.inl (hgap.append hrest))
    · exact .nil (.inr ⟨gap ++ rest, comment, by simp, hgap.append hrest, hline⟩)
  | cons hrest hspells hends htokens =>
    have hcons := SpellsTokens.cons (hgap.append hrest) hspells hends htokens
    simpa only [List.append_assoc] using hcons

/-- A blank character. -/
def IsBlankChar (c : Char) : Prop :=
  c = ' ' ∨ c = '\t' ∨ c = '\n' ∨ c = '\r'

theorem isGap_of_blanks {blanks : List Char} (hblanks : ∀ c ∈ blanks, IsBlankChar c) :
    IsGap (utf8 (String.ofList blanks)) := by
  rw [utf8_ofList]
  induction blanks with
  | nil => exact .nil
  | cons c blanks ih =>
    obtain ⟨hc, hblanks⟩ := List.forall_mem_cons.1 hblanks
    have hascii : c.toNat < 128 := by
      rcases hc with rfl | rfl | rfl | rfl <;> decide
    rw [List.flatMap_cons, utf8EncodeChar_ascii hascii, List.singleton_append]
    refine .blank ?_ (ih hblanks)
    rwa [glyph_toUInt8 hascii]

/-! ## Marks -/

/-- The token of a mark. -/
def Mark.token? : Mark → Option Token
  | token t => some t
  | _ => none

/-- The tokens of marks. -/
def tokensOf (ms : List Mark) : List Token :=
  ms.filterMap Mark.token?

@[simp] theorem tokensOf_nil : tokensOf [] = [] := rfl

@[simp] theorem tokensOf_token (t : Token) (ms : List Mark) :
    tokensOf (.token t :: ms) = t :: tokensOf ms := rfl

@[simp] theorem tokensOf_space (ms : List Mark) : tokensOf (.space :: ms) = tokensOf ms := rfl

@[simp] theorem tokensOf_newline (depth : Nat) (ms : List Mark) :
    tokensOf (.newline depth :: ms) = tokensOf ms := rfl

@[simp] theorem tokensOf_append (front back : List Mark) :
    tokensOf (front ++ back) = tokensOf front ++ tokensOf back :=
  List.filterMap_append

/-- A text lays out marks when it holds the spellings of the tokens, with some blanks for each of
    the other marks. -/
inductive LaysOut (numbered : Char → Bool) : List Mark → List Char → Prop
  | nil : LaysOut numbered [] []
  | token {t : Token} {ms : List Mark} {text : List Char} :
      LaysOut numbered ms text →
      LaysOut numbered (.token t :: ms) (t.spelling numbered ++ text)
  | gap {m : Mark} {ms : List Mark} {blanks text : List Char} :
      m.token? = none → blanks ≠ [] → (∀ c ∈ blanks, IsBlankChar c) → LaysOut numbered ms text →
      LaysOut numbered (m :: ms) (blanks ++ text)

/-- Marks are laid out by how they are written. -/
theorem laysOut_spelling (numbered : Char → Bool) (ms : List Mark) :
    LaysOut numbered ms (ms.flatMap (Mark.spelling numbered)) := by
  induction ms with
  | nil => exact .nil
  | cons m ms ih =>
    rw [List.flatMap_cons]
    cases m with
    | token t => exact .token ih
    | space => exact .gap rfl (by simp [Mark.spelling]) (by simp [Mark.spelling, IsBlankChar]) ih
    | newline depth =>
      refine .gap rfl (by simp [Mark.spelling]) (fun c hc => ?_) ih
      rcases List.mem_cons.1 hc with rfl | hc
      · exact .inr (.inr (.inl rfl))
      · exact .inl (List.eq_of_mem_replicate hc)

/-- A token that could run on into what follows. -/
def Token.RunsOn : Token → Prop
  | word .. | number _ | openRound => True
  | _ => False

/-- A mark into which no token runs on. -/
def Mark.Parts : Mark → Prop
  | token t => t = .comma ∨ t = .colon
  | _ => True

/-- Each token is written as the grammar spells it, and none runs on into the next mark. -/
def Spaced (numbered : Char → Bool) : List Mark → Prop
  | [] => True
  | .token t :: ms => SpellsToken (utf8 (String.ofList (t.spelling numbered))) t ∧
      (t.RunsOn → ∀ m ∈ ms.head?, m.Parts) ∧ Spaced numbered ms
  | _ :: ms => Spaced numbered ms

theorem Spaced.tail {numbered : Char → Bool} {m : Mark} {ms : List Mark}
    (hspaced : Spaced numbered (m :: ms)) : Spaced numbered ms := by
  cases m with
  | token t => exact hspaced.2.2
  | _ => exact hspaced

/-- Marks that are spaced can be cut anywhere. -/
theorem Spaced.of_append {numbered : Char → Bool} {front back : List Mark}
    (hspaced : Spaced numbered (front ++ back)) :
    Spaced numbered front ∧ Spaced numbered back := by
  induction front with
  | nil => exact ⟨trivial, hspaced⟩
  | cons m front ih =>
    obtain ⟨hfront, hback⟩ := ih hspaced.tail
    refine ⟨?_, hback⟩
    cases m with
    | token t =>
      refine ⟨hspaced.1, fun hruns m hm => hspaced.2.1 hruns m ?_, hfront⟩
      exact List.mem_head?_append_of_mem_head? hm
    | _ => exact hfront

/-- The characters that marks between two tokens start with. -/
def partings : List Char :=
  [' ', '\t', '\n', '\r', ',', ':']

/-- What is laid out after a token that could run on starts with a parting. -/
theorem mem_partings_of_laysOut {numbered : Char → Bool} {ms : List Mark} {text : List Char}
    (hlays : LaysOut numbered ms text) (hparts : ∀ m ∈ ms.head?, m.Parts) {b : UInt8}
    (hb : b ∈ (utf8 (String.ofList text)).head?) : ∃ c ∈ partings, c.toUInt8 = b := by
  have hfirst : ∀ c ∈ text.head?, c ∈ partings := by
    cases hlays with
    | nil => simp
    | @token t _ text =>
      rcases hparts _ rfl with rfl | rfl <;> simp [Token.spelling, partings]
    | @gap _ _ blanks text _ hne hblanks =>
      cases blanks with
      | nil => exact absurd rfl hne
      | cons c blanks =>
        rintro d hd
        obtain rfl : c = d := by simpa using hd
        rcases hblanks c (by simp) with rfl | rfl | rfl | rfl <;> decide
  cases text with
  | nil =>
    rw [utf8_ofList] at hb
    simp at hb
  | cons c text =>
    have hc : c ∈ partings := hfirst c rfl
    have hascii : ∀ d ∈ partings, d.toNat < 128 := by simp [partings]
    rw [utf8_ofList, List.flatMap_cons, utf8EncodeChar_ascii (hascii c hc)] at hb
    exact ⟨c, hc, by simpa using hb⟩

/-- A token ends before marks that part it from what comes next. -/
theorem endsBefore_of_laysOut {numbered : Char → Bool} {t : Token} {ms : List Mark}
    {text : List Char} (hlays : LaysOut numbered ms text)
    (hparts : t.RunsOn → ∀ m ∈ ms.head?, m.Parts) :
    t.EndsBefore (utf8 (String.ofList text)) := by
  have hends : ∀ c ∈ partings, (¬ IsRunChar (glyph c.toUInt8) ∧ glyph c.toUInt8 ≠ '"' ∧
      glyph c.toUInt8 ≠ '#') ∧ glyph c.toUInt8 ≠ ')' := by
    simp only [partings, List.forall_mem_cons, List.not_mem_nil, false_imp_iff, implies_true]
    decide
  have hfirst (hruns : t.RunsOn) {b : UInt8} (hb : b ∈ (utf8 (String.ofList text)).head?) :
      (¬ IsRunChar (glyph b) ∧ glyph b ≠ '"' ∧ glyph b ≠ '#') ∧ glyph b ≠ ')' := by
    obtain ⟨c, hc, rfl⟩ := mem_partings_of_laysOut hlays (hparts hruns) hb
    exact hends c hc
  cases t with
  | word name raw => exact fun b hb => (hfirst trivial hb).1
  | number literal => exact fun b hb => (hfirst trivial hb).1
  | openRound => exact fun b hb => (hfirst trivial hb).2
  | _ => trivial

/-- Marks laid out with any blanks spell their tokens. -/
theorem spellsTokens_of_laysOut {numbered : Char → Bool} {ms : List Mark} {text : List Char}
    (hlays : LaysOut numbered ms text) (hspaced : Spaced numbered ms) :
    SpellsTokens (utf8 (String.ofList text)) (tokensOf ms) := by
  induction hlays with
  | nil => exact .nil (.inl .nil)
  | @token t ms text hlays ih =>
    obtain ⟨hspells, hparts, hspaced⟩ := hspaced
    have hcons := SpellsTokens.cons .nil hspells (endsBefore_of_laysOut hlays hparts) (ih hspaced)
    rw [utf8_ofList_append]
    exact hcons
  | @gap m ms blanks text hm _ hblanks _ ih =>
    have htokens : tokensOf (m :: ms) = tokensOf ms := List.filterMap_cons_none hm
    rw [utf8_ofList_append, htokens]
    refine .append_gap (isGap_of_blanks hblanks) (ih ?_)
    cases m with
    | token t => simp [Mark.token?] at hm
    | _ => exact hspaced

/-! ## Written values -/

/-- A word that is written plainly and stands for itself. -/
def IsPlainWord (name : String) : Prop :=
  IsWord name ∧ name ∉ reservedWords

mutual

/-- The values that a schema writes: texts, truth values and words, and lists and records of
    them. -/
inductive IsWritable : Value → Prop
  | text {s : String} : IsWritable (.text s)
  | bool {b : Bool} : IsWritable (.bool b)
  | word {name : String} : IsPlainWord name → IsWritable (.word name)
  | list {items : List Value} : AreWritable items → IsWritable (.list items)
  | record {fields : List (String × Value)} :
      fields ≠ [] → AreWritableFields fields → IsWritable (.record none fields)

/-- The items are all writable. -/
inductive AreWritable : List Value → Prop
  | nil : AreWritable []
  | cons {v : Value} {items : List Value} :
      IsWritable v → AreWritable items → AreWritable (v :: items)

/-- The fields all have plain names and writable values. -/
inductive AreWritableFields : List (String × Value) → Prop
  | nil : AreWritableFields []
  | cons {f : String} {v : Value} {fields : List (String × Value)} :
      IsWord f → IsWritable v → AreWritableFields fields → AreWritableFields ((f, v) :: fields)

end

section

variable {numbered : Char → Bool}

/-- A plain word before a mark that parts it from what follows. -/
theorem spaced_word {name : String} {rest : List Mark} (hname : IsWord name)
    (hparts : ∀ m ∈ rest.head?, m.Parts) (hspaced : Spaced numbered rest) :
    Spaced numbered (.token (.word name false) :: rest) := by
  refine ⟨?_, fun _ => hparts, hspaced⟩
  rw [show Token.spelling numbered (.word name false) = name.toList from rfl, String.ofList_toList]
  exact .word hname

/-- The marks of fields start on a line of their own, and so does what follows if there are none. -/
theorem parts_head_fieldMarks (depth : Nat) (fields : List (String × Value)) {d : Nat}
    {rest : List Mark} :
    ∀ m ∈ (Value.fieldMarks depth fields ++ .newline d :: rest).head?, m.Parts := by
  cases fields <;> simp [Value.fieldMarks, Mark.Parts]

mutual

/-- The marks of a value are spaced. -/
theorem spaced_of_writable {v : Value} {rest : List Mark} :
    IsWritable v → ∀ depth, (∀ m ∈ rest.head?, m.Parts) → Spaced numbered rest →
      Spaced numbered (v.marks depth ++ rest)
  | .text, _, _, hspaced =>
    ⟨.text (spellsText_quote numbered _), fun hruns => absurd hruns id, hspaced⟩
  | .bool (b := b), _, hparts, hspaced => by
    cases b with
    | false => exact spaced_word (by decide) hparts hspaced
    | true => exact spaced_word (by decide) hparts hspaced
  | .word hname, _, hparts, hspaced => spaced_word hname.1 hparts hspaced
  | .list .nil, _, _, hspaced =>
    ⟨.openSquare, fun hruns => absurd hruns id, .closeSquare, fun hruns => absurd hruns id, hspaced⟩
  | .list (.cons hv hitems), depth, _, hspaced => by
    rw [Value.marks, List.cons_append, List.cons_append, List.append_assoc]
    · exact ⟨.openSquare, fun hruns => absurd hruns id, spaced_of_writables (.cons hv hitems) _
        ⟨.closeSquare, fun hruns => absurd hruns id, hspaced⟩⟩
    · simp
  | .record _ hfields, depth, _, hspaced => by
    rw [Value.marks, List.append_assoc, List.cons_append, List.append_assoc]
    exact ⟨.openRound, fun _ => parts_head_fieldMarks _ _, spaced_of_writableFields hfields _
      ⟨.closeRound, fun hruns => absurd hruns id, hspaced⟩⟩

theorem spaced_of_writables {items : List Value} {rest : List Mark} :
    AreWritable items → ∀ depth, Spaced numbered rest →
      Spaced numbered (Value.itemMarks depth items ++ rest)
  | .nil, _, hspaced => hspaced
  | .cons hv hitems, depth, hspaced => by
    rw [Value.itemMarks, List.append_assoc, List.cons_append, List.cons_append]
    exact spaced_of_writable hv depth (by simp [Mark.Parts])
      ⟨.comma, fun hruns => absurd hruns id, spaced_of_writables hitems depth hspaced⟩

theorem spaced_of_writableFields {fields : List (String × Value)} {rest : List Mark} :
    AreWritableFields fields → ∀ depth, Spaced numbered rest →
      Spaced numbered (Value.fieldMarks depth fields ++ rest)
  | .nil, _, hspaced => hspaced
  | .cons hf hv hfields, depth, hspaced => by
    rw [Value.fieldMarks, List.append_assoc, List.cons_append, List.cons_append, List.cons_append,
      List.cons_append, List.cons_append]
    refine spaced_word hf (by simp [Mark.Parts]) ⟨.colon, fun hruns => absurd hruns id, ?_⟩
    exact spaced_of_writable hv depth (by simp [Mark.Parts])
      ⟨.comma, fun hruns => absurd hruns id, spaced_of_writableFields hfields depth hspaced⟩

end

end

mutual

/-- The tokens of a written value spell it. -/
theorem spellsValue_of_writable {v : Value} :
    IsWritable v → ∀ depth, SpellsValue (tokensOf (v.marks depth)) v
  | .text, _ => .text
  | .bool (b := b), _ => by
    cases b with
    | false => exact .falsehood
    | true => exact .truth
  | .word hname, _ => .word (.inr hname.2)
  | .list .nil, _ => .emptyList
  | .list (.cons hv hitems), depth => by
    obtain ⟨tokens, htokens, hspells⟩ :=
      spellsItems_of_writable (.cons hv hitems) (by simp) (depth + 1)
    have hlist := SpellsValue.list hspells (.inr rfl)
    rw [Value.marks]
    · simpa [htokens] using hlist
    · simp
  | .record hne hfields, depth => by
    obtain ⟨tokens, htokens, hspells⟩ :=
      spellsFields_of_writable hfields hne (depth + 1)
    have hrecord := SpellsValue.record .none hspells (.inr rfl)
    rw [Value.marks]
    simpa [htokens, nameMarks] using hrecord

/-- The tokens of written items spell them, with a comma after the last one. -/
theorem spellsItems_of_writable {items : List Value} :
    AreWritable items → items ≠ [] → ∀ depth, ∃ tokens,
      tokensOf (Value.itemMarks depth items) = tokens ++ [.comma] ∧ SpellsItems tokens items
  | .nil, hne, _ => absurd rfl hne
  | .cons hv .nil, _, depth =>
    ⟨_, by simp [Value.itemMarks], .last (spellsValue_of_writable hv depth)⟩
  | .cons hv (.cons hw hitems), _, depth => by
    obtain ⟨tokens, htokens, hspells⟩ := spellsItems_of_writable (.cons hw hitems) (by simp) depth
    refine ⟨_, ?_, .more (spellsValue_of_writable hv depth) hspells⟩
    rw [Value.itemMarks]
    simp [htokens]

/-- The tokens of written fields spell them, with a comma after the last one. -/
theorem spellsFields_of_writable {fields : List (String × Value)} :
    AreWritableFields fields → fields ≠ [] → ∀ depth, ∃ tokens,
      tokensOf (Value.fieldMarks depth fields) = tokens ++ [.comma] ∧ SpellsFields tokens fields
  | .nil, hne, _ => absurd rfl hne
  | .cons (f := f) _ hv .nil, _, depth =>
    ⟨_, by simp [Value.fieldMarks],
      @SpellsFields.last _ f false _ (spellsValue_of_writable hv depth)⟩
  | .cons (f := f) _ hv (.cons hg hw hfields), _, depth => by
    obtain ⟨tokens, htokens, hspells⟩ :=
      spellsFields_of_writable (.cons hg hw hfields) (by simp) depth
    refine ⟨_, ?_, @SpellsFields.more _ _ f false _ _ (spellsValue_of_writable hv depth) hspells⟩
    rw [Value.fieldMarks]
    simp [htokens]

end

/-- The marks of a written value are spaced. -/
theorem spaced_marks (numbered : Char → Bool) {v : Value} (hv : IsWritable v) :
    Spaced numbered (v.marks 0) := by
  have hspaced : Spaced numbered (v.marks 0 ++ []) :=
    spaced_of_writable hv 0 (by simp) trivial
  rwa [List.append_nil] at hspaced

/-- A value laid out with any blanks is spelled. -/
theorem spellsFile_of_laysOut {numbered : Char → Bool} {v : Value} {text : List Char}
    (hv : IsWritable v) (hlays : LaysOut numbered (v.marks 0) text) :
    SpellsFile (utf8 (String.ofList text)) v :=
  ⟨[], _, spellsTokens_of_laysOut hlays (spaced_marks numbered hv), .none,
    spellsValue_of_writable hv 0⟩

end TypeLint.Snapshot
