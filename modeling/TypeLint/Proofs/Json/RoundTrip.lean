import TypeLint.Proofs.Json.Schema

/-!
# A written document is read back

A document is written as the shortest spellings of the tokens of its value. None of them is a
number, so each ends where it ends, and the text is made of these tokens and no others. The list of
types inside the document is a document of its own, and so is the list in brackets.

## Main statements

- `isString_quote` — a text between quotes is a string with that text
- `Value.read?_compact` — a written value is read back
- `json_round_trip` — a universe is read back from each of its three forms
-/

namespace TypeLint.Json

open Text

/-! ## Strings -/

theorem shortEscape?_eq_some {e c : Char} (hescape : shortEscape? c = some e) :
    (e, c) ∈ shortEscapes := by
  simp only [shortEscape?] at hescape
  split at hescape <;> cases hescape <;> decide

/-- Two digits are enough for a control character, since it is below the space. -/
theorem isUnitNumber_control {c : Char} (hc : c < ' ') :
    IsUnitNumber ['0', '0', Nat.digitChar (c.toNat / 16), Nat.digitChar (c.toNat % 16)]
      c.toNat := by
  have hlt : c.toNat < 32 := UInt32.lt_iff_toNat_lt.1 hc
  have hzero : digitValue '0' = 0 := by decide
  have hhigh := digitValue_digitChar (show c.toNat / 16 < 16 by omega)
  have hlow := digitValue_digitChar (show c.toNat % 16 < 16 by omega)
  refine ⟨_, _, _, _, rfl, ?_, by omega⟩
  simp only [List.forall_mem_cons, List.not_mem_nil, false_imp_iff, implies_true, and_true]
  omega

/-- A character is escaped as a single piece. -/
theorem isPiece_escape (c : Char) : IsPiece (escape c) (.char c) := by
  rw [escape]
  split
  · rename_i e hescape
    exact .short (shortEscape?_eq_some hescape)
  · rename_i hescape
    by_cases hc : c < ' '
    · rw [if_pos hc]
      have hunit := IsPiece.unit (isUnitNumber_control hc)
      have hsmall : c.toNat < 0x10000 := by
        have hlt : c.toNat < 32 := UInt32.lt_iff_toNat_lt.1 hc
        omega
      rwa [(ofUnit_eq_char_iff hsmall).2 rfl] at hunit
    · rw [if_neg hc]
      refine .plain (Char.not_lt.1 hc) ?_ ?_
      · rintro rfl
        simp [shortEscape?] at hescape
      · rintro rfl
        simp [shortEscape?] at hescape

/-- An escaped text spells its characters one by one. -/
theorem spellsPieces_escape (cs : List Char) :
    SpellsPieces (cs.flatMap escape) (cs.map Piece.char) := by
  induction cs with
  | nil => exact .nil
  | cons c cs ih => exact .cons (isPiece_escape c) ih

/-- Characters join to their text. -/
theorem joinPieces_char (cs : List Char) : joinPieces (cs.map Piece.char) = some cs := by
  induction cs with
  | nil => rfl
  | cons c cs ih => rw [List.map_cons, joinPieces, ih, Option.map_some]

/-- A text between quotes is a string with that text. -/
theorem isString_quote (s : String) : IsString (quote s) (some s) := by
  refine isString_iff.2 ⟨_, _, rfl, spellsPieces_escape s.toList, ?_⟩
  rw [joinPieces_char, Option.map_some, String.ofList_toList]

/-! ## Values -/

/-- A token that is spelled by its shortest spelling, whatever comes after it. -/
def Token.IsFirm : Token → Prop
  | number _ | string none => False
  | _ => True

/-- A firm token is spelled by how it is written. -/
theorem spellsToken_spelling {t : Token} (hfirm : t.IsFirm) : SpellsToken t.spelling t := by
  cases t with
  | openBrace => exact .openBrace
  | closeBrace => exact .closeBrace
  | openBracket => exact .openBracket
  | closeBracket => exact .closeBracket
  | comma => exact .comma
  | colon => exact .colon
  | null => exact .null
  | bool b =>
    cases b with
    | false => exact .falsehood
    | true => exact .truth
  | number literal => exact absurd hfirm id
  | string text =>
    cases text with
    | none => exact absurd hfirm id
    | some s => exact .string (isString_quote s)

/-- The spellings of firm tokens are made of these tokens. -/
theorem lexes_spelling {ts : List Token} (hfirm : ∀ t ∈ ts, t.IsFirm) :
    Lexes (ts.flatMap Token.spelling) ts := by
  induction ts with
  | nil => exact .nil isBlanks_nil
  | cons t ts ih =>
    obtain ⟨ht, hts⟩ := List.forall_mem_cons.1 hfirm
    refine (ih hts).token (spellsToken_spelling ht) ?_
    cases t with
    | number literal => exact absurd ht id
    | _ => trivial

namespace Value

/-- A value without numbers, and without strings that have no text. -/
def IsFirm (v : Value) : Prop :=
  ∀ t ∈ v.tokens, t.IsFirm

/-- A written value is read back. -/
theorem read?_compact {v : Value} (hfirm : v.IsFirm) : read? v.compact = some v :=
  read?_eq_some_iff.2 (lexes_tokens_iff.1 (lexes_spelling hfirm))

theorem isFirm_string (s : String) : (string (some s)).IsFirm := by
  simp [IsFirm, tokens, Token.IsFirm]

theorem isFirm_bool (b : Bool) : (bool b).IsFirm := by
  simp [IsFirm, tokens, Token.IsFirm]

theorem isFirm_array {items : List Value} (hitems : ∀ v ∈ items, v.IsFirm) :
    (array items).IsFirm := by
  have htokens : ∀ t ∈ itemTokens items, t.IsFirm := by
    induction items with
    | nil => simp [itemTokens]
    | cons v items ih =>
      obtain ⟨hv, hitems⟩ := List.forall_mem_cons.1 hitems
      cases items with
      | nil => exact hv
      | cons w items =>
        exact List.forall_mem_append.2 ⟨hv, List.forall_mem_cons.2 ⟨trivial, ih hitems⟩⟩
  rw [IsFirm, tokens]
  refine List.forall_mem_append.2 ⟨List.forall_mem_cons.2 ⟨trivial, htokens⟩, ?_⟩
  exact List.forall_mem_singleton.2 trivial

/-- Records are written with fields whose keys have a text. -/
theorem isFirm_ofFields {fields : List (String × Value)}
    (hfields : ∀ f ∈ fields, f.2.IsFirm) : (format.ofFields fields).IsFirm := by
  have htokens : ∀ t ∈ fieldTokens (entries fields), t.IsFirm := by
    induction fields with
    | nil => simp [entries, fieldTokens]
    | cons f fields ih =>
      obtain ⟨hf, hfields⟩ := List.forall_mem_cons.1 hfields
      have hfield : ∀ t ∈ Token.string (some f.1) :: .colon :: f.2.tokens, t.IsFirm :=
        List.forall_mem_cons.2 ⟨trivial, List.forall_mem_cons.2 ⟨trivial, hf⟩⟩
      cases fields with
      | nil => exact hfield
      | cons g fields =>
        refine List.forall_mem_append.2 ⟨hfield, List.forall_mem_cons.2 ⟨trivial, ?_⟩⟩
        exact ih hfields
  change (object (entries fields)).IsFirm
  rw [IsFirm, tokens]
  refine List.forall_mem_append.2 ⟨List.forall_mem_cons.2 ⟨trivial, htokens⟩, ?_⟩
  exact List.forall_mem_singleton.2 trivial

end Value

/-! ## Declarations -/

open Value

theorem isFirm_ofName (n : Name) : (format.ofName n).IsFirm := by
  apply isFirm_ofFields
  simp only [List.forall_mem_cons, List.not_mem_nil, false_imp_iff, implies_true, and_true]
  exact ⟨isFirm_string _, isFirm_string _⟩

theorem isFirm_ofMember (m : Member) : (format.ofMember m).IsFirm := by
  apply isFirm_ofFields
  simp only [List.forall_mem_cons, List.not_mem_nil, false_imp_iff, implies_true, and_true]
  exact ⟨isFirm_string _, isFirm_ofName _, isFirm_bool _, isFirm_string _⟩

theorem isFirm_map {α : Type} {write : α → Value} (hwrite : ∀ a, (write a).IsFirm) (as : List α) :
    (format.ofItems (as.map write)).IsFirm := by
  apply isFirm_array
  intro v hv
  obtain ⟨a, -, rfl⟩ := List.mem_map.1 hv
  exact hwrite a

theorem isFirm_ofDecl (t : Decl) : (format.ofDecl t).IsFirm := by
  apply isFirm_ofFields
  simp only [List.forall_mem_cons, List.not_mem_nil, false_imp_iff, implies_true, and_true]
  exact ⟨isFirm_ofName _, isFirm_string _, isFirm_map isFirm_ofMember _⟩

/-- What is written for declared types has no number and no broken text in it. -/
theorem isFirm_ofDecls (types : List Decl) : (format.ofDecls types).IsFirm :=
  isFirm_map isFirm_ofDecl types

/-- A written record is read back. -/
theorem lawful_format : format.Lawful where
  slots_ofFields name fields known := by
    change slots fields (.object (entries known)) = _
    rw [slots, mapM_entries_eq_some_iff.2 rfl]
  text?_ofText _ := rfl
  flag?_ofFlag _ := rfl
  kind?_ofKind := Kind.ofLabel?_label
  items?_ofItems _ := rfl

/-! ## Universes -/

/-- The list of types of a universe as a document of its own. -/
def listText (u : Universe) : String :=
  String.ofList (format.ofDecls u.types).compact

/-- The bare list of a universe is read back. -/
theorem ofJsonList?_listText (u : Universe) : Universe.ofJsonList? (listText u) = some u := by
  rw [Universe.ofJsonList?, listText, String.toList_ofList, read?_compact (isFirm_ofDecls _)]
  simp only [Format.decls?_ofDecls lawful_format, Option.map_some]

/-- A document is read as a universe when its value is an object or array around the list. -/
theorem ofJson?_compact {v : Value} (hfirm : v.IsFirm) {u : Universe}
    (hslots : slots ["types"] v = some [some (format.ofDecls u.types)]) :
    Universe.ofJson? (String.ofList v.compact) = some u := by
  rw [Universe.ofJson?, String.toList_ofList, read?_compact hfirm]
  simp only [universe?, hslots, Format.decls?_ofDecls lawful_format, Option.map_some]

/-- The document of a universe is read back. -/
theorem ofJson?_toJson (u : Universe) : Universe.ofJson? u.toJson = some u := by
  refine ofJson?_compact (isFirm_ofFields (List.forall_mem_singleton.2 (isFirm_ofDecls _))) ?_
  have hslots := lawful_format.slots_ofFields "" ["types"] [("types", format.ofDecls u.types)]
  exact hslots.trans (by simp [single?])

/-- The array around the list of a universe is read back. -/
theorem ofJson?_array (u : Universe) :
    Universe.ofJson? (String.ofList (Value.array [format.ofDecls u.types]).compact) = some u :=
  ofJson?_compact (isFirm_array (List.forall_mem_singleton.2 (isFirm_ofDecls _))) rfl

/-- A universe is written as an object around the list of its types. It is read back from that
    object, from an array around the list, and from the bare list. -/
theorem json_round_trip (u : Universe) :
    ∃ list, u.toJson = "\x7b\"types\":" ++ list ++ "\x7d" ∧ Universe.ofJson? u.toJson = some u ∧
      Universe.ofJson? ("[" ++ list ++ "]") = some u ∧ Universe.ofJsonList? list = some u := by
  have hkey : quote "types" = "\"types\"".toList := by decide
  have hobject : u.toJson = "\x7b\"types\":" ++ listText u ++ "\x7d" := by
    change String.ofList (Value.object [(some "types", format.ofDecls u.types)]).compact = _
    rw [← String.toList_inj]
    simp [listText, compact, tokens, fieldTokens, Token.spelling, hkey]
  have harray : "[" ++ listText u ++ "]" =
      String.ofList (Value.array [format.ofDecls u.types]).compact := by
    rw [← String.toList_inj]
    simp [listText, compact, tokens, itemTokens, Token.spelling]
  refine ⟨listText u, hobject, ofJson?_toJson u, ?_, ofJsonList?_listText u⟩
  rw [harray]
  exact ofJson?_array u

end TypeLint.Json
