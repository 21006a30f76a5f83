import TypeLint.Proofs.Json.Schema

/-!
# Documents of universes

A universe is given by a bare list of types, or by an object or array around such a list. No
document is both: the only candidate is an array whose only item is a list of types and a type at
the same time, and then the second item of that list would be a type and a kind.

The tokens of a value are no front of the tokens of another one. So nothing but blanks can stand
behind a document, and they change nothing.

## Main statements

- `universe?_eq_some_iff` — what an object or array around a list declares
- `not_both_forms` — no text is read in both forms
- `Value.read?_append_eq_some_iff` — a document with text behind it
- `ofJsonList?_append_eq_some_iff`, `ofJson?_append_eq_some_iff` — the same for universes
-/

namespace TypeLint.Json

/-! ## Two forms -/

/-- A value is read as the universe that it declares. -/
theorem universe?_eq_some_iff {v : Value} {u : Universe} :
    universe? v = some u ↔ DeclaresUniverse v u := by
  simp only [universe?]
  constructor
  · intro h
    split at h
    · rename_i types hslots
      obtain ⟨_, hdecls, rfl⟩ := Option.map_eq_some_iff.1 h
      have hall := decls?_eq_some_iff.1 hdecls
      obtain ⟨known, rfl, hgiven⟩ | ⟨items, rfl, hlen, hgiven⟩ := slots_eq_some_iff.1 hslots
      · simp only [Fills, List.forall₂_cons, single?_eq_some_some_iff] at hgiven
        exact .object ⟨types, hgiven.1, hall⟩
      · cases items with
        | nil => simp at hgiven
        | cons w items =>
          obtain rfl : items = [] := List.eq_nil_of_length_eq_zero (by simpa using hlen)
          obtain rfl : types = w := by simpa using hgiven
          exact .array hall
    · simp at h
  · intro hdeclares
    cases hdeclares with
    | @object fields _ hholds =>
      obtain ⟨w, hgives, hall⟩ := hholds
      have hslots : slots ["types"] (.object (entries fields)) = some [some w] := by
        refine slots_eq_some_iff.2 (.inl ⟨fields, rfl, ?_⟩)
        simp [Fills, single?_eq_some_some_iff, hgives]
      rw [hslots]
      exact Option.map_eq_some_iff.2 ⟨u.types, decls?_eq_some_iff.2 hall, rfl⟩
    | array hall => exact Option.map_eq_some_iff.2 ⟨u.types, decls?_eq_some_iff.2 hall, rfl⟩

/-- A bare list is read in two steps: the value of the document, and the types that it declares. -/
theorem ofJsonList?_eq_bind (text : String) :
    Universe.ofJsonList? text =
      (Value.read? text.toList).bind fun v => (format.decls? v).map Universe.mk := by
  rw [Universe.ofJsonList?]
  cases Value.read? text.toList with
  | none => rfl
  | some v => rfl

/-- An object or array around a list is read in two steps, too. -/
theorem ofJson?_eq_bind (text : String) :
    Universe.ofJson? text = (Value.read? text.toList).bind universe? := by
  rw [Universe.ofJson?]
  cases Value.read? text.toList with
  | none => rfl
  | some v => rfl

/-- A kind is no type: it is no array, and an object that is a kind has one field only. -/
theorem DeclaresKind.not_declaresType {v : Value} {k : Kind} (hkind : DeclaresKind v k) (t : Decl) :
    ¬ DeclaresType v t := by
  intro htype
  cases htype with
  | @object fields _ hgives =>
    obtain ⟨f, w, rfl⟩ : ∃ f w, fields = [(f, w)] := by
      generalize hgiven : entries fields = given at hkind
      cases hkind
      obtain ⟨⟨f, w⟩, hfields, -⟩ := List.map_eq_singleton_iff.1 hgiven
      exact ⟨f, w, hfields⟩
    obtain ⟨_, hname, -⟩ := hgives.name
    obtain ⟨_, hlabel, -⟩ := hgives.kind
    have hfirst : "name" = f := (Prod.mk.inj (List.mem_singleton.1 (mem_of_gives hname))).1
    have hsecond : "kind" = f := (Prod.mk.inj (List.mem_singleton.1 (mem_of_gives hlabel))).1
    exact absurd (hfirst.trans hsecond.symm) (by decide)
  | two => cases hkind
  | three => cases hkind

/-- A list of types is no type: its second item would be the kind. -/
theorem DeclaresAll.not_declaresType {v : Value} {types : List Decl} (hall : DeclaresAll v types)
    (t : Decl) : ¬ DeclaresType v t := by
  obtain ⟨items, rfl, hitems⟩ := hall
  intro htype
  cases htype with
  | two _ hkind =>
    cases hitems with
    | cons _ hrest =>
      cases hrest with
      | cons hsecond => exact hkind.not_declaresType _ hsecond
  | three _ hkind _ =>
    cases hitems with
    | cons _ hrest =>
      cases hrest with
      | cons hsecond => exact hkind.not_declaresType _ hsecond

/-- No value is a list of types and at the same time an object or array around one. -/
theorem DeclaresAll.not_declaresUniverse {v : Value} {types : List Decl}
    (hall : DeclaresAll v types) (u : Universe) : ¬ DeclaresUniverse v u := by
  obtain ⟨items, rfl, hitems⟩ := hall
  intro huniverse
  cases huniverse with
  | array hinner =>
    cases hitems with
    | cons hfirst => exact hinner.not_declaresType _ hfirst

/-- A text that is read in one of the two forms is refused in the other. -/
theorem not_both_forms (text : String) :
    Universe.ofJsonList? text = none ∨ Universe.ofJson? text = none := by
  rw [ofJsonList?_eq_bind, ofJson?_eq_bind]
  -- Both look at the same value.
  cases Value.read? text.toList with
  | none => exact .inl rfl
  | some v =>
    rw [Option.bind_some, Option.bind_some, Option.map_eq_none_iff]
    by_cases hlist : format.decls? v = none
    · exact .inl hlist
    · obtain ⟨types, htypes⟩ := Option.ne_none_iff_exists'.1 hlist
      have hall := decls?_eq_some_iff.1 htypes
      refine .inr (Option.eq_none_iff_forall_ne_some.2 fun u hu => ?_)
      exact hall.not_declaresUniverse u (universe?_eq_some_iff.1 hu)

/-- A list of one type without any object for a record, and a kind that is one. It looks like an
    array around a list as far as its third bracket. -/
example : (Universe.ofJsonList? "[[[\"\",\"n\"],\x7b\"Map\":null\x7d]]").isSome ∧
    Universe.ofJson? "[[[\"\",\"n\"],\x7b\"Map\":null\x7d]]" = none := by
  decide +kernel

/-! ## Text behind a document -/

/-- The tokens of a value end with one that no text behind it changes. -/
def Value.IsClosed (v : Value) : Prop :=
  ∀ t ∈ v.tokens.getLast?, ∀ text, t.EndsBefore text

theorem isClosed_array (items : List Value) : (Value.array items).IsClosed := by
  intro t ht text
  rw [Value.tokens, List.getLast?_concat, Option.mem_some] at ht
  subst ht
  trivial

theorem isClosed_object (fields : List (Option String × Value)) :
    (Value.object fields).IsClosed := by
  intro t ht text
  rw [Value.tokens, List.getLast?_concat, Option.mem_some] at ht
  subst ht
  trivial

/-- A list of types is closed. -/
theorem DeclaresAll.isClosed {v : Value} {types : List Decl} (hall : DeclaresAll v types) :
    v.IsClosed := by
  obtain ⟨items, rfl, -⟩ := hall
  exact isClosed_array items

/-- An object or array around a list of types is closed. -/
theorem DeclaresUniverse.isClosed {v : Value} {u : Universe} (huniverse : DeclaresUniverse v u) :
    v.IsClosed := by
  cases huniverse with
  | object => exact isClosed_object _
  | array => exact isClosed_array _

/-- A token that ends before a text ends before a longer one, too. Only an empty text leaves it to
    what is added. -/
theorem Token.EndsBefore.append {t : Token} {text : List Char} (hends : t.EndsBefore text)
    {more : List Char} (hmore : text = [] → t.EndsBefore more) : t.EndsBefore (text ++ more) := by
  cases text with
  | nil => exact hmore rfl
  | cons c text =>
    cases t with
    | number literal =>
      intro d hd
      exact hends d hd
    | _ => trivial

/-- What stands behind a text is scanned on its own when it does not change the last token. -/
theorem scan_append {text more : List Char} {ts : List Token} (hlexes : Lexes text ts)
    (hlast : ∀ t ∈ ts.getLast?, t.EndsBefore more) :
    Token.scan (text ++ more) = (Token.scan more).map (ts ++ ·) := by
  induction hlexes with
  | nil hblanks =>
    rw [scan_blanks hblanks]
    exact (Option.map_id_apply).symm
  | @cons blanks spelling rest t ts hblanks hspells hends hrest ih =>
    obtain ⟨c, tail, rfl, hblank⟩ := head_of_spellsToken hspells
    have hmore : t.EndsBefore (rest ++ more) := by
      refine hends.append fun hempty => ?_
      subst hempty
      -- A token at the end of the text is the last one.
      obtain rfl : ts = [] := by
        rw [← scan_eq_some_iff, Token.scan] at hrest
        exact (Option.some.inj hrest).symm
      exact hlast t rfl
    have hnext : Token.next c (tail ++ (rest ++ more)) = some (t, rest ++ more) :=
      next_eq_some_iff.2 ⟨c :: tail, rfl, hspells, hmore⟩
    have hrest' : ∀ u ∈ ts.getLast?, u.EndsBefore more := by
      intro u hu
      apply hlast u
      simp [List.getLast?_cons, Option.mem_def.1 hu]
    rw [List.append_assoc, List.append_assoc, scan_blanks hblanks, List.cons_append,
      scan_cons hblank hnext, ih hrest', Option.map_map]
    rfl

namespace Value

/-- The tokens of a value are no proper front of those of another one. -/
theorem eq_of_tokens_append {v w : Value} {ts : List Token} (htokens : w.tokens = v.tokens ++ ts) :
    ts = [] ∧ w = v := by
  have hrun := State.run_tokens w []
  rw [htokens, State.run_append, State.run_tokens v, Option.bind_some] at hrun
  cases ts with
  | nil =>
    rw [State.run_nil] at hrun
    cases hrun
    exact ⟨rfl, rfl⟩
  | cons t ts => simp [State.step] at hrun

/-- Behind a document whose last token is closed nothing but blanks can stand, and they do not
    change its value. -/
theorem read?_append_eq_some_iff {text more : List Char} {v w : Value} (hclosed : v.IsClosed)
    (hread : read? text = some v) :
    read? (text ++ more) = some w ↔ IsBlanks more ∧ w = v := by
  have hlexes : Lexes text v.tokens := lexes_tokens_iff.2 (read?_eq_some_iff.1 hread)
  have hscan := scan_append hlexes fun t ht => hclosed t ht more
  rw [read?_eq_some_iff, ← lexes_tokens_iff, ← scan_eq_some_iff, hscan, Option.map_eq_some_iff]
  constructor
  · rintro ⟨ts, hmore, htokens⟩
    obtain ⟨rfl, rfl⟩ := eq_of_tokens_append htokens.symm
    cases scan_eq_some_iff.1 hmore with
    | nil hblanks => exact ⟨hblanks, rfl⟩
  · rintro ⟨hblanks, rfl⟩
    exact ⟨[], scan_eq_some_iff.2 (.nil hblanks), List.append_nil _⟩

/-- The same for whatever is looked up in the value, if it is found in values that end with a closed
    token only. -/
theorem bind_read?_append_eq_some_iff {α : Type} {find? : Value → Option α}
    (hclosed : ∀ v a, find? v = some a → v.IsClosed) {text more : List Char} {a b : α}
    (hfind : (read? text).bind find? = some a) :
    (read? (text ++ more)).bind find? = some b ↔ IsBlanks more ∧ b = a := by
  obtain ⟨v, hread, ha⟩ := Option.bind_eq_some_iff.1 hfind
  have hmore (w : Value) : read? (text ++ more) = some w ↔ IsBlanks more ∧ w = v :=
    read?_append_eq_some_iff (hclosed v a ha) hread
  rw [Option.bind_eq_some_iff]
  constructor
  · rintro ⟨w, hw, hb⟩
    obtain ⟨hblanks, rfl⟩ := (hmore w).1 hw
    exact ⟨hblanks, Option.some.inj (hb.symm.trans ha)⟩
  · rintro ⟨hblanks, rfl⟩
    exact ⟨v, (hmore v).2 ⟨hblanks, rfl⟩, ha⟩

end Value

/-- Behind a bare list of types nothing but blanks can stand. -/
theorem ofJsonList?_append_eq_some_iff {text more : String} {u w : Universe}
    (hlist : Universe.ofJsonList? text = some u) :
    Universe.ofJsonList? (text ++ more) = some w ↔ IsBlanks more.toList ∧ w = u := by
  rw [ofJsonList?_eq_bind] at hlist ⊢
  rw [String.toList_append]
  refine Value.bind_read?_append_eq_some_iff (fun v u hv => ?_) hlist
  obtain ⟨types, htypes, -⟩ := Option.map_eq_some_iff.1 hv
  exact (decls?_eq_some_iff.1 htypes).isClosed

/-- Behind an object or array around a list of types nothing but blanks can stand. -/
theorem ofJson?_append_eq_some_iff {text more : String} {u w : Universe}
    (huniverse : Universe.ofJson? text = some u) :
    Universe.ofJson? (text ++ more) = some w ↔ IsBlanks more.toList ∧ w = u := by
  rw [ofJson?_eq_bind] at huniverse ⊢
  rw [String.toList_append]
  exact Value.bind_read?_append_eq_some_iff
    (fun v u hv => (universe?_eq_some_iff.1 hv).isClosed) huniverse

end TypeLint.Json
