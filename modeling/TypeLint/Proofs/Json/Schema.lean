import TypeLint.Json.Meaning
import TypeLint.Proofs.Json.Document
import TypeLint.Proofs.Schema

/-!
# Reading a schema from a document

The functions that read declared types from JSON values agree with what the values declare, both for
objects and for arrays. Together with the grammar of documents this says which texts hold a list of
types.

## Main statements

- `decls?_eq_some_iff` — a value is read as the types it declares
- `json_list_iff` — the texts that hold a list of types
-/

namespace TypeLint.Json

/-! ## Records -/

/-- All keys of an object have a text when it can be read as fields. -/
theorem mapM_entries_eq_some_iff {given : List (Option String × Value)}
    {fields : List (String × Value)} :
    (given.mapM fun (k, v) => k.map (·, v)) = some fields ↔ given = entries fields := by
  rw [mapM_eq_some_iff_forall₂]
  constructor
  · intro h
    induction h with
    | nil => rfl
    | @cons kv fv _ _ hkv _ ih =>
      obtain ⟨k, v⟩ := kv
      obtain ⟨f, hf, rfl⟩ := Option.map_eq_some_iff.1 hkv
      obtain rfl : k = some f := hf
      rw [ih]
      rfl
  · rintro rfl
    induction fields with
    | nil => exact .nil
    | cons fv fields ih => exact .cons rfl ih

/-- The slots of a record are filled by key or by position. -/
theorem slots_eq_some_iff {known : List String} {v : Value} {given : List (Option Value)} :
    slots known v = some given ↔
      (∃ fields, v = .object (entries fields) ∧ Fills fields known given) ∨
      ∃ items, v = .array items ∧ items.length ≤ known.length ∧
        given = items.map some ++ List.replicate (known.length - items.length) none := by
  cases v with
  | object named =>
    simp only [slots, Value.object.injEq, reduceCtorEq, false_and, exists_false, or_false]
    constructor
    · intro h
      split at h
      · rename_i fields hfields
        exact ⟨fields, mapM_entries_eq_some_iff.1 hfields, mapM_single?_eq_some_iff.1 h⟩
      · simp at h
    · intro h
      obtain ⟨fields, rfl, hfills⟩ := h
      rw [mapM_entries_eq_some_iff.2 rfl]
      exact mapM_single?_eq_some_iff.2 hfills
  | array items =>
    simp only [slots, Value.array.injEq, reduceCtorEq, false_and, exists_false, false_or]
    constructor
    · intro h
      split at h
      · rename_i hlen
        exact ⟨items, rfl, hlen, (Option.some.inj h).symm⟩
      · simp at h
    · rintro ⟨_, rfl, hlen, rfl⟩
      rw [if_pos hlen]
  | _ => simp [slots]

/-- A text is read from a string that has one. -/
theorem text?_eq_some_iff {v : Value} {s : String} : text? v = some s ↔ v = .string (some s) := by
  cases v <;> simp [text?]

theorem flag?_eq_some_iff {v : Value} {b : Bool} : flag? v = some b ↔ v = .bool b := by
  cases v <;> simp [flag?]

/-- A value is read as the kind it declares. -/
theorem kind?_eq_some_iff {v : Value} {k : Kind} : kind? v = some k ↔ DeclaresKind v k := by
  constructor
  · intro h
    simp only [kind?] at h
    split at h
    · rw [← Kind.ofLabel?_eq_some_iff.1 h]
      exact .label
    · rw [← Kind.ofLabel?_eq_some_iff.1 h]
      exact .object
    · simp at h
  · rintro (_ | _)
    · exact Kind.ofLabel?_label k
    · exact Kind.ofLabel?_label k

theorem items?_eq_some_iff {v : Value} {items : List Value} :
    items? v = some items ↔ v = .array items := by
  cases v <;> simp [items?]

/-- Leaves are read where they are written, and nowhere else. -/
theorem reads_format : format.Reads leaves where
  text? _ _ := text?_eq_some_iff
  flag? _ _ := flag?_eq_some_iff
  items? _ _ := items?_eq_some_iff

/-! ## Declarations -/

/-- A value is read as the name it declares. -/
theorem name?_eq_some_iff {v : Value} {n : Name} :
    format.name? v = some n ↔ DeclaresName v n := by
  rw [Format.name?_eq_some_iff]
  obtain ⟨npackage, nshort⟩ := n
  constructor
  · intro h
    obtain ⟨package, short, hslots, hpackage, hshort⟩ := h
    obtain ⟨fields, rfl, hfills⟩ | ⟨items, rfl, hlen, hgiven⟩ := slots_eq_some_iff.1 hslots
    · exact .object ((Format.givesName_iff reads_format).2
        ⟨package, short, hfills, hpackage, hshort⟩)
    · match items with
      | [] | [_] => simp at hgiven
      | _ :: _ :: _ :: _ =>
        simp only [List.length_cons, List.length_nil] at hlen
        omega
      | [p, s] =>
        obtain ⟨rfl, rfl⟩ : package = some p ∧ short = s := by simpa using hgiven
        rw [text?_eq_some_iff.1 hpackage, text?_eq_some_iff.1 hshort]
        exact .array
  · intro hdeclares
    cases hdeclares with
    | object hgives =>
      obtain ⟨package, short, hfills, hread⟩ := (Format.givesName_iff reads_format).1 hgives
      exact ⟨package, short, slots_eq_some_iff.2 (.inl ⟨_, rfl, hfills⟩), hread⟩
    | array => exact ⟨_, _, rfl, rfl, rfl⟩

/-- A value is read as the member it declares. -/
theorem member?_eq_some_iff {v : Value} {m : Member} :
    format.member? v = some m ↔ DeclaresMember v m := by
  have hfields {fields : List (String × Value)} : leaves.GivesMember DeclaresName fields m ↔ _ :=
    Format.givesMember_iff reads_format fun _ _ => name?_eq_some_iff
  rw [Format.member?_eq_some_iff]
  obtain ⟨mname, mtype, membedded, mtags⟩ := m
  constructor
  · rintro ⟨name, type, embedded, tags, hslots, hname, htype, hembedded, htags⟩
    obtain ⟨fields, rfl, hfills⟩ | ⟨items, rfl, hlen, hgiven⟩ := slots_eq_some_iff.1 hslots
    · exact .object (hfields.2
        ⟨name, type, embedded, tags, hfills, hname, htype, hembedded, htags⟩)
    · have hdeclares := name?_eq_some_iff.1 htype
      obtain rfl := text?_eq_some_iff.1 hname
      match items with
      | [] | [_] => simp at hgiven
      | _ :: _ :: _ :: _ :: _ :: _ =>
        simp only [List.length_cons, List.length_nil] at hlen
        omega
      | [n, t] =>
        obtain ⟨rfl, rfl, rfl, rfl⟩ :
            .string (some mname) = n ∧ type = t ∧ embedded = none ∧ tags = none := by
          simpa using hgiven
        cases hembedded
        cases htags
        exact .two hdeclares
      | [n, t, e] =>
        obtain ⟨rfl, rfl, rfl, rfl⟩ :
            .string (some mname) = n ∧ type = t ∧ embedded = some e ∧ tags = none := by
          simpa using hgiven
        cases htags
        rw [flag?_eq_some_iff.1 hembedded]
        exact .three hdeclares
      | [n, t, e, g] =>
        obtain ⟨rfl, rfl, rfl, rfl⟩ :
            .string (some mname) = n ∧ type = t ∧ embedded = some e ∧ tags = some g := by
          simpa using hgiven
        rw [flag?_eq_some_iff.1 hembedded, text?_eq_some_iff.1 htags]
        exact .four hdeclares
  · intro hdeclares
    cases hdeclares with
    | object hgives =>
      obtain ⟨name, type, embedded, tags, hfills, hread⟩ := hfields.1 hgives
      exact ⟨name, type, embedded, tags, slots_eq_some_iff.2 (.inl ⟨_, rfl, hfills⟩), hread⟩
    | two hdeclares =>
      exact ⟨_, _, none, none, rfl, rfl, name?_eq_some_iff.2 hdeclares, rfl, rfl⟩
    | three hdeclares =>
      exact ⟨_, _, some _, none, rfl, rfl, name?_eq_some_iff.2 hdeclares, rfl, rfl⟩
    | four hdeclares =>
      exact ⟨_, _, some _, some _, rfl, rfl, name?_eq_some_iff.2 hdeclares, rfl, rfl⟩

/-- A value is read as the type it declares. -/
theorem decl?_eq_some_iff {v : Value} {t : Decl} :
    format.decl? v = some t ↔ DeclaresType v t := by
  have hfields {fields : List (String × Value)} :
      leaves.GivesType DeclaresName DeclaresKind DeclaresMember fields t ↔ _ :=
    Format.givesType_iff reads_format (fun _ _ => name?_eq_some_iff)
      (fun _ _ => kind?_eq_some_iff) fun _ _ => member?_eq_some_iff
  have hall := Format.members?_eq_some_iff reads_format fun _ _ => member?_eq_some_iff
  rw [Format.decl?_eq_some_iff]
  obtain ⟨tname, tkind, tmembers⟩ := t
  constructor
  · intro h
    obtain ⟨name, kind, members, hslots, hname, hkind, hmembers⟩ := h
    obtain ⟨fields, rfl, hfills⟩ | ⟨items, rfl, hlen, hgiven⟩ := slots_eq_some_iff.1 hslots
    · exact .object (hfields.2 ⟨name, kind, members, hfills, hname, hkind, hmembers⟩)
    · have hdeclares := name?_eq_some_iff.1 hname
      have hlabel := kind?_eq_some_iff.1 hkind
      match items with
      | [] | [_] => simp at hgiven
      | _ :: _ :: _ :: _ :: _ =>
        simp only [List.length_cons, List.length_nil] at hlen
        omega
      | [n, k] =>
        obtain ⟨rfl, rfl, rfl⟩ : name = n ∧ kind = k ∧ members = none := by simpa using hgiven
        cases hmembers
        exact .two hdeclares hlabel
      | [n, k, m] =>
        obtain ⟨rfl, rfl, rfl⟩ : name = n ∧ kind = k ∧ members = some m := by simpa using hgiven
        exact .three hdeclares hlabel ((hall _ _).1 hmembers)
  · intro hdeclares
    cases hdeclares with
    | object hgives =>
      obtain ⟨name, kind, members, hfills, hread⟩ := hfields.1 hgives
      exact ⟨name, kind, members, slots_eq_some_iff.2 (.inl ⟨_, rfl, hfills⟩), hread⟩
    | two hdeclares hlabel =>
      exact ⟨_, _, none, rfl, name?_eq_some_iff.2 hdeclares, kind?_eq_some_iff.2 hlabel, rfl⟩
    | three hdeclares hlabel hitems =>
      exact ⟨_, _, some _, rfl, name?_eq_some_iff.2 hdeclares, kind?_eq_some_iff.2 hlabel,
        (hall _ _).2 hitems⟩

/-- A value is read as the types it declares. -/
theorem decls?_eq_some_iff {v : Value} {types : List Decl} :
    format.decls? v = some types ↔ DeclaresAll v types :=
  Format.decls?_eq_some_iff reads_format fun _ _ => decl?_eq_some_iff

/-! ## Texts -/

/-- A text holds a list of types exactly when it is a document that declares them. -/
theorem json_list_iff {text : String} {u : Universe} :
    Universe.ofJsonList? text = some u ↔ ∃ v, IsDocument text.toList v ∧ DeclaresAll v u.types := by
  simp only [Universe.ofJsonList?]
  constructor
  · intro h
    split at h
    · rename_i v hread
      obtain ⟨types, hdecls, rfl⟩ := Option.map_eq_some_iff.1 h
      exact ⟨v, Value.read?_eq_some_iff.1 hread, decls?_eq_some_iff.1 hdecls⟩
    · simp at h
  · rintro ⟨v, hdocument, hdeclares⟩
    rw [Value.read?_eq_some_iff.2 hdocument]
    exact Option.map_eq_some_iff.2 ⟨u.types, decls?_eq_some_iff.2 hdeclares, rfl⟩

end TypeLint.Json
