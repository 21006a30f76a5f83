import TypeLint.Proofs.Schema
import TypeLint.Proofs.Snapshot.Machine
import TypeLint.Snapshot.Meaning

/-!
# Reading a schema from a snapshot

The functions that read declared types from values agree with what the values declare.

## Main statements

- `decls?_eq_some_iff` — a value is read as the types it declares
- `lawful_format` — a written value is read back
- `ofSnapshot?_of_spells` — the universe of a file that spells a value
-/

namespace TypeLint.Snapshot

/-- The slots of a record are filled by its fields. -/
theorem slots_eq_some_iff {name : String} {known : List String} {v : Value}
    {given : List (Option Value)} : slots name known v = some given ↔
      ∃ fields, IsRecord name v fields ∧ Fills fields known given := by
  cases v with
  | record own fields =>
    simp only [slots, IsRecord, Value.record.injEq]
    split
    · rename_i hown
      rw [mapM_single?_eq_some_iff]
      constructor
      · intro hfills
        exact ⟨fields, hown.imp (⟨·, rfl⟩) (⟨·, rfl⟩), hfills⟩
      · rintro ⟨_, ⟨-, rfl⟩ | ⟨-, rfl⟩, hfills⟩
        · exact hfills
        · exact hfills
    · rename_i hown
      simp only [reduceCtorEq, false_iff]
      rintro ⟨_, ⟨hnone, -⟩ | ⟨hsome, -⟩, -⟩
      · exact hown (.inl hnone)
      · exact hown (.inr hsome)
  | _ => simp [slots, IsRecord]

/-- A text is read from a text only. -/
theorem text?_eq_some_iff {v : Value} {s : String} : text? v = some s ↔ v = .text s := by
  cases v <;> simp [text?]

theorem flag?_eq_some_iff {v : Value} {b : Bool} : flag? v = some b ↔ v = .bool b := by
  cases v <;> simp [flag?]

/-- A value is read as the kind it declares. -/
theorem kind?_eq_some_iff {v : Value} {k : Kind} : kind? v = some k ↔ DeclaresKind v k := by
  cases v <;> simp [kind?, DeclaresKind, Kind.ofLabel?_eq_some_iff, eq_comm (b := k.label)]

theorem items?_eq_some_iff {v : Value} {items : List Value} :
    items? v = some items ↔ v = .list items := by
  cases v <;> simp [items?]

/-- Leaves are read where they are written, and nowhere else. -/
theorem reads_format : format.Reads leaves where
  text? _ _ := text?_eq_some_iff
  flag? _ _ := flag?_eq_some_iff
  items? _ _ := items?_eq_some_iff

/-! ## Declarations -/

/-- A value is read as the name it declares. -/
theorem name?_eq_some_iff {v : Value} {n : Name} :
    format.name? v = some n ↔ DeclaresName v n := by
  simp only [Format.name?_eq_some_iff, DeclaresName, Format.givesName_iff reads_format]
  constructor
  · intro h
    obtain ⟨package, short, hslots, hread⟩ := h
    obtain ⟨fields, hrecord, hfills⟩ := slots_eq_some_iff.1 hslots
    exact ⟨fields, hrecord, package, short, hfills, hread⟩
  · rintro ⟨fields, hrecord, package, short, hfills, hread⟩
    exact ⟨package, short, slots_eq_some_iff.2 ⟨fields, hrecord, hfills⟩, hread⟩

/-- A value is read as the member it declares. -/
theorem member?_eq_some_iff {v : Value} {m : Member} :
    format.member? v = some m ↔ DeclaresMember v m := by
  simp only [Format.member?_eq_some_iff, DeclaresMember,
    Format.givesMember_iff reads_format fun _ _ => name?_eq_some_iff]
  constructor
  · intro h
    obtain ⟨name, type, embedded, tags, hslots, hread⟩ := h
    obtain ⟨fields, hrecord, hfills⟩ := slots_eq_some_iff.1 hslots
    exact ⟨fields, hrecord, name, type, embedded, tags, hfills, hread⟩
  · rintro ⟨fields, hrecord, name, type, embedded, tags, hfills, hread⟩
    exact ⟨name, type, embedded, tags, slots_eq_some_iff.2 ⟨fields, hrecord, hfills⟩, hread⟩

/-- A value is read as the type it declares. -/
theorem decl?_eq_some_iff {v : Value} {t : Decl} :
    format.decl? v = some t ↔ DeclaresType v t := by
  simp only [Format.decl?_eq_some_iff, DeclaresType,
    Format.givesType_iff reads_format (fun _ _ => name?_eq_some_iff)
      (fun _ _ => kind?_eq_some_iff) fun _ _ => member?_eq_some_iff]
  constructor
  · intro h
    obtain ⟨name, kind, members, hslots, hread⟩ := h
    obtain ⟨fields, hrecord, hfills⟩ := slots_eq_some_iff.1 hslots
    exact ⟨fields, hrecord, name, kind, members, hfills, hread⟩
  · rintro ⟨fields, hrecord, name, kind, members, hfills, hread⟩
    exact ⟨name, kind, members, slots_eq_some_iff.2 ⟨fields, hrecord, hfills⟩, hread⟩

/-- A value is read as the types it declares. -/
theorem decls?_eq_some_iff {v : Value} {types : List Decl} :
    format.decls? v = some types ↔ DeclaresAll v types :=
  Format.decls?_eq_some_iff reads_format fun _ _ => decl?_eq_some_iff

/-- A written value is read back. -/
theorem lawful_format : format.Lawful where
  slots_ofFields _ _ _ := by simp [format, slots]
  text?_ofText _ := rfl
  flag?_ofFlag _ := rfl
  kind?_ofKind := Kind.ofLabel?_label
  items?_ofItems _ := rfl

/-- A file that spells a value holds the types that are read from the value. -/
theorem ofSnapshot?_of_spells {file : List UInt8} {v : Value} (hspells : SpellsFile file v)
    (hdepth : v.depth ≤ Value.depthLimit) :
    Universe.ofSnapshot? file = (format.decls? v).map Universe.mk := by
  have hread : Value.read? file = some v := by
    rw [Value.read?_of_spells hspells, if_pos hdepth]
  simp only [Universe.ofSnapshot?, hread]

end TypeLint.Snapshot
