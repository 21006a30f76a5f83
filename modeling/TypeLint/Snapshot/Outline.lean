import TypeLint.Snapshot.Meaning

/-!
# Values that look like declared types

Most slips in a snapshot written by hand keep its outline: every field that the schema knows still
holds the right sort of value, but one is given twice or left out, or a record has the name of
another. Fields that the schema does not know hold flat values.

## Main definitions

- `IsFlat` — what an unknown field may hold
- `Shape`, `IsMisfit` — the fields of a sort of record, and what may be wrong with a record
- `OutlinesAll` — the outline of a list of types
- `IsFaulty` — a list of types with a misfit somewhere in it
-/

namespace TypeLint.Snapshot

/-! ## Records -/

/-- A number, a text or a truth value. -/
inductive IsScalar : Value → Prop
  | number {literal : String} : IsScalar (.number literal)
  | text {s : String} : IsScalar (.text s)
  | bool {b : Bool} : IsScalar (.bool b)

/-- A scalar or a list of scalars. -/
inductive IsFlat : Value → Prop
  | scalar {v : Value} : IsScalar v → IsFlat v
  | list {items : List Value} : (∀ v ∈ items, IsScalar v) → IsFlat (.list items)

/-- The name in front of a record and its fields. Empty parentheses are a record without any. -/
inductive IsFields : Value → Option String → List (String × Value) → Prop
  | record {own : Option String} {fields : List (String × Value)} :
      IsFields (.record own fields) own fields
  | empty {own : Option String} : IsFields (.tuple own []) own []
  | unit : IsFields .unit none []

/-- The field is given twice or more often. -/
def IsRepeated (fields : List (String × Value)) (field : String) : Prop :=
  ∃ before between after v w,
    fields = before ++ (field, v) :: between ++ (field, w) :: after

/-- A sort of record: its name, its fields, and those of them that have no default. -/
structure Shape where
  name : String
  fields : List String
  required : List String

/-- Names as records. -/
def nameShape : Shape :=
  { name := "Name", fields := ["package", "name"], required := ["name"] }

/-- Members as records. -/
def memberShape : Shape :=
  { name := "Member", fields := ["name", "type_ref", "embedded", "tags"]
    required := ["name", "type_ref"] }

/-- Types as records. -/
def typeShape : Shape :=
  { name := "Type", fields := ["name", "kind", "members"], required := ["name", "kind"] }

/-- A record that is not of the shape: it has another name, or gives a field twice, or leaves out
    one without a default. -/
inductive IsMisfit (shape : Shape) (own : Option String) (fields : List (String × Value)) : Prop
  | name {n : String} : own = some n → n ≠ shape.name → IsMisfit shape own fields
  | repeated {f : String} : f ∈ shape.fields → IsRepeated fields f → IsMisfit shape own fields
  | missing {f : String} : f ∈ shape.required → Lacks fields f → IsMisfit shape own fields

/-- The value is a record whose known fields hold what `sort` says, and whose other fields are
    flat. -/
def Outlines (shape : Shape) (sort : String → Value → Prop) (v : Value) : Prop :=
  ∃ own fields, IsFields v own fields ∧
    ∀ f w, (f, w) ∈ fields → (f ∈ shape.fields → sort f w) ∧ (f ∉ shape.fields → IsFlat w)

/-! ## Outlines -/

/-- The outline of a name. -/
def OutlinesName (v : Value) : Prop :=
  Outlines nameShape (fun _ w => ∃ s, w = .text s) v

/-- What the fields of a member hold. -/
def memberSort (field : String) (w : Value) : Prop :=
  if field = "type_ref" then OutlinesName w
  else if field = "embedded" then ∃ b, w = .bool b
  else ∃ s, w = .text s

/-- The outline of a member. -/
def OutlinesMember (v : Value) : Prop :=
  Outlines memberShape memberSort v

/-- What the fields of a type hold. -/
def typeSort (field : String) (w : Value) : Prop :=
  if field = "name" then OutlinesName w
  else if field = "kind" then ∃ k : Kind, w = .word k.label
  else ∃ items, w = .list items ∧ ∀ m ∈ items, OutlinesMember m

/-- The outline of a type. -/
def OutlinesType (v : Value) : Prop :=
  Outlines typeShape typeSort v

/-- The outline of a list of types. -/
def OutlinesAll (v : Value) : Prop :=
  ∃ items, v = .list items ∧ ∀ t ∈ items, OutlinesType t

/-! ## Faults -/

/-- A name that is a misfit. -/
def IsFaultyName (v : Value) : Prop :=
  ∃ own fields, IsFields v own fields ∧ IsMisfit nameShape own fields

/-- A member that is a misfit, or whose type has a faulty name. -/
def IsFaultyMember (v : Value) : Prop :=
  ∃ own fields, IsFields v own fields ∧
    (IsMisfit memberShape own fields ∨ ∃ w, ("type_ref", w) ∈ fields ∧ IsFaultyName w)

/-- A type that is a misfit, or has a faulty name or member. -/
def IsFaultyType (v : Value) : Prop :=
  ∃ own fields, IsFields v own fields ∧
    (IsMisfit typeShape own fields ∨ (∃ w, ("name", w) ∈ fields ∧ IsFaultyName w) ∨
      ∃ items, ("members", .list items) ∈ fields ∧ ∃ m ∈ items, IsFaultyMember m)

/-- A list with a faulty type in it. -/
def IsFaulty (v : Value) : Prop :=
  ∃ items, v = .list items ∧ ∃ t ∈ items, IsFaultyType t

end TypeLint.Snapshot
