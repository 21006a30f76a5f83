import TypeLint.Universe

/-!
# The schema of declared types

Documents of different formats hold declared types in the same records: a type has the fields
`name`, `kind` and `members`, a name has `package` and `name`, and a member has `name`, `type_ref`,
`embedded` and `tags`. A format only says how records, lists and leaves look.

## Main definitions

- `single?` — the value of a field that may be given at most once
- `Gives`, `Lacks` — what fields say of one field
- `Format` — what the schema has to know about the values of a format
- `Format.decl?`, `Format.decls?` — what a value declares
- `Format.ofDecl`, `Format.ofDecls` — the value of a declaration

## Design notes

Known fields may come in any order, at most once each, and unknown fields are of no concern. A
missing field stands for its default, if it has one, and no other value does: nothing is converted
to fit. -/

namespace TypeLint

/-- The value of a field in a list of fields: none inside when it is missing, and no answer when it
    is repeated. -/
def single? {V : Type} (field : String) (fields : List (String × V)) : Option (Option V) :=
  match fields.filter (·.1 == field) with
  | [] => some none
  | [(_, v)] => some (some v)
  | _ => none

/-- The fields do not give the field. -/
def Lacks {V : Type} (fields : List (String × V)) (field : String) : Prop :=
  ∀ v, (field, v) ∉ fields

/-- The fields give the field a value, once. -/
def Gives {V : Type} (fields : List (String × V)) (field : String) (v : V) : Prop :=
  ∃ before after, fields = before ++ (field, v) :: after ∧ Lacks before field ∧ Lacks after field

theorem filter_eq_nil_iff_lacks {V : Type} {fields : List (String × V)} {field : String} :
    fields.filter (·.1 == field) = [] ↔ Lacks fields field := by
  simp only [List.filter_eq_nil_iff, beq_iff_eq, Prod.forall, Lacks]
  exact ⟨fun h v given => h field v given rfl, fun h f v given same => h v (same ▸ given)⟩

/-- Nothing is found for a field that is missing. -/
theorem single?_eq_some_none_iff {V : Type} {fields : List (String × V)} {field : String} :
    single? field fields = some none ↔ Lacks fields field := by
  rw [← filter_eq_nil_iff_lacks, single?]
  generalize fields.filter (·.1 == field) = given
  rcases given with _ | ⟨_, _ | _⟩ <;> simp

/-- A value is found for a field that is given once. -/
theorem single?_eq_some_some_iff {V : Type} {fields : List (String × V)} {field : String} {v : V} :
    single? field fields = some (some v) ↔ Gives fields field v := by
  constructor
  · intro one
    have only : ∃ k, fields.filter (·.1 == field) = [(k, v)] := by
      revert one
      rw [single?]
      generalize fields.filter (·.1 == field) = given
      rcases given with _ | ⟨⟨k, w⟩, _ | _⟩ <;> simp
    obtain ⟨k, only⟩ := only
    obtain ⟨before, after, rfl, lacks, same, rest⟩ := List.filter_eq_cons_iff.1 only
    obtain rfl : k = field := by simpa using same
    refine ⟨before, after, rfl, ?_, filter_eq_nil_iff_lacks.1 rest⟩
    intro w given
    exact lacks _ given (beq_self_eq_true k)
  · rintro ⟨before, after, rfl, front, back⟩
    rw [← filter_eq_nil_iff_lacks] at front back
    simp [single?, front, back]

/-- How the values of a format present records, lists and leaves. -/
structure Format (V : Type) where
  /-- The values of the given fields of a record of the given name, each of which may be missing. -/
  slots : String → List String → V → Option (List (Option V))
  text? : V → Option String
  flag? : V → Option Bool
  kind? : V → Option Kind
  items? : V → Option (List V)
  ofFields : List (String × V) → V
  ofText : String → V
  ofFlag : Bool → V
  ofKind : Kind → V
  ofItems : List V → V

namespace Format

variable {V : Type} (F : Format V)

/-- Reads a field that stands for `default` when it is missing. -/
def orDefault {α : Type} (default : α) (read : V → Option α) : Option V → Option α
  | none => some default
  | some v => read v

/-- A name, by default without a package. -/
def name? (v : V) : Option Name :=
  match F.slots "Name" ["package", "name"] v with
  | some [package, some short] => do
    let package ← orDefault "" F.text? package
    let short ← F.text? short
    return { package := package, short := short }
  | _ => none

/-- A member, by default not embedded and with an empty tag. -/
def member? (v : V) : Option Member :=
  match F.slots "Member" ["name", "type_ref", "embedded", "tags"] v with
  | some [some name, some type, embedded, tags] => do
    let name ← F.text? name
    let type ← F.name? type
    let embedded ← orDefault false F.flag? embedded
    let tags ← orDefault "" F.text? tags
    return { name := name, type := type, embedded := embedded, tags := tags }
  | _ => none

/-- A list of members. -/
def members? (v : V) : Option (List Member) :=
  (F.items? v).bind fun items => items.mapM F.member?

/-- A declared type, by default without members. -/
def decl? (v : V) : Option Decl :=
  match F.slots "Type" ["name", "kind", "members"] v with
  | some [some name, some kind, members] => do
    let name ← F.name? name
    let kind ← F.kind? kind
    let members ← orDefault [] F.members? members
    return { name := name, kind := kind, members := members }
  | _ => none

/-- A list of declared types. -/
def decls? (v : V) : Option (List Decl) :=
  (F.items? v).bind fun items => items.mapM F.decl?

/-- The value of a name, with both fields. -/
def ofName (n : Name) : V :=
  F.ofFields [("package", F.ofText n.package), ("name", F.ofText n.short)]

/-- The value of a member, with all fields. -/
def ofMember (m : Member) : V :=
  F.ofFields [("name", F.ofText m.name), ("type_ref", F.ofName m.type),
    ("embedded", F.ofFlag m.embedded), ("tags", F.ofText m.tags)]

/-- The value of a declared type, with all fields. -/
def ofDecl (t : Decl) : V :=
  F.ofFields [("name", F.ofName t.name), ("kind", F.ofKind t.kind),
    ("members", F.ofItems (t.members.map F.ofMember))]

/-- The value of a list of declared types. -/
def ofDecls (types : List Decl) : V :=
  F.ofItems (types.map F.ofDecl)

end Format

end TypeLint
