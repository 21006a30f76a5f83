import TypeLint.Name

/-!
# Declared types

A rule sees a declared type as its name, its kind and, for structs, its members in declaration
order. Nothing here looks at where the declaration came from.

## Main definitions

- `Kind` — what sort of type is declared
- `Member` — one field of a struct
- `Decl` — a declared type
-/

namespace TypeLint

/-- The kind of a declared type. Only structs are expected to have members. -/
inductive Kind where
  | builtin | struct | map | slice | array | pointer | aliased | interface | func | chan
  | unsupported
  deriving DecidableEq, Repr

namespace Kind

/-- Every kind, in declaration order. -/
def all : List Kind :=
  [builtin, struct, map, slice, array, pointer, aliased, interface, func, chan, unsupported]

/-- The word that stands for a kind in documents and in the trace. -/
def label : Kind → String
  | builtin => "Builtin"
  | struct => "Struct"
  | map => "Map"
  | slice => "Slice"
  | array => "Array"
  | pointer => "Pointer"
  | aliased => "Alias"
  | interface => "Interface"
  | func => "Func"
  | chan => "Chan"
  | unsupported => "Unsupported"

/-- The kind with the given label. -/
def ofLabel? (s : String) : Option Kind :=
  all.find? (·.label == s)

/-- The label of a kind is read as the kind. -/
@[simp] theorem ofLabel?_label (k : Kind) : ofLabel? k.label = some k := by
  cases k <;> decide

/-- A text is read as the kind whose label it is. -/
theorem ofLabel?_eq_some_iff {s : String} {k : Kind} : ofLabel? s = some k ↔ k.label = s := by
  refine ⟨fun h => ?_, fun h => h ▸ ofLabel?_label k⟩
  simpa using List.find?_some h

end Kind

/-- One field of a struct type. -/
structure Member where
  /-- The declared identifier. -/
  name : String
  /-- The identity of the field's type. -/
  type : Name
  /-- Whether the field is declared by its type alone. -/
  embedded : Bool
  /-- The raw tag text. -/
  tags : String
  deriving DecidableEq, Repr

namespace Member

/-- A field with an identifier of its own. -/
def named (name : String) (type : Name) (tags : String) : Member :=
  { name := name, type := type, embedded := false, tags := tags }

/-- An embedded field. Its identifier is the short name of its type. -/
def embedding (type : Name) (tags : String) : Member :=
  { name := type.short, type := type, embedded := true, tags := tags }

end Member

/-- A declared type as the rules see it. -/
structure Decl where
  name : Name
  kind : Kind
  members : List Member
  deriving DecidableEq, Repr

namespace Decl

/-- A struct with the given members. -/
def struct (name : Name) (members : List Member) : Decl :=
  { name := name, kind := .struct, members := members }

/-- A type without members. -/
def ofKind (name : Name) (kind : Kind) : Decl :=
  { name := name, kind := kind, members := [] }

end Decl

end TypeLint
