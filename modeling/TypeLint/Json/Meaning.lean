import TypeLint.Json.Schema
import TypeLint.Meaning

/-!
# What JSON values declare

The schema of declared types in JSON, said without the functions that read it: which values declare
which names, members and types.

## Main definitions

- `DeclaresName`, `DeclaresKind`, `DeclaresMember`, `DeclaresType` — one declaration
- `DeclaresAll` — a list of types
- `DeclaresUniverse` — an object or array that holds such a list
-/

namespace TypeLint.Json

/-- Lists are arrays. -/
def leaves : Leaves Value where
  text s := .string (some s)
  flag := .bool
  list := .array

/-- The entries of an object whose keys all have a text. -/
def entries (fields : List (String × Value)) : List (Option String × Value) :=
  fields.map fun (f, v) => (some f, v)

/-- A name is an object, or an array of both fields. -/
inductive DeclaresName : Value → Name → Prop
  | object {fields : List (String × Value)} {n : Name} :
      leaves.GivesName fields n → DeclaresName (.object (entries fields)) n
  | array {package short : String} :
      DeclaresName (.array [.string (some package), .string (some short)]) ⟨package, short⟩

/-- A kind is its label, or an object with the label as its only key and null as the value. -/
inductive DeclaresKind : Value → Kind → Prop
  | label {k : Kind} : DeclaresKind (.string (some k.label)) k
  | object {k : Kind} : DeclaresKind (.object [(some k.label, .null)]) k

/-- A member is an object, or an array of its first two, three or four fields. -/
inductive DeclaresMember : Value → Member → Prop
  | object {fields : List (String × Value)} {m : Member} :
      leaves.GivesMember DeclaresName fields m → DeclaresMember (.object (entries fields)) m
  | two {name : String} {v : Value} {type : Name} :
      DeclaresName v type →
      DeclaresMember (.array [.string (some name), v]) ⟨name, type, false, ""⟩
  | three {name : String} {v : Value} {type : Name} {embedded : Bool} :
      DeclaresName v type →
      DeclaresMember (.array [.string (some name), v, .bool embedded]) ⟨name, type, embedded, ""⟩
  | four {name tags : String} {v : Value} {type : Name} {embedded : Bool} :
      DeclaresName v type →
      DeclaresMember (.array [.string (some name), v, .bool embedded, .string (some tags)])
        ⟨name, type, embedded, tags⟩

/-- A type is an object, or an array of its first two or all three fields. -/
inductive DeclaresType : Value → Decl → Prop
  | object {fields : List (String × Value)} {t : Decl} :
      leaves.GivesType DeclaresName DeclaresKind DeclaresMember fields t →
      DeclaresType (.object (entries fields)) t
  | two {v w : Value} {name : Name} {kind : Kind} :
      DeclaresName v name → DeclaresKind w kind → DeclaresType (.array [v, w]) ⟨name, kind, []⟩
  | three {v w x : Value} {name : Name} {kind : Kind} {members : List Member} :
      DeclaresName v name → DeclaresKind w kind → leaves.DeclaresEach DeclaresMember x members →
      DeclaresType (.array [v, w, x]) ⟨name, kind, members⟩

/-- An array declares the types. -/
def DeclaresAll (v : Value) (types : List Decl) : Prop :=
  leaves.DeclaresEach DeclaresType v types

/-- An object with the field `types`, or an array with that field alone, declares a universe. -/
inductive DeclaresUniverse : Value → Universe → Prop
  | object {fields : List (String × Value)} {u : Universe} :
      Holds fields "types" DeclaresAll u.types → DeclaresUniverse (.object (entries fields)) u
  | array {v : Value} {u : Universe} : DeclaresAll v u.types → DeclaresUniverse (.array [v]) u

end TypeLint.Json
