import TypeLint.Meaning
import TypeLint.Snapshot.Schema

/-!
# What snapshot values declare

The schema of declared types in snapshots, said without the functions that read it: which values
declare which names, members and types.

## Main definitions

- `DeclaresName`, `DeclaresKind`, `DeclaresMember`, `DeclaresType` — one declaration
- `DeclaresAll` — a list of types
-/

namespace TypeLint.Snapshot

/-- Every leaf has a sort of value of its own. -/
def leaves : Leaves Value where
  text := .text
  flag := .bool
  list := .list

/-- The value is a record with the fields, of the given name or without one. -/
def IsRecord (name : String) (v : Value) (fields : List (String × Value)) : Prop :=
  v = .record none fields ∨ v = .record (some name) fields

/-- A name is a record. -/
def DeclaresName (v : Value) (n : Name) : Prop :=
  ∃ fields, IsRecord "Name" v fields ∧ leaves.GivesName fields n

/-- A kind is a word, raw or not. -/
def DeclaresKind (v : Value) (k : Kind) : Prop :=
  v = .word k.label

/-- A member is a record. -/
def DeclaresMember (v : Value) (m : Member) : Prop :=
  ∃ fields, IsRecord "Member" v fields ∧ leaves.GivesMember DeclaresName fields m

/-- A type is a record. -/
def DeclaresType (v : Value) (t : Decl) : Prop :=
  ∃ fields, IsRecord "Type" v fields ∧
    leaves.GivesType DeclaresName DeclaresKind DeclaresMember fields t

/-- A list declares the types. -/
def DeclaresAll (v : Value) (types : List Decl) : Prop :=
  leaves.DeclaresEach DeclaresType v types

end TypeLint.Snapshot
