import Mathlib.Data.List.Forall2
import TypeLint.Schema

/-!
# What records declare

The schema of declared types, said without the functions that read it. Formats differ in how they
write leaves and in what they take for a record, a name or a kind. Which fields a record has and
what they stand for when they are missing is the same in all of them.

## Main definitions

- `Holds`, `HoldsOr` — what a field stands for, without and with a default
- `Leaves` — how a format writes texts, truth values and lists
- `Leaves.DeclaresEach` — a list of declarations
- `Leaves.GivesName`, `Leaves.GivesMember`, `Leaves.GivesType` — what the fields of a record declare
-/

namespace TypeLint

/-- The field is given, and its value stands for `a`. -/
def Holds {V α : Type} (fields : List (String × V)) (field : String) (Stands : V → α → Prop)
    (a : α) : Prop :=
  ∃ v, Gives fields field v ∧ Stands v a

/-- The value of the field stands for `a`, or the field is missing and `a` is the default. -/
def HoldsOr {V α : Type} (fields : List (String × V)) (field : String) (Stands : V → α → Prop)
    (default a : α) : Prop :=
  Holds fields field Stands a ∨ Lacks fields field ∧ a = default

/-- How a format writes texts, truth values and lists. -/
structure Leaves (V : Type) where
  text : String → V
  flag : Bool → V
  list : List V → V

namespace Leaves

variable {V : Type} (L : Leaves V)

/-- The items of a list declare the given things, in order. -/
def DeclaresEach {α : Type} (Declares : V → α → Prop) (v : V) (as : List α) : Prop :=
  ∃ items, v = L.list items ∧ List.Forall₂ Declares items as

/-- The fields of a name. It has no package by default. -/
structure GivesName (fields : List (String × V)) (n : Name) : Prop where
  package : HoldsOr fields "package" (· = L.text ·) "" n.package
  short : Holds fields "name" (· = L.text ·) n.short

/-- The fields of a member. By default it is not embedded and its tag is empty. -/
structure GivesMember (DeclaresName : V → Name → Prop) (fields : List (String × V)) (m : Member) :
    Prop where
  name : Holds fields "name" (· = L.text ·) m.name
  type : Holds fields "type_ref" DeclaresName m.type
  embedded : HoldsOr fields "embedded" (· = L.flag ·) false m.embedded
  tags : HoldsOr fields "tags" (· = L.text ·) "" m.tags

/-- The fields of a type. It has no members by default. -/
structure GivesType (DeclaresName : V → Name → Prop) (DeclaresKind : V → Kind → Prop)
    (DeclaresMember : V → Member → Prop) (fields : List (String × V)) (t : Decl) : Prop where
  name : Holds fields "name" DeclaresName t.name
  kind : Holds fields "kind" DeclaresKind t.kind
  members : HoldsOr fields "members" (L.DeclaresEach DeclaresMember) [] t.members

end Leaves

end TypeLint
