import TypeLint.Json.Value
import TypeLint.Schema

/-!
# Declared types in JSON

A record is an object, or the array of its fields in declared order without trailing fields that
have a default. A kind is its label, or an object with the label as its only key and null as the
value.

## Main definitions

- `format` — how JSON presents declared types
- `Universe.ofJsonList?`, `Universe.ofJson?` — a universe from a document
- `Universe.toJson` — the document of a universe
-/

namespace TypeLint.Json

/-- The values of the given fields, each of which may be missing. An object gives them by key, at
    most once each, and an array by position. -/
def slots (fields : List String) : Value → Option (List (Option Value))
  | .object entries =>
    match entries.mapM fun (k, v) => k.map (·, v) with
    | some entries => fields.mapM fun f => single? f entries
    | none => none
  | .array items =>
    if items.length ≤ fields.length then
      some (items.map some ++ List.replicate (fields.length - items.length) none)
    else none
  | _ => none

/-- A text. -/
def text? : Value → Option String
  | .string s => s
  | _ => none

/-- A truth value. -/
def flag? : Value → Option Bool
  | .bool b => some b
  | _ => none

/-- A kind. -/
def kind? : Value → Option Kind
  | .string (some label) => Kind.ofLabel? label
  | .object [(some label, .null)] => Kind.ofLabel? label
  | _ => none

/-- The items of an array. -/
def items? : Value → Option (List Value)
  | .array items => some items
  | _ => none

/-- How JSON presents declared types. Records are written as objects and kinds as labels. -/
def format : Format Value where
  slots _ := slots
  text? := text?
  flag? := flag?
  kind? := kind?
  items? := items?
  ofFields fields := .object (fields.map fun (f, v) => (some f, v))
  ofText s := .string (some s)
  ofFlag := .bool
  ofKind k := .string (some k.label)
  ofItems := .array

/-- The universe that a value holds: an object with the field `types`, or its array form. -/
def universe? (v : Value) : Option Universe :=
  match slots ["types"] v with
  | some [some types] => (format.decls? types).map Universe.mk
  | _ => none

/-- The value of a universe. -/
def ofUniverse (u : Universe) : Value :=
  format.ofFields [("types", format.ofDecls u.types)]

end TypeLint.Json

namespace TypeLint.Universe

open Json

/-- The universe that a bare list of types declares. -/
def ofJsonList? (text : String) : Option Universe :=
  match Value.read? text.toList with
  | some v => (format.decls? v).map Universe.mk
  | none => none

/-- The universe that a document of the form of `toJson` declares. -/
def ofJson? (text : String) : Option Universe :=
  match Value.read? text.toList with
  | some v => universe? v
  | none => none

/-- The document of a universe, without blanks and with every field. -/
def toJson (u : Universe) : String :=
  String.ofList (ofUniverse u).compact

end TypeLint.Universe
