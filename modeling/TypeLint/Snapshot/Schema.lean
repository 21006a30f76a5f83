import TypeLint.Schema
import TypeLint.Snapshot.Layout
import TypeLint.Text.Invisible

/-!
# Declared types in snapshots

A snapshot is a list of declared types. A record may have its own name in front, and a kind is a
word.

## Main definitions

- `format` — how snapshots present declared types
- `Universe.ofSnapshot?` — the universe of a file
- `Universe.toSnapshot` — the file of a universe
-/

namespace TypeLint.Snapshot

/-- The values of the given fields of a record that has the given name or none. Each field may be
    missing and is given at most once. -/
def slots (name : String) (fields : List String) : Value → Option (List (Option Value))
  | .record own entries =>
    if own = none ∨ own = some name then fields.mapM fun f => single? f entries else none
  | _ => none

/-- A text. -/
def text? : Value → Option String
  | .text s => some s
  | _ => none

/-- A truth value. -/
def flag? : Value → Option Bool
  | .bool b => some b
  | _ => none

/-- A kind. -/
def kind? : Value → Option Kind
  | .word label => Kind.ofLabel? label
  | _ => none

/-- The items of a list. -/
def items? : Value → Option (List Value)
  | .list items => some items
  | _ => none

/-- How snapshots present declared types. Records are written without their name. -/
def format : Format Value where
  slots := slots
  text? := text?
  flag? := flag?
  kind? := kind?
  items? := items?
  ofFields := .record none
  ofText := .text
  ofFlag := .bool
  ofKind k := .word k.label
  ofItems := .list

end TypeLint.Snapshot

namespace TypeLint.Universe

open Snapshot

/-- The universe that a snapshot file holds. -/
def ofSnapshot? (file : List UInt8) : Option Universe :=
  match Value.read? file with
  | some v => (format.decls? v).map Universe.mk
  | none => none

/-- The snapshot of a universe, with every character written by its number that `numbered` says. -/
def toSnapshotWith (numbered : Char → Bool) (u : Universe) : String :=
  String.ofList ((format.ofDecls u.types).write numbered)

/-- The snapshot of a universe, with invisible characters written by their number. -/
def toSnapshot (u : Universe) : String :=
  u.toSnapshotWith Text.isInvisible

end TypeLint.Universe
