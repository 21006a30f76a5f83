import TypeLint.Decl

/-!
# The trace of a validation

Validating a type leaves a trace of events beside its result. An event has a level, a message and
named fields for whoever prints it.

## Main definitions

- `Event` — what can happen during a validation
- `Traced` — a result with the events on the way to it
-/

namespace TypeLint

/-- How much an event matters to a reader of the trace. -/
inductive Level where
  | trace | debug
  deriving DecidableEq, Repr

/-- The word for a level in a printed trace. -/
def Level.label : Level → String
  | trace => "TRACE"
  | debug => "DEBUG"

/-- The value of a field of an event. -/
inductive FieldValue where
  | text (value : String)
  | number (value : Nat)
  deriving DecidableEq, Repr

/-- Something that happens during a validation. -/
inductive Event where
  /-- A rule about structs passes over a type of another kind. -/
  | skipped (type : Name) (kind : Kind)
  /-- An embedded metadata field does not have the serialized name that the rule asks for. -/
  | misnamed (rule : String) (type : Name) (field : String) (embedded : Name)
  /-- A rule has looked at a type without failing. -/
  | validated (rule : String) (type : Name) (violations : Nat)
  deriving DecidableEq, Repr

namespace Event

/-- The level of an event. -/
def level : Event → Level
  | skipped .. => .trace
  | misnamed .. => .debug
  | validated .. => .debug

/-- The message of an event. -/
def message : Event → String
  | skipped .. => "skipping non-struct type"
  | misnamed .. => "embedded metadata is not serialized as \"metadata\""
  | validated .. => "validated type"

/-- The fields of an event, in the order in which they are printed. -/
def fields : Event → List (String × FieldValue)
  | skipped type kind => [("type_name", .text type.canonical), ("kind", .text kind.label)]
  | misnamed rule type field embedded =>
    [("rule", .text rule), ("type_name", .text type.canonical), ("field", .text field),
      ("embedded_type", .text embedded.canonical)]
  | validated rule type violations =>
    [("rule", .text rule), ("type_name", .text type.canonical), ("violations", .number violations)]

end Event

/-- A result together with the events on the way to it, oldest first. -/
structure Traced (α : Type) where
  events : List Event
  result : α

end TypeLint
