import TypeLint.Rule.Event

/-!
# Rules

A rule looks at one declared type and reports the fields that break it. The empty field name stands
for the type as a whole. A rule that cannot reach a verdict fails with a chain of messages, which is
not a violation.

## Main definitions

- `Failure` — why a rule could not reach a verdict
- `Rule` — a name and a check
- `Rule.silent` — a rule that leaves no trace of its own
- `Rule.onlyFor` — a rule confined to one kind of type
-/

namespace TypeLint

/-- Why something could not be done: a message and the causes behind it, outermost first. -/
structure Failure where
  message : String
  causes : List String
  deriving DecidableEq, Repr

namespace Failure

/-- All messages, outermost first. -/
def chain (f : Failure) : List String :=
  f.message :: f.causes

/-- The failure seen from further out. -/
def within (context : String) (f : Failure) : Failure :=
  { message := context, causes := f.chain }

/-- The whole chain on one line. -/
def line (f : Failure) : String :=
  ": ".intercalate f.chain

@[simp] theorem chain_within (context : String) (f : Failure) :
    (f.within context).chain = context :: f.chain := rfl

end Failure

/-- A rule on declared types. -/
structure Rule where
  /-- The stable identifier that reports use. -/
  name : String
  /-- The names of the offending fields in declaration order, with the rule's own events. -/
  check : Decl → Traced (Except Failure (List String))

namespace Rule

/-- A rule that leaves no trace of its own. -/
def silent (name : String) (verdict : Decl → Except Failure (List String)) : Rule :=
  { name := name, check := fun t => { events := [], result := verdict t } }

/-- A rule that has the same verdict on every type. -/
def constant (name : String) (verdict : Except Failure (List String)) : Rule :=
  silent name fun _ => verdict

/-- The rule on types of one kind. It has nothing to say about other types. -/
def onlyFor (kind : Kind) (r : Rule) : Rule :=
  { name := r.name
    check := fun t => if t.kind = kind then r.check t else { events := [], result := .ok [] } }

/-- The rule that a struct has members. A struct without any breaks it as a whole. -/
def noEmptyStructs : Rule :=
  onlyFor .struct (silent "no_empty_structs" fun t => .ok (if t.members = [] then [""] else []))

end Rule

end TypeLint
