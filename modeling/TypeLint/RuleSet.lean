import TypeLint.Rule.Metadata
import TypeLint.Universe

/-!
# Sets of rules

A rule set runs its rules on a type in the order in which they were registered. The first rule that
fails decides the outcome, and nothing that the rules before it reported is kept.

## Main definitions

- `Violation` — one report, with its printed line
- `RuleSet.run` — all rules on one type, with the trace
- `RuleSet.validate` — the outcome alone
- `RuleSet.standard` — the rules of this library
- `Universe.report` — the printed report on a whole universe
-/

namespace TypeLint

/-- A field of a type that breaks a rule. The field is empty when the type as a whole does. -/
structure Violation where
  rule : String
  package : String
  type : String
  field : String
  deriving DecidableEq, Repr

namespace Violation

/-- The report that `field` of `t` breaks the named rule. -/
def of (rule : String) (t : Decl) (field : String) : Violation :=
  { rule := rule, package := t.name.package, type := t.name.short, field := field }

/-- The printed line of a violation. -/
def line (v : Violation) : String :=
  "API rule violation: " ++ v.rule ++ "," ++ v.package ++ "," ++ v.type ++ "," ++ v.field

end Violation

/-- Rules in registration order. -/
structure RuleSet where
  rules : List Rule

namespace RuleSet

/-- The context of a failure of the named rule on a type. -/
def failureContext (rule : String) (type : Name) : String :=
  "Rule '" ++ rule ++ "' failed to validate " ++ type.canonical

/-- Runs rules on a type, one after the other, until one of them fails. -/
def runRules (t : Decl) : List Rule → Traced (Except Failure (List Violation))
  | [] => { events := [], result := .ok [] }
  | r :: rs =>
    let own := r.check t
    match own.result with
    | .error f =>
      { events := own.events, result := .error (f.within (failureContext r.name t.name)) }
    | .ok fields =>
      let later := runRules t rs
      { events := own.events ++ .validated r.name t.name fields.length :: later.events
        result := later.result.map (fields.map (Violation.of r.name t) ++ ·) }

/-- Runs the rules of the set on a type. -/
def run (s : RuleSet) (t : Decl) : Traced (Except Failure (List Violation)) :=
  runRules t s.rules

/-- The violations of a type, or the failure of the first rule that fails on it. -/
def validate (s : RuleSet) (t : Decl) : Except Failure (List Violation) :=
  (s.run t).result

/-- The events of a validation, oldest first. -/
def trace (s : RuleSet) (t : Decl) : List Event :=
  (s.run t).events

/-- The names of the rules, in registration order. -/
def names (s : RuleSet) : List String :=
  s.rules.map Rule.name

/-- Every rule of this library. -/
def standard : RuleSet :=
  { rules := [.embeddedMetadata] }

end RuleSet

/-- The printed violations of all types under the standard rules, in order. A type on which a rule
    fails has no lines. -/
def Universe.report (u : Universe) : List String :=
  u.types.flatMap fun t =>
    match RuleSet.standard.validate t with
    | .ok violations => violations.map Violation.line
    | .error _ => []

end TypeLint
