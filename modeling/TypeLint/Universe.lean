import TypeLint.Decl

/-!
# The universe of declared types

A universe holds the declared types of one run in the order in which they were added. Look-ups by
canonical form and by name answer with the earliest match.
-/

namespace TypeLint

/-- The declared types of one run, oldest first. -/
structure Universe where
  types : List Decl
  deriving DecidableEq, Repr

namespace Universe

/-- The universe without types. -/
def empty : Universe :=
  { types := [] }

/-- Adds a type after all others. -/
def push (u : Universe) (t : Decl) : Universe :=
  { types := u.types ++ [t] }

/-- The number of types. -/
def size (u : Universe) : Nat :=
  u.types.length

/-- The earliest type whose name has the given canonical form. -/
def find? (u : Universe) (canonical : String) : Option Decl :=
  u.types.find? fun t => t.name.answersTo canonical

/-- The earliest type with the given name. -/
def get? (u : Universe) (name : Name) : Option Decl :=
  u.types.find? fun t => t.name = name

@[simp] theorem types_empty : empty.types = [] := rfl

@[simp] theorem types_push (u : Universe) (t : Decl) : (u.push t).types = u.types ++ [t] := rfl

@[simp] theorem size_push (u : Universe) (t : Decl) : (u.push t).size = u.size + 1 := by
  simp [size]

end Universe

end TypeLint
