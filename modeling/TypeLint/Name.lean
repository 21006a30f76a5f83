/-!
# Names of declared types

A declared type is identified by its package and its short name. The canonical form of a name is the
single string that reports and look-ups use for it.

## Main definitions

- `Name` — package and short name
- `Name.canonical` — the single-string form
- `Name.answersTo` — comparison with a canonical form, without building one
-/

namespace TypeLint

/-- The identity of a declared type. Builtin types such as `string` have the empty package. -/
structure Name where
  package : String
  short : String
  deriving DecidableEq, Repr

namespace Name

/-- A name without a package. -/
def builtin (short : String) : Name :=
  { package := "", short := short }

/-- The canonical form: package, dot and short name, or the short name alone when the package is
    empty. -/
def canonical (n : Name) : String :=
  if n.package = "" then n.short else n.package ++ "." ++ n.short

/-- Whether `s` is the canonical form of the name. The package and the dot are stripped from `s`
    and what is left is compared with the short name, so no string is built. -/
def answersTo (n : Name) (s : String) : Bool :=
  if n.package = "" then
    n.short == s
  else
    match n.package.toList.isPrefixOf? s.toList with
    | some ('.' :: rest) => rest == n.short.toList
    | _ => false

end Name

end TypeLint
