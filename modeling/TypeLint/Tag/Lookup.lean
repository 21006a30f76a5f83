import TypeLint.Tag.Entry

/-!
# Values of a tag

The first entry of a key decides what the key stands for; when its literal is invalid the key has no
value, even if a later entry of the same key is valid.

## Main definitions

- `lookup` — the value of one key
- `get` — the same, with the empty text for a key without a value
- `table` — every key that has a value, in increasing order
-/

namespace TypeLint.Tag

/-- The value of a key, if its first entry has a valid literal. -/
def lookup (tag key : String) : Option String :=
  match (entries tag.toList).find? (·.key == key.toList) with
  | none => none
  | some e => e.value?.map String.ofList

/-- The value of a key, or the empty text. -/
def get (tag key : String) : String :=
  (lookup tag key).getD ""

/-- The entries whose key is not among `seen` and occurs in no entry before. -/
def firstOfEach (seen : List (List Char)) : List Entry → List Entry
  | [] => []
  | e :: es =>
    if e.key ∈ seen then firstOfEach seen es else e :: firstOfEach (e.key :: seen) es

/-- Every key that has a value, with the value, in increasing order of keys by code point. -/
def table (tag : String) : List (String × String) :=
  let valued := (firstOfEach [] (entries tag.toList)).filterMap fun e =>
    e.value?.map fun value => (String.ofList e.key, String.ofList value)
  valued.mergeSort fun a b => decide (a.1 ≤ b.1)

end TypeLint.Tag
