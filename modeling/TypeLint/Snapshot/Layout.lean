import TypeLint.Snapshot.Value

/-!
# The layout of written snapshots

A written value has one item, field or entry to a line, indented by four spaces for each container
around it, and a comma after each of them. Empty lists stay on one line, and so does the content of
a `Some`.

## Main definitions

- `Mark` — tokens with the layout between them
- `Value.marks` — the layout of a value
- `Value.write` — the written form of a value
-/

namespace TypeLint.Snapshot

/-- A token, a space, or a line break followed by the indentation of a depth. -/
inductive Mark where
  | token (t : Token)
  | space
  | newline (depth : Nat)
  deriving DecidableEq, Repr

/-- How a token is written. -/
def Token.spelling (numbered : Char → Bool) : Token → List Char
  | openRound => ['(']
  | closeRound => [')']
  | openSquare => ['[']
  | closeSquare => [']']
  | openCurly => ['\x7b']
  | closeCurly => ['\x7d']
  | unit => ['(', ')']
  | comma => [',']
  | colon => [':']
  | hash => ['#']
  | bang => ['!']
  | word name raw => if raw then 'r' :: '#' :: name.toList else name.toList
  | number literal => literal.toList
  | char value => quoteCharacter numbered value
  | text value => quote numbered value

/-- How a mark is written. -/
def Mark.spelling (numbered : Char → Bool) : Mark → List Char
  | token t => t.spelling numbered
  | space => [' ']
  | newline depth => '\n' :: List.replicate (4 * depth) ' '

/-- The name in front of a tuple or record. -/
def nameMarks (name : Option String) : List Mark :=
  name.toList.map fun n => .token (.word n false)

namespace Value

mutual

/-- The layout of a value inside `depth` containers. -/
def marks (depth : Nat) : Value → List Mark
  | unit => [.token .unit]
  | bool b => [.token (.word (if b then "true" else "false") false)]
  | number literal => [.token (.number literal)]
  | char c => [.token (.char c)]
  | text s => [.token (.text s)]
  | word name => [.token (.word name false)]
  | nothing => [.token (.word "None" false)]
  | just v =>
    .token (.word "Some" false) :: .token .openRound :: marks depth v ++ [.token .closeRound]
  | list [] => [.token .openSquare, .token .closeSquare]
  | list items =>
    .token .openSquare :: itemMarks (depth + 1) items ++ [.newline depth, .token .closeSquare]
  | tuple name items =>
    nameMarks name ++
      .token .openRound :: itemMarks (depth + 1) items ++ [.newline depth, .token .closeRound]
  | record name fields =>
    nameMarks name ++
      .token .openRound :: fieldMarks (depth + 1) fields ++ [.newline depth, .token .closeRound]
  | map entries =>
    .token .openCurly :: entryMarks (depth + 1) entries ++ [.newline depth, .token .closeCurly]

/-- The lines of the items of a list or tuple. -/
def itemMarks (depth : Nat) : List Value → List Mark
  | [] => []
  | v :: items => .newline depth :: marks depth v ++ .token .comma :: itemMarks depth items

/-- The lines of the fields of a record. -/
def fieldMarks (depth : Nat) : List (String × Value) → List Mark
  | [] => []
  | (f, v) :: fields =>
    .newline depth :: .token (.word f false) :: .token .colon :: .space :: marks depth v ++
      .token .comma :: fieldMarks depth fields

/-- The lines of the entries of a map. -/
def entryMarks (depth : Nat) : List (Value × Value) → List Mark
  | [] => []
  | (k, v) :: entries =>
    .newline depth :: marks depth k ++ .token .colon :: .space :: marks depth v ++
      .token .comma :: entryMarks depth entries

end

/-- The written form of a value. -/
def write (numbered : Char → Bool) (v : Value) : List Char :=
  (v.marks 0).flatMap (Mark.spelling numbered)

end Value

end TypeLint.Snapshot
