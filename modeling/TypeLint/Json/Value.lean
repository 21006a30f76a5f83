import TypeLint.Json.Token

/-!
# JSON values

A value is read from tokens by a machine with a stack of open arrays and objects, one step per
token. The tokens of a value are unique, so its compact text is the concatenation of their
spellings.

## Main definitions

- `Value` — the values of documents
- `State.step` — what one token does to the machine
- `Value.ofTokens?` — the value that tokens spell
- `Value.read?` — the value of a document
- `Value.tokens`, `Value.compact` — the way back
-/

namespace TypeLint.Json

/-- The values of documents. Fields of objects keep their order and may repeat. -/
inductive Value where
  | null
  | bool (value : Bool)
  | number (literal : String)
  | string (text : Option String)
  | array (items : List Value)
  | object (fields : List (Option String × Value))

/-- An array or object that is still open, with what it holds so far, latest first. -/
inductive Frame where
  | array (done : List Value)
  | object (done : List (Option String × Value)) (key : Option String)

/-- What the machine has read and waits for. The stack holds the open containers, innermost
    first. -/
inductive State where
  /-- A value has to come. -/
  | value (stack : List Frame)
  /-- An array has just been opened. -/
  | opened (stack : List Frame)
  /-- An object has just been opened. -/
  | openedObject (stack : List Frame)
  /-- A key has to come. -/
  | key (done : List (Option String × Value)) (stack : List Frame)
  /-- The colon after a key has to come. -/
  | colon (done : List (Option String × Value)) (key : Option String) (stack : List Frame)
  /-- A value has just been completed. -/
  | complete (v : Value) (stack : List Frame)

namespace State

/-- A token where a value has to come. -/
def start (stack : List Frame) : Token → Option State
  | .null => some (complete .null stack)
  | .bool b => some (complete (.bool b) stack)
  | .number literal => some (complete (.number literal) stack)
  | .string text => some (complete (.string text) stack)
  | .openBracket => some (opened stack)
  | .openBrace => some (openedObject stack)
  | _ => none

/-- What one token does to the machine. -/
def step : State → Token → Option State
  | value stack, t => start stack t
  | opened stack, .closeBracket => some (complete (.array []) stack)
  | opened stack, t => start (.array [] :: stack) t
  | openedObject stack, .closeBrace => some (complete (.object []) stack)
  | openedObject stack, .string k => some (colon [] k stack)
  | key done stack, .string k => some (colon done k stack)
  | colon done k stack, .colon => some (value (.object done k :: stack))
  | complete v (.array done :: stack), .comma => some (value (.array (v :: done) :: stack))
  | complete v (.array done :: stack), .closeBracket =>
    some (complete (.array (v :: done).reverse) stack)
  | complete v (.object done k :: stack), .comma => some (key ((k, v) :: done) stack)
  | complete v (.object done k :: stack), .closeBrace =>
    some (complete (.object ((k, v) :: done).reverse) stack)
  | _, _ => none

/-- The value of a machine that has read a whole document. -/
def result? : State → Option Value
  | complete v [] => some v
  | _ => none

end State

namespace Value

/-- The value that tokens spell. -/
def ofTokens? (tokens : List Token) : Option Value :=
  match tokens.foldlM State.step (.value []) with
  | some s => s.result?
  | none => none

/-- The value of a document. -/
def read? (text : List Char) : Option Value :=
  match Token.scan text with
  | some tokens => ofTokens? tokens
  | none => none

mutual

/-- The tokens that spell a value. -/
def tokens : Value → List Token
  | null => [.null]
  | bool b => [.bool b]
  | number literal => [.number literal]
  | string text => [.string text]
  | array items => .openBracket :: itemTokens items ++ [.closeBracket]
  | object fields => .openBrace :: fieldTokens fields ++ [.closeBrace]

/-- The tokens of the items of an array, with commas between them. -/
def itemTokens : List Value → List Token
  | [] => []
  | [v] => v.tokens
  | v :: items => v.tokens ++ .comma :: itemTokens items

/-- The tokens of the fields of an object, with commas between them. -/
def fieldTokens : List (Option String × Value) → List Token
  | [] => []
  | [(k, v)] => .string k :: .colon :: v.tokens
  | (k, v) :: fields => .string k :: .colon :: v.tokens ++ .comma :: fieldTokens fields

end

/-- The text of a value without blanks. -/
def compact (v : Value) : List Char :=
  v.tokens.flatMap Token.spelling

end Value

end TypeLint.Json
