import TypeLint.Snapshot.Token

/-!
# Values of snapshots

A value is read from tokens by a machine with a stack of open containers, one step per token. Lists,
tuples, maps and records may end with a comma, and a tuple or record may be preceded by its name.

## Main definitions

- `Value` — the values of snapshots
- `Value.depth`, `Value.fits` — how deep a value nests, and whether that is within a limit
- `State.step` — what one token does to the machine
- `dropHeaders` — the headers in front of the value
- `Value.ofTokens?` — the value that tokens spell
- `Value.read?` — the value of a file

## Design notes

What stands between parentheses is a record if it starts with a word and a colon, and a tuple
otherwise. The machine waits for the token after the word and then takes two steps at once.

Declared types are made of texts, words, truth values, lists and records. The other values only
occur in fields that a schema does not know, but what is in such fields has to be well formed, too.
-/

namespace TypeLint.Snapshot

/-- The values of snapshots. Fields of records and entries of maps keep their order and may repeat.
    A word without parentheses after it is a value of its own. -/
inductive Value where
  | unit
  | bool (value : Bool)
  | number (literal : String)
  | char (value : Char)
  | text (value : String)
  | word (name : String)
  | nothing
  | just (content : Value)
  | list (items : List Value)
  | tuple (name : Option String) (items : List Value)
  | record (name : Option String) (fields : List (String × Value))
  | map (entries : List (Value × Value))

namespace Value

mutual

/-- How deep a value nests. A container is one level and each place in it another. -/
def depth : Value → Nat
  | just v => 1 + v.depth
  | list items => 1 + depthOfItems items
  | tuple _ items => 1 + depthOfItems items
  | record _ fields => 1 + depthOfFields fields
  | map entries => 1 + depthOfEntries entries
  | _ => 0

/-- The depth of the places of a list or tuple. -/
def depthOfItems : List Value → Nat
  | [] => 0
  | v :: items => max (1 + v.depth) (depthOfItems items)

/-- The depth of the fields of a record. -/
def depthOfFields : List (String × Value) → Nat
  | [] => 0
  | (_, v) :: fields => max (1 + v.depth) (depthOfFields fields)

/-- The depth of the entries of a map. -/
def depthOfEntries : List (Value × Value) → Nat
  | [] => 0
  | (k, v) :: entries => max (1 + max k.depth v.depth) (depthOfEntries entries)

end

mutual

/-- Whether a value nests at most `limit` deep. Nothing below the limit is looked at. -/
def fits (limit : Nat) : Value → Bool
  | just v => 0 < limit && v.fits (limit - 1)
  | list items => 0 < limit && itemsFit (limit - 1) items
  | tuple _ items => 0 < limit && itemsFit (limit - 1) items
  | record _ fields => 0 < limit && fieldsFit (limit - 1) fields
  | map entries => 0 < limit && entriesFit (limit - 1) entries
  | _ => true

/-- Whether the places of a list or tuple are at most `limit` deep. -/
def itemsFit (limit : Nat) : List Value → Bool
  | [] => true
  | v :: items => 0 < limit && v.fits (limit - 1) && itemsFit limit items

/-- Whether the fields of a record are at most `limit` deep. -/
def fieldsFit (limit : Nat) : List (String × Value) → Bool
  | [] => true
  | (_, v) :: fields => 0 < limit && v.fits (limit - 1) && fieldsFit limit fields

/-- Whether the entries of a map are at most `limit` deep. -/
def entriesFit (limit : Nat) : List (Value × Value) → Bool
  | [] => true
  | (k, v) :: entries =>
    0 < limit && k.fits (limit - 1) && v.fits (limit - 1) && entriesFit limit entries

end

mutual

/-- A value fits when it does not nest deeper than the limit. -/
theorem fits_iff (limit : Nat) : (v : Value) → (v.fits limit ↔ v.depth ≤ limit)
  | unit | bool _ | number _ | char _ | text _ | word _ | nothing => by simp [fits, depth]
  | just v => by
    simp only [fits, depth, Bool.and_eq_true, decide_eq_true_eq, fits_iff (limit - 1) v]
    omega
  | list items => by
    simp only [fits, depth, Bool.and_eq_true, decide_eq_true_eq, itemsFit_iff (limit - 1) items]
    omega
  | tuple _ items => by
    simp only [fits, depth, Bool.and_eq_true, decide_eq_true_eq, itemsFit_iff (limit - 1) items]
    omega
  | record _ fields => by
    simp only [fits, depth, Bool.and_eq_true, decide_eq_true_eq, fieldsFit_iff (limit - 1) fields]
    omega
  | map entries => by
    simp only [fits, depth, Bool.and_eq_true, decide_eq_true_eq, entriesFit_iff (limit - 1) entries]
    omega

theorem itemsFit_iff (limit : Nat) :
    (items : List Value) → (itemsFit limit items ↔ depthOfItems items ≤ limit)
  | [] => by simp [itemsFit, depthOfItems]
  | v :: items => by
    simp only [itemsFit, depthOfItems, Bool.and_eq_true, decide_eq_true_eq, fits_iff (limit - 1) v,
      itemsFit_iff limit items]
    omega

theorem fieldsFit_iff (limit : Nat) :
    (fields : List (String × Value)) → (fieldsFit limit fields ↔ depthOfFields fields ≤ limit)
  | [] => by simp [fieldsFit, depthOfFields]
  | (_, v) :: fields => by
    simp only [fieldsFit, depthOfFields, Bool.and_eq_true, decide_eq_true_eq,
      fits_iff (limit - 1) v, fieldsFit_iff limit fields]
    omega

theorem entriesFit_iff (limit : Nat) :
    (entries : List (Value × Value)) → (entriesFit limit entries ↔ depthOfEntries entries ≤ limit)
  | [] => by simp [entriesFit, depthOfEntries]
  | (k, v) :: entries => by
    simp only [entriesFit, depthOfEntries, Bool.and_eq_true, decide_eq_true_eq,
      fits_iff (limit - 1) k, fits_iff (limit - 1) v, entriesFit_iff limit entries]
    omega

end

end Value

/-- A container that is still open, with what it holds so far, latest first. -/
inductive Frame where
  | list (done : List Value)
  | tuple (name : Option String) (done : List Value)
  | record (name : Option String) (done : List (String × Value)) (field : String)
  /-- A map with an entry whose key is being read. -/
  | key (done : List (Value × Value))
  /-- A map with an entry whose value is being read. -/
  | entry (done : List (Value × Value)) (key : Value)
  /-- The parentheses after `Some`. -/
  | just
  /-- A `Some` without parentheses. It is over when its content is. -/
  | bare

/-- What the machine has read and waits for. The stack holds the open containers, innermost
    first. -/
inductive State where
  /-- A value has to come. -/
  | value (stack : List Frame)
  /-- The content of a `Some` has to come. -/
  | content (stack : List Frame)
  /-- The next item of a list may come. -/
  | item (done : List Value) (stack : List Frame)
  /-- A parenthesis has just been opened. -/
  | opened (name : Option String) (stack : List Frame)
  /-- A word has come right after the parenthesis. -/
  | first (name : Option String) (word : String) (raw : Bool) (stack : List Frame)
  /-- The next item of a tuple may come. -/
  | place (name : Option String) (done : List Value) (stack : List Frame)
  /-- The next field of a record may come. -/
  | field (name : Option String) (done : List (String × Value)) (stack : List Frame)
  /-- The colon after the name of a field has to come. -/
  | colon (name : Option String) (done : List (String × Value)) (field : String)
      (stack : List Frame)
  /-- The next entry of a map may come. -/
  | entry (done : List (Value × Value)) (stack : List Frame)
  /-- The parenthesis that closes a `Some` has to come. -/
  | closing (v : Value) (stack : List Frame)
  /-- A value has just been completed. -/
  | complete (v : Value) (stack : List Frame)

namespace State

/-- A word where a value has to come. A raw one stands for nothing but itself. -/
def startWord (stack : List Frame) : String → Bool → State
  | "true", false => complete (.bool true) stack
  | "false", false => complete (.bool false) stack
  | "inf", false => complete (.number "inf") stack
  | "NaN", false => complete (.number "NaN") stack
  | "None", false => complete .nothing stack
  | "Some", false => content stack
  | name, _ => complete (.word name) stack

/-- A token where a value has to come. -/
def start (stack : List Frame) : Token → Option State
  | .word name raw => some (startWord stack name raw)
  | .number literal => some (complete (.number literal) stack)
  | .char c => some (complete (.char c) stack)
  | .text s => some (complete (.text s) stack)
  | .unit => some (complete .unit stack)
  | .openSquare => some (item [] stack)
  | .openRound => some (opened none stack)
  | .openCurly => some (entry [] stack)
  | .closeRound | .closeSquare | .closeCurly | .comma | .colon | .hash | .bang => none

/-- A completed value with what is left of the stack when no bare `Some` is around it any more. -/
def settle (v : Value) : List Frame → Value × List Frame
  | .bare :: stack => settle (.just v) stack
  | stack => (v, stack)

/-- A token after a value, inside the given containers. -/
def finish (v : Value) : List Frame → Token → Option State
  | .list done :: stack, .comma => some (item (v :: done) stack)
  | .list done :: stack, .closeSquare => some (complete (.list (v :: done).reverse) stack)
  | .tuple name done :: stack, .comma => some (place name (v :: done) stack)
  | .tuple name done :: stack, .closeRound =>
    some (complete (.tuple name (v :: done).reverse) stack)
  | .record name done f :: stack, .comma => some (field name ((f, v) :: done) stack)
  | .record name done f :: stack, .closeRound =>
    some (complete (.record name ((f, v) :: done).reverse) stack)
  | .key done :: stack, .colon => some (value (.entry done v :: stack))
  | .entry done k :: stack, .comma => some (entry ((k, v) :: done) stack)
  | .entry done k :: stack, .closeCurly => some (complete (.map ((k, v) :: done).reverse) stack)
  | .just :: stack, .comma => some (closing v stack)
  | .just :: stack, .closeRound => some (complete (.just v) stack)
  | _, _ => none

/-- What one token does to the machine when no word right after a parenthesis is undecided. A `Some`
    may go without parentheses if `bare` says so. -/
def advance (bare : Bool) : State → Token → Option State
  | value stack, t => start stack t
  | content stack, .openRound => some (value (.just :: stack))
  | content _, .unit => none
  | content stack, t => if bare then start (.bare :: stack) t else none
  | item done stack, .closeSquare => some (complete (.list done.reverse) stack)
  | item done stack, t => start (.list done :: stack) t
  | opened name stack, .closeRound => some (complete (.tuple name []) stack)
  | opened name stack, .word w raw => some (first name w raw stack)
  | opened name stack, t => start (.tuple name [] :: stack) t
  | place name done stack, .closeRound => some (complete (.tuple name done.reverse) stack)
  | place name done stack, t => start (.tuple name done :: stack) t
  | field name done stack, .closeRound => some (complete (.record name done.reverse) stack)
  | field name done stack, .word f _ => some (colon name done f stack)
  | colon name done f stack, .colon => some (value (.record name done f :: stack))
  | entry done stack, .closeCurly => some (complete (.map done.reverse) stack)
  | entry done stack, t => start (.key done :: stack) t
  | closing v stack, .closeRound => some (complete (.just v) stack)
  | complete (.word name) stack, .openRound => some (opened (some name) stack)
  | complete (.word name) stack, .unit => some (complete (.tuple (some name) []) stack)
  | complete v stack, t => finish (settle v stack).1 (settle v stack).2 t
  | _, _ => none

/-- What one token does to the machine. -/
def step (bare : Bool) : State → Token → Option State
  | first name w _ stack, .colon => some (value (.record name [] w :: stack))
  | first name w raw stack, t =>
    (start (.tuple name [] :: stack) (.word w raw)).bind fun s => advance bare s t
  | s, t => advance bare s t

/-- The value of a machine that has read a whole snapshot. -/
def result? : State → Option Value
  | complete v stack =>
    match settle v stack with
    | (v, []) => some v
    | _ => none
  | _ => none

end State

/-- The extension that lets a `Some` go without parentheses. -/
def bareSome : String :=
  "implicit_some"

/-- The extensions that a header may enable. -/
def extensions : List String :=
  [bareSome, "unwrap_newtypes", "unwrap_variant_newtypes"]

/-- Drops headers of the form `#![enable(extension, …)]` from the front of the tokens. The flags say
    whether a `Some` may go without parentheses by the headers so far, and whether the next token is
    inside the parentheses of a header. The first of them is part of the result. -/
def dropHeaders : (bare inside : Bool) → List Token → Option (Bool × List Token)
  | bare, false, .hash :: .bang :: .openSquare :: .word "enable" false :: .openRound :: tokens =>
    dropHeaders bare true tokens
  | bare, false, tokens => some (bare, tokens)
  | bare, true, .word e _ :: .closeRound :: .closeSquare :: tokens =>
    if e ∈ extensions then dropHeaders (bare || e == bareSome) false tokens else none
  | bare, true, .word e _ :: .comma :: .closeRound :: .closeSquare :: tokens =>
    if e ∈ extensions then dropHeaders (bare || e == bareSome) false tokens else none
  | bare, true, .word e _ :: .comma :: tokens =>
    if e ∈ extensions then dropHeaders (bare || e == bareSome) true tokens else none
  | _, true, _ => none

namespace Value

/-- The greatest depth of a value that can be read. -/
def depthLimit : Nat := 128

/-- The value that tokens spell, if it does not nest too deep. -/
def ofTokens? (bare : Bool) (tokens : List Token) : Option Value :=
  match tokens.foldlM (State.step bare) (.value []) with
  | some s => s.result?.filter (Value.fits depthLimit)
  | none => none

/-- The value of a file. -/
def read? (bytes : List UInt8) : Option Value :=
  match Token.scan bytes with
  | none => none
  | some tokens =>
    match dropHeaders false false tokens with
    | some (bare, tokens) => ofTokens? bare tokens
    | none => none

end Value

end TypeLint.Snapshot
