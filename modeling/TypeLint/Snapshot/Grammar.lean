import TypeLint.Snapshot.Schema

/-!
# The grammar of snapshots

The many ways to write one snapshot, said without the functions that read it. Bytes spell tokens
with gaps between them, and tokens spell values.

## Main definitions

- `IsGap` — blanks and comments
- `SpellsText` — a string in quotes, with escapes or with hashes
- `IsNumeral` — a number
- `SpellsTokens` — a file spells its tokens
- `SpellsValue` — tokens spell a value
- `SpellsFile` — a file spells a value behind headers

## Design notes

The grammar says nothing of how deep a value may nest, and it spells the content of a `Some` in
parentheses only.
-/

namespace TypeLint.Snapshot

open Text

/-! ## Gaps -/

/-- The rest of a block comment after its opening, up to its own closing. Block comments nest. -/
inductive IsBlockRest : List UInt8 → Prop
  | close : IsBlockRest (utf8 "*/")
  | nested {inner rest : List UInt8} :
      IsBlockRest inner → IsBlockRest rest → IsBlockRest (utf8 "/*" ++ inner ++ rest)
  | byte {b : UInt8} {rest : List UInt8} :
      ¬ utf8 "/*" <+: b :: rest → ¬ utf8 "*/" <+: b :: rest → IsBlockRest rest →
      IsBlockRest (b :: rest)

/-- The bytes of a line comment. -/
def IsLine (bytes : List UInt8) : Prop :=
  ∃ comment, bytes = utf8 "//" ++ comment ∧ ∀ b ∈ comment, glyph b ≠ '\n'

/-- What may stand between two tokens: blanks, line comments with their line feed, and block
    comments. -/
inductive IsGap : List UInt8 → Prop
  | nil : IsGap []
  | blank {b : UInt8} {rest : List UInt8} :
      glyph b = ' ' ∨ glyph b = '\t' ∨ glyph b = '\n' ∨ glyph b = '\r' → IsGap rest →
      IsGap (b :: rest)
  | line {comment rest : List UInt8} :
      IsLine comment → IsGap rest → IsGap (comment ++ utf8 "\n" ++ rest)
  | block {comment rest : List UInt8} :
      IsBlockRest comment → IsGap rest → IsGap (utf8 "/*" ++ comment ++ rest)

/-- What may stand after the last token: a gap, and a line comment without a line feed. -/
def IsLastGap (bytes : List UInt8) : Prop :=
  IsGap bytes ∨ ∃ gap comment, bytes = gap ++ comment ∧ IsGap gap ∧ IsLine comment

/-! ## Tokens -/

/-- The characters with a short escape, behind the character after the backslash. -/
def shortEscapes : List (Char × Char) :=
  [('\x27', '\x27'), ('"', '"'), ('\\', '\\'), ('n', '\n'), ('r', '\r'), ('t', '\t'), ('0', '\x00')]

/-- Hexadecimal digits that stand for the number of a character. -/
def IsNumberOf (digits : List Char) (c : Char) : Prop :=
  (∀ d ∈ digits, digitValue d < 16) ∧ foldDigits 16 0 digits = c.toNat

/-- The spelling of a character in a string with escapes. -/
inductive SpellsCharacter : List Char → Char → Prop
  | plain {c : Char} : c ≠ '"' → c ≠ '\\' → SpellsCharacter [c] c
  | short {e c : Char} : (e, c) ∈ shortEscapes → SpellsCharacter ['\\', e] c
  | two {digits : List Char} {c : Char} :
      digits.length = 2 → IsNumberOf digits c → SpellsCharacter ('\\' :: 'x' :: digits) c
  | braced {digits : List Char} {c : Char} :
      1 ≤ digits.length → digits.length ≤ 6 → IsNumberOf digits c →
      SpellsCharacter ('\\' :: 'u' :: '\x7b' :: digits ++ ['\x7d']) c

/-- The spelling of a text: in quotes with escapes, or raw between quotes with enough hashes that
    the text holds no closing. -/
inductive SpellsText : List Char → List Char → Prop
  | quoted (parts : List (List Char × Char)) :
      (∀ p ∈ parts, SpellsCharacter p.1 p.2) →
      SpellsText ('"' :: parts.flatMap Prod.fst ++ ['"']) (parts.map Prod.snd)
  | fenced {text : List Char} (hashes : Nat) :
      (∀ before, before ++ '"' :: List.replicate hashes '#' <+: text ++
        '"' :: List.replicate hashes '#' → before = text) →
      SpellsText ('r' :: List.replicate hashes '#' ++ '"' :: text ++
        '"' :: List.replicate hashes '#') text

/-- A plain word: ASCII letters, digits and underscores, with no digit in front. -/
def IsWord (name : String) : Prop :=
  ∃ c rest, name.toList = c :: rest ∧ (c.isAlpha ∨ c = '_') ∧
    ∀ d ∈ rest, d.isAlphanum ∨ d = '_'

/-- Whether the characters are those of a plain word. -/
def isWord : List Char → Bool
  | [] => false
  | c :: rest => (c.isAlpha || c == '_') && rest.all fun d => d.isAlphanum || d == '_'

theorem isWord_iff {name : String} : isWord name.toList = true ↔ IsWord name := by
  have hcons (c : Char) (rest : List Char) : isWord (c :: rest) = true ↔
      (c.isAlpha ∨ c = '_') ∧ ∀ d ∈ rest, d.isAlphanum ∨ d = '_' := by
    simp [isWord]
  constructor
  · intro h
    cases hname : name.toList with
    | nil => simp [hname, isWord] at h
    | cons c rest => exact ⟨c, rest, hname, (hcons c rest).1 (hname ▸ h)⟩
  · rintro ⟨c, rest, hname, h⟩
    rw [hname]
    exact (hcons c rest).2 h

instance (name : String) : Decidable (IsWord name) :=
  decidable_of_iff _ isWord_iff

/-- A character that may stand in a raw word or in a number. -/
def IsRunChar (c : Char) : Prop :=
  c.isAlphanum ∨ c = '_' ∨ c = '.' ∨ c = '+' ∨ c = '-'

instance (c : Char) : Decidable (IsRunChar c) :=
  inferInstanceAs (Decidable (c.isAlphanum ∨ c = '_' ∨ c = '.' ∨ c = '+' ∨ c = '-'))

/-- A raw word, without its marker. Points and signs are allowed, and a digit may come first. -/
def IsRawWord (name : String) : Prop :=
  name ≠ "" ∧ ∀ c ∈ name.toList, IsRunChar c

/-- Digits of a base that stand for `n`. Underscores may stand behind the first one. -/
def SpellsDigits (base : Nat) (text : List Char) (n : Nat) : Prop :=
  ∃ d rest, text = d :: rest ∧ digitValue d < base ∧
    (∀ c ∈ rest, c = '_' ∨ digitValue c < base) ∧
    n = foldDigits base 0 (d :: rest.filter (· != '_'))

/-- A whole number without a sign, in base ten, sixteen, two or eight. -/
inductive SpellsWhole : List Char → Nat → Prop
  | ten {text : List Char} {n : Nat} : SpellsDigits 10 text n → SpellsWhole text n
  | sixteen {text : List Char} {n : Nat} :
      SpellsDigits 16 text n → SpellsWhole ('0' :: 'x' :: text) n
  | two {text : List Char} {n : Nat} :
      SpellsDigits 2 text n → SpellsWhole ('0' :: 'b' :: text) n
  | eight {text : List Char} {n : Nat} :
      SpellsDigits 8 text n → SpellsWhole ('0' :: 'o' :: text) n

/-- A decimal number without a sign, of any size. Its point may be missing, and so may the digits on
    one side of the point and the exponent. -/
def IsDecimal (text : List Char) : Prop :=
  ∃ whole fraction exponent, text = whole ++ fraction ++ exponent ∧ IsExponent exponent ∧
    (fraction = [] ∧ IsDigits whole ∨
      ∃ digits, fraction = '.' :: digits ∧ IsDigits (whole ++ digits))

/-- A number: a decimal number, a whole number that fits into a word of 64 bits, or the name of
    infinity or of what is not a number. The name needs a sign in front of it. -/
inductive IsNumeral : List Char → Prop
  | decimal {sign text : List Char} :
      sign = [] ∨ sign = ['+'] ∨ sign = ['-'] → IsDecimal text → IsNumeral (sign ++ text)
  | whole {text : List Char} {n : Nat} :
      SpellsWhole text n → n ≤ 0xffffffffffffffff → IsNumeral text
  | positive {text : List Char} {n : Nat} :
      SpellsWhole text n → n ≤ 0x7fffffffffffffff → IsNumeral ('+' :: text)
  | negative {text : List Char} {n : Nat} :
      SpellsWhole text n → n ≤ 0x8000000000000000 → IsNumeral ('-' :: text)
  | infinity {sign : Char} : sign = '+' ∨ sign = '-' → IsNumeral [sign, 'i', 'n', 'f']
  | notANumber {sign : Char} : sign = '+' ∨ sign = '-' → IsNumeral [sign, 'N', 'a', 'N']

/-- The spelling of a token. -/
inductive SpellsToken : List UInt8 → Token → Prop
  | openRound : SpellsToken (utf8 "(") .openRound
  | closeRound : SpellsToken (utf8 ")") .closeRound
  | openSquare : SpellsToken (utf8 "[") .openSquare
  | closeSquare : SpellsToken (utf8 "]") .closeSquare
  | openCurly : SpellsToken (utf8 "\x7b") .openCurly
  | closeCurly : SpellsToken (utf8 "\x7d") .closeCurly
  | unit : SpellsToken (utf8 "()") .unit
  | comma : SpellsToken (utf8 ",") .comma
  | colon : SpellsToken (utf8 ":") .colon
  | hash : SpellsToken (utf8 "#") .hash
  | bang : SpellsToken (utf8 "!") .bang
  | word {name : String} : IsWord name → SpellsToken (utf8 name) (.word name false)
  | rawWord {name : String} : IsRawWord name → SpellsToken (utf8 ("r#" ++ name)) (.word name true)
  | number {literal : String} :
      IsNumeral literal.toList → SpellsToken (utf8 literal) (.number literal)
  | plainChar {c : Char} :
      c ≠ '\x27' → c ≠ '\\' → SpellsToken (utf8 (String.ofList ['\x27', c, '\x27'])) (.char c)
  | escapedChar {spelling : List Char} {c : Char} :
      SpellsCharacter ('\\' :: spelling) c →
      SpellsToken (utf8 (String.ofList ('\x27' :: '\\' :: spelling ++ ['\x27']))) (.char c)
  | text {spelling : List Char} {value : String} :
      SpellsText spelling value.toList → SpellsToken (utf8 (String.ofList spelling)) (.text value)

/-- A word or number in front of the bytes ends there: they do not start with a character of words
    or numbers, nor with a quote or hash, which would make a string of an `r`. -/
def EndsRun (bytes : List UInt8) : Prop :=
  ∀ b ∈ bytes.head?, ¬ IsRunChar (glyph b) ∧ glyph b ≠ '"' ∧ glyph b ≠ '#'

instance (bytes : List UInt8) : Decidable (EndsRun bytes) :=
  Option.decidableForallMem bytes.head?

/-- The token is not changed by the bytes right after it. Words and numbers could go on there, and
    an opening parenthesis could become the unit. -/
def Token.EndsBefore (bytes : List UInt8) : Token → Prop
  | word .. => EndsRun bytes
  | number .. => EndsRun bytes
  | openRound => ∀ b ∈ bytes.head?, glyph b ≠ ')'
  | _ => True

instance (bytes : List UInt8) : (t : Token) → Decidable (t.EndsBefore bytes)
  | .word .. => inferInstanceAs (Decidable (EndsRun bytes))
  | .number _ => inferInstanceAs (Decidable (EndsRun bytes))
  | .openRound => Option.decidableForallMem bytes.head?
  | .closeRound | .openSquare | .closeSquare | .openCurly | .closeCurly | .unit | .comma | .colon
  | .hash | .bang | .char _ | .text _ => isTrue trivial

/-- The bytes spell the tokens, with gaps around them. -/
inductive SpellsTokens : List UInt8 → List Token → Prop
  | nil {gap : List UInt8} : IsLastGap gap → SpellsTokens gap []
  | cons {gap spelling rest : List UInt8} {t : Token} {ts : List Token} :
      IsGap gap → SpellsToken spelling t → t.EndsBefore rest → SpellsTokens rest ts →
      SpellsTokens (gap ++ spelling ++ rest) (t :: ts)

/-! ## Values -/

/-- A comma that may be missing. -/
def IsOptionalComma (tokens : List Token) : Prop :=
  tokens = [] ∨ tokens = [.comma]

/-- The words that stand for values of their own unless they are raw. -/
def reservedWords : List String :=
  ["true", "false", "inf", "NaN", "None", "Some"]

/-- The word stands for itself. -/
def IsFree (name : String) (raw : Bool) : Prop :=
  raw = true ∨ name ∉ reservedWords

/-- The spellings of the name in front of a tuple or record. -/
inductive SpellsName : List Token → Option String → Prop
  | none : SpellsName [] none
  | some {name : String} {raw : Bool} : IsFree name raw → SpellsName [.word name raw] (some name)

mutual

/-- The spellings of a value. -/
inductive SpellsValue : List Token → Value → Prop
  | unit : SpellsValue [.unit] .unit
  | truth : SpellsValue [.word "true" false] (.bool true)
  | falsehood : SpellsValue [.word "false" false] (.bool false)
  | number {literal : String} : SpellsValue [.number literal] (.number literal)
  | infinity : SpellsValue [.word "inf" false] (.number "inf")
  | notANumber : SpellsValue [.word "NaN" false] (.number "NaN")
  | char {c : Char} : SpellsValue [.char c] (.char c)
  | text {s : String} : SpellsValue [.text s] (.text s)
  | word {name : String} {raw : Bool} : IsFree name raw → SpellsValue [.word name raw] (.word name)
  | nothing : SpellsValue [.word "None" false] .nothing
  | just {tokens comma : List Token} {v : Value} :
      SpellsValue tokens v → IsOptionalComma comma →
      SpellsValue (.word "Some" false :: .openRound :: tokens ++ comma ++ [.closeRound]) (.just v)
  | emptyList : SpellsValue [.openSquare, .closeSquare] (.list [])
  | list {tokens comma : List Token} {items : List Value} :
      SpellsItems tokens items → IsOptionalComma comma →
      SpellsValue (.openSquare :: tokens ++ comma ++ [.closeSquare]) (.list items)
  | emptyTuple {front : List Token} {name : Option String} :
      SpellsName front name → SpellsValue (front ++ [.openRound, .closeRound]) (.tuple name [])
  | namedUnit {name : String} {raw : Bool} :
      IsFree name raw → SpellsValue [.word name raw, .unit] (.tuple (some name) [])
  | tuple {front tokens comma : List Token} {name : Option String} {items : List Value} :
      SpellsName front name → SpellsItems tokens items → IsOptionalComma comma →
      SpellsValue (front ++ .openRound :: tokens ++ comma ++ [.closeRound]) (.tuple name items)
  | record {front tokens comma : List Token} {name : Option String}
      {fields : List (String × Value)} :
      SpellsName front name → SpellsFields tokens fields → IsOptionalComma comma →
      SpellsValue (front ++ .openRound :: tokens ++ comma ++ [.closeRound]) (.record name fields)
  | emptyMap : SpellsValue [.openCurly, .closeCurly] (.map [])
  | map {tokens comma : List Token} {entries : List (Value × Value)} :
      SpellsEntries tokens entries → IsOptionalComma comma →
      SpellsValue (.openCurly :: tokens ++ comma ++ [.closeCurly]) (.map entries)

/-- The spellings of one item or more, with commas between them. -/
inductive SpellsItems : List Token → List Value → Prop
  | last {tokens : List Token} {v : Value} : SpellsValue tokens v → SpellsItems tokens [v]
  | more {tokens rest : List Token} {v : Value} {items : List Value} :
      SpellsValue tokens v → SpellsItems rest items →
      SpellsItems (tokens ++ .comma :: rest) (v :: items)

/-- The spellings of one field or more, with commas between them. -/
inductive SpellsFields : List Token → List (String × Value) → Prop
  | last {tokens : List Token} {f : String} {raw : Bool} {v : Value} :
      SpellsValue tokens v → SpellsFields (.word f raw :: .colon :: tokens) [(f, v)]
  | more {tokens rest : List Token} {f : String} {raw : Bool} {v : Value}
      {fields : List (String × Value)} :
      SpellsValue tokens v → SpellsFields rest fields →
      SpellsFields (.word f raw :: .colon :: tokens ++ .comma :: rest) ((f, v) :: fields)

/-- The spellings of one entry or more, with commas between them. -/
inductive SpellsEntries : List Token → List (Value × Value) → Prop
  | last {key tokens : List Token} {k v : Value} :
      SpellsValue key k → SpellsValue tokens v →
      SpellsEntries (key ++ .colon :: tokens) [(k, v)]
  | more {key tokens rest : List Token} {k v : Value} {entries : List (Value × Value)} :
      SpellsValue key k → SpellsValue tokens v → SpellsEntries rest entries →
      SpellsEntries (key ++ .colon :: tokens ++ .comma :: rest) ((k, v) :: entries)

end

/-- The names of one extension or more, with commas between them. -/
inductive SpellsExtensions : List Token → Prop
  | last {e : String} {raw : Bool} : e ∈ extensions → SpellsExtensions [.word e raw]
  | more {e : String} {raw : Bool} {rest : List Token} :
      e ∈ extensions → SpellsExtensions rest → SpellsExtensions (.word e raw :: .comma :: rest)

/-- Headers, one after the other. -/
inductive SpellsHeaders : List Token → Prop
  | none : SpellsHeaders []
  | more {names comma rest : List Token} :
      SpellsExtensions names → IsOptionalComma comma → SpellsHeaders rest →
      SpellsHeaders (.hash :: .bang :: .openSquare :: .word "enable" false :: .openRound :: names ++
        comma ++ .closeRound :: .closeSquare :: rest)

/-- The file spells the value, behind any number of headers. -/
def SpellsFile (file : List UInt8) (v : Value) : Prop :=
  ∃ headers tokens, SpellsTokens file (headers ++ tokens) ∧ SpellsHeaders headers ∧
    SpellsValue tokens v

/-! ## Changes of layout -/

/-- A text with each line feed replaced by some blanks of its own. -/
inductive IsRelaid : List Char → List Char → Prop
  | nil : IsRelaid [] []
  | keep {c : Char} {text relaid : List Char} :
      c ≠ '\n' → IsRelaid text relaid → IsRelaid (c :: text) (c :: relaid)
  | replace {blanks text relaid : List Char} :
      blanks ≠ [] → (∀ c ∈ blanks, c = ' ' ∨ c = '\t' ∨ c = '\r' ∨ c = '\n') →
      IsRelaid text relaid → IsRelaid ('\n' :: text) (blanks ++ relaid)

end TypeLint.Snapshot
