import TypeLint.Tag.Entry
import TypeLint.Text.Utf8

/-!
# Scanning tags as bytes

The scan of entries can be done on the bytes of a tag, with indices into them. A backslash then
takes one byte along, which may be the first of several that make up a character. Each access is
checked here: reading outside the bytes and cutting a character in two are faults.

## Main definitions

- `Fault` — an access that must not happen
- `readAt`, `slice` — checked accesses
- `nextEntry` — one step of the scan: an entry, if there is one, and the bytes left
- `entries` — all entries, step after step
- `Reaches` — the bytes left after any number of steps
- `encode`, `encodeStep` — what a step on characters gives, as bytes
-/

namespace TypeLint.Tag.Bytes

/-- An access that must not happen. -/
inductive Fault where
  /-- An index or a bound lies outside the bytes. -/
  | outside
  /-- A bound lies within the bytes of one character. -/
  | insideCharacter
  deriving DecidableEq, Repr

/-- The byte at an index. -/
def readAt (bytes : List UInt8) (i : Nat) : Except Fault UInt8 :=
  match bytes[i]? with
  | some b => .ok b
  | none => .error .outside

/-- Whether a character starts at an index, or the bytes end there. -/
def isBoundary (bytes : List UInt8) (i : Nat) : Bool :=
  match bytes[i]? with
  | some b => b < 0x80 || 0xc0 ≤ b
  | none => i == bytes.length

/-- The bytes between two bounds. -/
def slice (bytes : List UInt8) (first last : Nat) : Except Fault (List UInt8) :=
  if last < first ∨ bytes.length < last then .error .outside
  else if isBoundary bytes first && isBoundary bytes last then
    .ok ((bytes.drop first).take (last - first))
  else .error .insideCharacter

/-- Whether a byte may stand in a key. -/
def isKeyByte (b : UInt8) : Bool :=
  ' '.toUInt8 < b && b != ':'.toUInt8 && b != '"'.toUInt8 && b != 0x7f

/-- The index of the next quote from an index on. A backslash takes the byte after it along. The
    result lies at the end of the bytes or beyond it if there is no such quote. -/
def closingIndex (bytes : List UInt8) (i : Nat) : Except Fault Nat :=
  if i < bytes.length then
    match readAt bytes i with
    | .error fault => .error fault
    | .ok b =>
      if b = '"'.toUInt8 then .ok i
      else if b = '\\'.toUInt8 then closingIndex bytes (i + 2)
      else closingIndex bytes (i + 1)
  else .ok i
termination_by bytes.length - i

/-- One step of the scan: the key and the literal of the entry at the head, if there is one, and the
    bytes after it. Without an entry nothing is left. -/
def nextEntry (bytes : List UInt8) :
    Except Fault (Option (List UInt8 × List UInt8) × List UInt8) := do
  let tag := bytes.dropWhile (· == ' '.toUInt8)
  let n := (tag.takeWhile isKeyByte).length
  if n = 0 ∨ tag.length ≤ n + 1 then return (none, [])
  if (← readAt tag n) ≠ ':'.toUInt8 then return (none, [])
  if (← readAt tag (n + 1)) ≠ '"'.toUInt8 then return (none, [])
  let key ← slice tag 0 n
  let i ← closingIndex tag (n + 2)
  if tag.length ≤ i then return (none, [])
  let literal ← slice tag (n + 1) (i + 1)
  let rest ← slice tag (i + 1) tag.length
  return (some (key, literal), rest)

/-- Steps that may fault go well one after the other. -/
theorem bind_eq_ok_iff {α β : Type} {x : Except Fault α} {f : α → Except Fault β} {b : β} :
    x >>= f = .ok b ↔ ∃ a, x = .ok a ∧ f a = .ok b := by
  cases x with
  | error fault => simp [bind, Except.bind]
  | ok a => simp [bind, Except.bind]

/-- The search for a quote does not go back. -/
theorem le_of_closingIndex {bytes : List UInt8} {i j : Nat} (h : closingIndex bytes i = .ok j) :
    i ≤ j := by
  fun_induction closingIndex bytes i with
  | case1 => simp at h
  | case2 => exact Nat.le_of_eq (Except.ok.inj h)
  | case3 _ _ _ _ ih => exact Nat.le_trans (Nat.le_add_right _ 2) (ih h)
  | case4 _ _ _ _ _ _ ih => exact Nat.le_trans (Nat.le_add_right _ 1) (ih h)
  | case5 => exact Nat.le_of_eq (Except.ok.inj h)

/-- A slice without a fault lies inside the bytes. -/
theorem slice_eq_ok {bytes part : List UInt8} {first last : Nat}
    (h : slice bytes first last = .ok part) :
    first ≤ last ∧ last ≤ bytes.length ∧ part = (bytes.drop first).take (last - first) := by
  unfold slice at h
  split at h
  · simp at h
  · split at h
    · exact ⟨by omega, by omega, (Except.ok.inj h).symm⟩
    · simp at h

/-- A step that finds an entry takes a key, a colon and two quotes at least. -/
theorem nextEntry_some {bytes rest : List UInt8} {entry : List UInt8 × List UInt8}
    (h : nextEntry bytes = .ok (some entry, rest)) :
    rest <:+ bytes ∧ rest.length + 4 ≤ bytes.length := by
  have hsuffix := List.dropWhile_suffix (l := bytes) (· == ' '.toUInt8)
  unfold nextEntry at h
  generalize bytes.dropWhile (· == ' '.toUInt8) = tag at h hsuffix
  dsimp only at h
  split at h
  · simp [pure, Except.pure] at h
  rename_i hkey
  obtain ⟨_, _, h⟩ := bind_eq_ok_iff.1 h
  split at h
  · simp [pure, Except.pure] at h
  obtain ⟨_, _, h⟩ := bind_eq_ok_iff.1 h
  split at h
  · simp [pure, Except.pure] at h
  obtain ⟨_, _, h⟩ := bind_eq_ok_iff.1 h
  obtain ⟨i, hclosing, h⟩ := bind_eq_ok_iff.1 h
  split at h
  · simp [pure, Except.pure] at h
  obtain ⟨_, _, h⟩ := bind_eq_ok_iff.1 h
  obtain ⟨last, hslice, h⟩ := bind_eq_ok_iff.1 h
  simp only [pure, Except.pure, Except.ok.injEq, Prod.mk.injEq] at h
  obtain ⟨-, rfl⟩ := h
  obtain ⟨hle, -, rfl⟩ := slice_eq_ok hslice
  rw [← List.length_drop, List.take_length]
  have hi := le_of_closingIndex hclosing
  have hlen := hsuffix.length_le
  refine ⟨(List.drop_suffix _ _).trans hsuffix, ?_⟩
  rw [List.length_drop]
  omega

/-- All entries that the scan finds before the first step that finds none. -/
def entries (bytes : List UInt8) : Except Fault (List (List UInt8 × List UInt8)) :=
  match _ : nextEntry bytes with
  | .error fault => .error fault
  | .ok (none, _) => .ok []
  | .ok (some entry, rest) => (entries rest).map (entry :: ·)
termination_by bytes.length
decreasing_by
  have := (nextEntry_some ‹_›).2
  omega

/-- The bytes that are left after some number of steps of the scan, whatever these steps find. -/
inductive Reaches (bytes : List UInt8) : List UInt8 → Prop
  | refl : Reaches bytes bytes
  | step {rest left : List UInt8} {found : Option (List UInt8 × List UInt8)} :
      Reaches bytes rest → nextEntry rest = .ok (found, left) → Reaches bytes left

/-- The bytes of characters. -/
def encode (text : List Char) : List UInt8 :=
  text.flatMap String.utf8EncodeChar

/-- The key and the literal of an entry as bytes. -/
def encodeEntry (e : Entry) : List UInt8 × List UInt8 :=
  (encode e.key, encode e.literal)

/-- What a scan of characters finds and leaves, as bytes. Without an entry nothing is left. -/
def encodeStep : Option (Entry × List Char) → Option (List UInt8 × List UInt8) × List UInt8
  | none => (none, [])
  | some (e, rest) => (some (encodeEntry e), encode rest)

end TypeLint.Tag.Bytes
