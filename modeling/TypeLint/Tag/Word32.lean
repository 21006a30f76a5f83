import Mathlib.Algebra.Group.Nat.Defs
import TypeLint.Tag.Literal

/-!
# Escapes read in words of 32 bits

The number in an escape can be put together in a word of 32 bits. Each product and each sum is
checked here: a result that needs more bits is an overflow.

## Main definitions

- `Overflow` — an operation whose result does not fit into a word
- `mul`, `add` — checked operations
- `readDigits` — a word continued with an exact count of digits
- `readEscape` — any escape, after its backslash
- `bodyText?`, `literalText?` — what stands between the quotes, and a literal with its quotes
-/

namespace TypeLint.Tag.Word32

open Text

/-- An operation whose result does not fit into a word. -/
inductive Overflow where
  | product (a b : UInt32)
  | sum (a b : UInt32)
  deriving DecidableEq, Repr

/-- The product of two words. -/
def mul (a b : UInt32) : Except Overflow UInt32 :=
  if a.toNat * b.toNat < UInt32.size then .ok (a * b) else .error (.product a b)

/-- The sum of two words. -/
def add (a b : UInt32) : Except Overflow UInt32 :=
  if a.toNat + b.toNat < UInt32.size then .ok (a + b) else .error (.sum a b)

/-- Reads `count` digits, most significant first, and continues the word `start` with them. The word
    is multiplied before the next digit is looked at. -/
def readDigits (base : UInt32) :
    (count : Nat) → (start : UInt32) → List Char → Except Overflow (Option (UInt32 × List Char))
  | 0, start, text => return some (start, text)
  | count + 1, start, text => do
    let shifted ← mul start base
    match text with
    | [] => return none
    | c :: text =>
      match digit? base.toNat c with
      | none => return none
      | some d =>
        let n ← add shifted d.toUInt32
        readDigits base count n text

/-- Reads a character written as its number with exactly `count` hexadecimal digits. -/
def readHexadecimal (count : Nat) (text : List Char) :
    Except Overflow (Option (Char × List Char)) := do
  match ← readDigits 16 count 0 text with
  | none => return none
  | some (n, rest) => return (scalar? n.toNat).map (·, rest)

/-- Reads a character written as its number with three octal digits, of which `first` is the first
    one. -/
def readOctal (first : Char) (text : List Char) :
    Except Overflow (Option (Char × List Char)) := do
  match digit? 8 first with
  | none => return none
  | some d =>
    match ← readDigits 8 2 d.toUInt32 text with
    | none => return none
    | some (n, rest) => return if 0xff < n then none else (scalar? n.toNat).map (·, rest)

/-- Reads one escape, without its backslash. -/
def readEscape : List Char → Except Overflow (Option (Char × List Char))
  | [] => return none
  | 'x' :: text => readHexadecimal 2 text
  | 'u' :: text => readHexadecimal 4 text
  | 'U' :: text => readHexadecimal 8 text
  | c :: text =>
    match namedEscape? c with
    | some e => return some (e, text)
    | none => readOctal c text

/-! ## Checked operations -/

/-- A product of words is the product of their numbers, if that fits. -/
theorem mul_eq_ok_iff {a b c : UInt32} : mul a b = .ok c ↔ c.toNat = a.toNat * b.toNat := by
  unfold mul
  split
  · rename_i hfits
    rw [Except.ok.injEq, ← UInt32.toNat_inj, UInt32.toNat_mul, Nat.mod_eq_of_lt hfits, eq_comm]
  · rename_i hfits
    simp only [reduceCtorEq, false_iff]
    intro hc
    exact hfits (hc ▸ c.toNat_lt)

/-- A sum of words is the sum of their numbers, if that fits. -/
theorem add_eq_ok_iff {a b c : UInt32} : add a b = .ok c ↔ c.toNat = a.toNat + b.toNat := by
  unfold add
  split
  · rename_i hfits
    rw [Except.ok.injEq, ← UInt32.toNat_inj, UInt32.toNat_add, Nat.mod_eq_of_lt hfits, eq_comm]
  · rename_i hfits
    simp only [reduceCtorEq, false_iff]
    intro hc
    exact hfits (hc ▸ c.toNat_lt)

theorem exists_mul_eq_ok {a b : UInt32} (hfits : a.toNat * b.toNat < UInt32.size) :
    ∃ c, mul a b = .ok c :=
  ⟨_, if_pos hfits⟩

theorem exists_add_eq_ok {a b : UInt32} (hfits : a.toNat + b.toNat < UInt32.size) :
    ∃ c, add a b = .ok c :=
  ⟨_, if_pos hfits⟩

/-! ## Escapes -/

theorem digit?_toNat {base : UInt32} {c : Char} {d : Nat} (h : digit? base.toNat c = some d) :
    d.toUInt32.toNat = d := by
  have hd := digit?_lt h
  have hbase := base.toNat_lt
  exact UInt32.toNat_ofNat_of_lt' (Nat.lt_trans hd hbase)

/-- A word that has room for all digits is continued with them as a number without bounds is. -/
theorem readDigits_eq_ok {base start : UInt32} {count : Nat} (hbase : 0 < base.toNat)
    (hroom : (start.toNat + 1) * base.toNat ^ count ≤ UInt32.size) (text : List Char) :
    ∃ r, readDigits base count start text = .ok r ∧
      Text.readDigits base.toNat count start.toNat text =
        r.map fun (n, rest) => (n.toNat, rest) := by
  induction count generalizing start text with
  | zero => exact ⟨some (start, text), rfl, rfl⟩
  | succ count ih =>
    have hone : 0 < base.toNat ^ count := Nat.pow_pos hbase
    rw [Nat.pow_succ', ← Nat.mul_assoc] at hroom
    have hnext : (start.toNat + 1) * base.toNat ≤ UInt32.size :=
      Nat.le_trans (Nat.le_mul_of_pos_right _ hone) hroom
    rw [Nat.succ_mul] at hnext hroom
    obtain ⟨shifted, hmul⟩ := exists_mul_eq_ok (a := start) (b := base) (by omega)
    have hshifted := mul_eq_ok_iff.1 hmul
    cases text with
    | nil => exact ⟨none, by simp only [readDigits, hmul]; rfl, rfl⟩
    | cons c text =>
      cases hd : digit? base.toNat c with
      | none =>
        refine ⟨none, ?_, by simp only [Text.readDigits, hd, Option.map_none]⟩
        simp only [readDigits, hmul, hd]
        rfl
      | some d =>
        have hlt := digit?_lt hd
        have hdigit := digit?_toNat hd
        obtain ⟨n, hadd⟩ := exists_add_eq_ok (a := shifted) (b := d.toUInt32) (by omega)
        have hn : n.toNat = start.toNat * base.toNat + d := by
          rw [add_eq_ok_iff.1 hadd, hshifted, hdigit]
        have hroom' : (n.toNat + 1) * base.toNat ^ count ≤ UInt32.size :=
          Nat.le_trans (Nat.mul_le_mul_right _ (by omega)) hroom
        obtain ⟨r, hread, hvalue⟩ := ih hroom' text
        refine ⟨r, ?_, ?_⟩
        · simp only [readDigits, hmul, hd, bind, Except.bind, hadd, hread]
        · simp only [Text.readDigits, hd, ← hn, hvalue]

/-- Up to eight hexadecimal digits fit into a word. -/
theorem readHexadecimal_eq {count : Nat} (hcount : count ≤ 8) (text : List Char) :
    readHexadecimal count text = .ok (readNumbered 16 count text) := by
  have hroom : ((0 : UInt32).toNat + 1) * (16 : UInt32).toNat ^ count ≤ UInt32.size := by
    have hpow : 16 ^ count ≤ 16 ^ 8 := Nat.pow_le_pow_right (by decide) hcount
    simpa using hpow
  obtain ⟨r, hread, hvalue⟩ := readDigits_eq_ok (by decide) hroom text
  have hnumber : Text.readDigits 16 count 0 text = r.map fun (n, rest) => (n.toNat, rest) := hvalue
  simp only [readHexadecimal, readNumbered, hread, hnumber]
  cases r <;> rfl

/-- A number can be compared with the bound before or after its character is looked up. -/
theorem filter_scalar? (n : UInt32) (rest : List Char) :
    ((scalar? n.toNat).map (·, rest)).filter (fun (e, _) => e.toNat ≤ 0xff) =
      if 0xff < n then none else (scalar? n.toNat).map (·, rest) := by
  simp only [UInt32.lt_iff_toNat_lt]
  cases hc : scalar? n.toNat with
  | none => simp
  | some c =>
    rw [← scalar?_eq_some_iff.1 hc]
    by_cases hbig : 0xff < c.toNat
    · simp [hbig]
    · simp [hbig, Nat.not_lt.1 hbig]

/-- The first octal digit starts a word that has room for two more. -/
theorem readOctal_eq (first : Char) (text : List Char) :
    readOctal first text =
      .ok ((readNumbered 8 3 (first :: text)).filter fun (e, _) => e.toNat ≤ 0xff) := by
  cases hd : digit? 8 first with
  | none => simp only [readOctal, readNumbered, Text.readDigits, hd]; rfl
  | some d =>
    have hlt : d < 8 := digit?_lt hd
    have hdigit : digit? (8 : UInt32).toNat first = some d := hd
    have hword := digit?_toNat hdigit
    have hroom : (d.toUInt32.toNat + 1) * (8 : UInt32).toNat ^ 2 ≤ UInt32.size := by
      rw [hword]
      exact Nat.le_trans (Nat.mul_le_mul_right _ (Nat.succ_le_of_lt hlt)) (by decide)
    obtain ⟨r, hread, hvalue⟩ := readDigits_eq_ok (by decide) hroom text
    have hnumber : Text.readDigits 8 2 d text = r.map fun (n, rest) => (n.toNat, rest) := by
      rw [hword] at hvalue
      exact hvalue
    simp only [readOctal, readNumbered, Text.readDigits, hd, hread, Nat.zero_mul, Nat.zero_add,
      hnumber]
    cases r with
    | none => rfl
    | some p =>
      simp only [bind, Except.bind, Option.map_some, pure, Except.pure]
      rw [filter_scalar?]

/-- No escape makes a word overflow. -/
theorem readEscape_eq (text : List Char) : readEscape text = .ok (Tag.readEscape text) := by
  unfold readEscape Tag.readEscape
  split
  · rfl
  · exact readHexadecimal_eq (by decide) _
  · exact readHexadecimal_eq (by decide) _
  · exact readHexadecimal_eq (by decide) _
  · rename_i c text _ _ _
    simp only
    cases namedEscape? c with
    | some e => rfl
    | none => exact readOctal_eq c text

/-! ## Literals -/

/-- The text of what stands between the quotes of a literal. -/
def bodyText? : List Char → Except Overflow (Option (List Char))
  | [] => return some []
  | c :: text =>
    if c = '\n' then return none
    else if c = '\\' then
      match _ : readEscape text with
      | .error overflow => .error overflow
      | .ok none => return none
      | .ok (some (e, rest)) => (bodyText? rest).map (Option.map (e :: ·))
    else (bodyText? text).map (Option.map (c :: ·))
termination_by body => body.length
decreasing_by
  · rename_i hread
    rw [readEscape_eq] at hread
    have := readEscape_length (Except.ok.inj hread)
    simp only [List.length_cons]
    omega
  · simp

/-- The text of a literal with its surrounding quotes. -/
def literalText? : List Char → Except Overflow (Option (List Char))
  | '"' :: text => if text.getLast? = some '"' then bodyText? text.dropLast else return none
  | _ => return none

end TypeLint.Tag.Word32
