import TypeLint.Text.Utf8

/-!
# ASCII in UTF-8

An ASCII character is one byte, and all bytes of any other character lie above ASCII. So whoever
looks for ASCII characters byte by byte finds them where they are and nowhere else, even when he
starts within the bytes of a character.

## Main statements

- `exists_utf8EncodeChar_eq_cons` — the first byte of a character and those after it
- `toUInt8_mem_utf8EncodeChar_iff` — no ASCII character is seen within another character
- `takeWhile_flatMap_utf8EncodeChar` — a run of bytes of a class is a run of characters
-/

namespace TypeLint.Text

@[simp] theorem utf8_ofList (cs : List Char) :
    utf8 (String.ofList cs) = cs.flatMap String.utf8EncodeChar := by
  simp [utf8]

/-! ## The bytes of a character -/

/-- An ASCII character has one byte, its code. -/
theorem utf8EncodeChar_ascii {c : Char} (hc : c.toNat < 128) :
    String.utf8EncodeChar c = [c.toUInt8] := by
  apply String.utf8EncodeChar_eq_singleton
  rw [Char.utf8Size_eq_one_iff, UInt32.le_iff_toNat_le]
  exact Nat.le_of_lt_succ hc

/-- The bytes of other characters are not ASCII. -/
theorem le_toNat_of_mem_utf8EncodeChar {c : Char} {b : UInt8} (hc : 128 ≤ c.toNat)
    (hb : b ∈ String.utf8EncodeChar c) : 128 ≤ b.toNat := by
  have hv : ¬ c.val.toNat ≤ 0x7f := Nat.not_le.2 hc
  simp only [String.utf8EncodeChar, if_neg hv] at hb
  split at hb
  · simp only [List.mem_cons, List.not_mem_nil, or_false] at hb
    rcases hb with rfl | rfl <;> simp <;> omega
  · split at hb
    · simp only [List.mem_cons, List.not_mem_nil, or_false] at hb
      rcases hb with rfl | rfl | rfl <;> simp <;> omega
    · simp only [List.mem_cons, List.not_mem_nil, or_false] at hb
      rcases hb with rfl | rfl | rfl | rfl <;> simp <;> omega

/-- An ASCII text has one byte for each character. -/
theorem flatMap_utf8EncodeChar_ascii {cs : List Char} (hcs : ∀ c ∈ cs, c.toNat < 128) :
    cs.flatMap String.utf8EncodeChar = cs.map Char.toUInt8 := by
  induction cs with
  | nil => rfl
  | cons c cs ih =>
    obtain ⟨hc, hcs⟩ := List.forall_mem_cons.1 hcs
    rw [List.flatMap_cons, utf8EncodeChar_ascii hc, ih hcs]
    rfl

theorem toNat_toUInt8 {c : Char} (hc : c.toNat < 128) : c.toUInt8.toNat = c.toNat := by
  show c.val.toUInt8.toNat = c.toNat
  rw [UInt32.toNat_toUInt8]
  exact Nat.mod_eq_of_lt (Nat.lt_trans hc (by decide))

/-- The code of an ASCII character is among the bytes of that character only. -/
theorem toUInt8_mem_utf8EncodeChar_iff {a c : Char} (ha : a.toNat < 128) :
    a.toUInt8 ∈ String.utf8EncodeChar c ↔ c = a := by
  by_cases hc : c.toNat < 128
  · rw [utf8EncodeChar_ascii hc, List.mem_singleton, ← UInt8.toNat_inj, toNat_toUInt8 ha,
      toNat_toUInt8 hc, Char.toNat_inj, eq_comm]
  · constructor
    · intro hmem
      have := le_toNat_of_mem_utf8EncodeChar (Nat.le_of_not_lt hc) hmem
      rw [toNat_toUInt8 ha] at this
      omega
    · rintro rfl
      exact absurd ha hc

/-- The first byte of a character cannot stand within one, and those after it lie above ASCII. -/
theorem exists_utf8EncodeChar_eq_cons (c : Char) :
    ∃ b more, String.utf8EncodeChar c = b :: more ∧ (b < 0x80 ∨ 0xc0 ≤ b) ∧
      ∀ x ∈ more, 128 ≤ x.toNat := by
  by_cases hc : c.toNat < 128
  · refine ⟨c.toUInt8, [], utf8EncodeChar_ascii hc, .inl ?_, by simp⟩
    rwa [UInt8.lt_iff_toNat_lt, toNat_toUInt8 hc]
  · obtain ⟨b, more, hbytes⟩ :=
      List.exists_cons_of_ne_nil (String.utf8EncodeChar_ne_nil (c := c))
    refine ⟨b, more, hbytes, .inr ?_, fun x hx => ?_⟩
    · have hv : ¬ c.val.toNat ≤ 0x7f := Nat.not_le.2 (Nat.le_of_not_lt hc)
      have hhead : (String.utf8EncodeChar c).head? = some b := by rw [hbytes]; rfl
      simp only [String.utf8EncodeChar, if_neg hv] at hhead
      rw [UInt8.le_iff_toNat_le]
      split at hhead
      case' isFalse => split at hhead
      all_goals
        obtain rfl := Option.some.inj hhead
        simp
        omega
    · exact le_toNat_of_mem_utf8EncodeChar (Nat.le_of_not_lt hc)
        (hbytes ▸ List.mem_cons_of_mem b hx)

/-! ## Runs of a class -/

section Class

variable {p : Char → Bool} {q : UInt8 → Bool}

/-- The longest run of bytes of a class ends with a character, if the bytes of each character are in
    the class just when the character is. -/
theorem takeWhile_flatMap_utf8EncodeChar (hpq : ∀ c, ∀ b ∈ String.utf8EncodeChar c, q b = p c)
    (text : List Char) :
    (text.flatMap String.utf8EncodeChar).takeWhile q =
      (text.takeWhile p).flatMap String.utf8EncodeChar := by
  induction text with
  | nil => rfl
  | cons c text ih =>
    rw [List.flatMap_cons]
    by_cases hc : p c
    · rw [List.takeWhile_append_of_pos fun b hb => (hpq c b hb).trans hc, ih,
        List.takeWhile_cons_of_pos hc, List.flatMap_cons]
    · obtain ⟨b, more, hbytes, -⟩ := exists_utf8EncodeChar_eq_cons c
      have hb : ¬ q b := by
        rwa [hpq c b (hbytes ▸ List.mem_cons_self)]
      rw [hbytes, List.cons_append, List.takeWhile_cons_of_neg hb, List.takeWhile_cons_of_neg hc]
      rfl

/-- So does what is left behind the run. -/
theorem dropWhile_flatMap_utf8EncodeChar (hpq : ∀ c, ∀ b ∈ String.utf8EncodeChar c, q b = p c)
    (text : List Char) :
    (text.flatMap String.utf8EncodeChar).dropWhile q =
      (text.dropWhile p).flatMap String.utf8EncodeChar := by
  have hwhole := List.takeWhile_append_dropWhile (p := p) (l := text)
  have hbytes := List.takeWhile_append_dropWhile (p := q) (l := text.flatMap String.utf8EncodeChar)
  rw [takeWhile_flatMap_utf8EncodeChar hpq] at hbytes
  conv at hbytes => rhs; rw [← hwhole, List.flatMap_append]
  exact List.append_cancel_left hbytes

end Class

end TypeLint.Text
