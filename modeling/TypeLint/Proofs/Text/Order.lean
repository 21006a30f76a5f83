import Mathlib.Data.List.Lex
import TypeLint.Text.Utf8

/-!
# The order of texts and of their bytes

Texts compare by the code points of their characters, and bytes compare as numbers. Both orders of
texts are the same: the first byte of a character tells how many bytes there are, more of them for
greater characters, and behind their marks the bytes are digits to base 64, the highest one first.

## Main statements

- `utf8EncodeChar_append_lt` — the order of two characters shows in their bytes
- `utf8_lt_iff` — so does the order of two texts
-/

namespace TypeLint.Text

/-! ## Characters -/

/-- A smaller number is a smaller first byte, whatever follows. -/
theorem ofNat_cons_lt {a b : Nat} (hlt : a < b) (hb : b < 256) (xs ys : List UInt8) :
    UInt8.ofNat a :: xs < UInt8.ofNat b :: ys := by
  refine List.cons_lt_cons_iff.2 (.inl ?_)
  rw [UInt8.lt_iff_toNat_lt, UInt8.toNat_ofNat', UInt8.toNat_ofNat']
  omega

/-- Of two numbers that are the same but for their last digits, these digits decide, and if they are
    the same too, what follows decides. -/
theorem ofNat_digit_cons_lt {base mark v w : Nat} {xs ys : List UInt8} (hpos : 0 < base)
    (hbyte : base + mark ≤ 256) (hle : v ≤ w) (hhigh : v / base = w / base)
    (hrest : v = w → xs < ys) :
    UInt8.ofNat (v % base + mark) :: xs < UInt8.ofNat (w % base + mark) :: ys := by
  rcases Nat.eq_or_lt_of_le hle with rfl | hlt
  · exact List.cons_lt_cons_iff.2 (.inr ⟨rfl, hrest rfl⟩)
  · have hv := Nat.div_add_mod v base
    have hw := Nat.div_add_mod w base
    rw [hhigh] at hv
    have hdigit := Nat.mod_lt w hpos
    exact ofNat_cons_lt (by omega) (by omega) xs ys

/-- The bytes of a character come before those of a greater one, whatever follows them. -/
theorem utf8EncodeChar_append_lt {c d : Char} (hlt : c < d) (xs ys : List UInt8) :
    String.utf8EncodeChar c ++ xs < String.utf8EncodeChar d ++ ys := by
  have hvalue : c.val.toNat < d.val.toNat := hlt
  have hmax : d.val.toNat < 0x110000 := by
    rcases d.valid with hlow | ⟨_, hhigh⟩
    · exact Nat.lt_trans hlow (by decide)
    · exact hhigh
  simp only [String.utf8EncodeChar]
  generalize c.val.toNat = v at hvalue
  generalize d.val.toNat = w at hvalue hmax
  -- The split is by the number of bytes of the smaller character. When the greater one has more of
  -- them, the first bytes decide; when it has as many, the highest digit in which they differ does.
  by_cases hone : v ≤ 0x7f
  · rw [if_pos hone]
    split_ifs
    all_goals exact ofNat_cons_lt (by omega) (by omega) _ _
  rw [if_neg hone, if_neg (by omega : ¬ w ≤ 0x7f)]
  by_cases htwo : v ≤ 0x7ff
  · rw [if_pos htwo]
    split_ifs
    · refine ofNat_digit_cons_lt (by omega) (by omega) (by omega) (by omega) fun _ => ?_
      refine ofNat_digit_cons_lt (by omega) (by omega) (by omega) (by omega) fun _ => ?_
      omega
    all_goals exact ofNat_cons_lt (by omega) (by omega) _ _
  rw [if_neg htwo, if_neg (by omega : ¬ w ≤ 0x7ff)]
  by_cases hthree : v ≤ 0xffff
  · rw [if_pos hthree]
    split_ifs
    · refine ofNat_digit_cons_lt (by omega) (by omega) (by omega) (by omega) fun _ => ?_
      refine ofNat_digit_cons_lt (by omega) (by omega) (by omega) (by omega) fun _ => ?_
      refine ofNat_digit_cons_lt (by omega) (by omega) (by omega) (by omega) fun _ => ?_
      omega
    exact ofNat_cons_lt (by omega) (by omega) _ _
  rw [if_neg hthree, if_neg (by omega : ¬ w ≤ 0xffff)]
  refine ofNat_digit_cons_lt (by omega) (by omega) (by omega) (by omega) fun _ => ?_
  refine ofNat_digit_cons_lt (by omega) (by omega) (by omega) (by omega) fun _ => ?_
  refine ofNat_digit_cons_lt (by omega) (by omega) (by omega) (by omega) fun _ => ?_
  refine ofNat_digit_cons_lt (by omega) (by omega) (by omega) (by omega) fun _ => ?_
  omega

/-! ## Texts -/

/-- Texts in order have their bytes in order. -/
theorem flatMap_utf8EncodeChar_lt {cs ds : List Char} (hlt : cs < ds) :
    cs.flatMap String.utf8EncodeChar < ds.flatMap String.utf8EncodeChar := by
  induction hlt with
  | @nil d ds =>
    obtain ⟨b, bytes, hbytes⟩ := List.exists_cons_of_ne_nil (String.utf8EncodeChar_ne_nil (c := d))
    rw [List.flatMap_cons, hbytes]
    exact .nil
  | @rel c d cs ds hcd => exact utf8EncodeChar_append_lt hcd _ _
  | @cons c cs ds _ ih => exact List.Lex.append_left _ ih (String.utf8EncodeChar c)

/-- Texts are in the same order as their bytes. -/
theorem utf8_lt_iff {s t : String} : utf8 s < utf8 t ↔ s < t := by
  have hmono {s t : String} (hlt : s < t) : utf8 s < utf8 t :=
    flatMap_utf8EncodeChar_lt (String.lt_iff.1 hlt)
  refine ⟨fun hbytes => ?_, hmono⟩
  by_contra hnot
  by_cases hlt : t < s
  · exact List.lt_asymm hbytes (hmono hlt)
  · obtain rfl := String.le_antisymm (String.not_lt.1 hlt) (String.not_lt.1 hnot)
    exact List.lt_irrefl _ hbytes

end TypeLint.Text
