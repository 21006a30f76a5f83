import Mathlib.Data.List.TakeWhile
import TypeLint.Proofs.Text.Run
import TypeLint.Tag.Grammar

/-!
# The entries that a scan finds

A scan finds an entry exactly where a well-formed entry stands after any spaces. So the entries of a
tag that starts with a run of well-formed entries are those of the run and then those of the rest.

## Main statements

- `Entry.scan_eq_some_iff` — the entry at the head of a text
- `entries_of_splits` — the entries of a run and of what follows it
- `splits_entries` — every tag splits into its entries and a tail without any
-/

namespace TypeLint.Tag

open Text

/-! ## One entry -/

theorem takeWhile_space (text : List Char) :
    ∃ spaces, text.takeWhile (· == ' ') = List.replicate spaces ' ' := by
  refine ⟨_, List.eq_replicate_iff.2 ⟨rfl, fun c hc => ?_⟩⟩
  have hspace := List.mem_takeWhile_imp hc
  exact beq_iff_eq.1 hspace

/-- The parts of an entry are found from left to right. -/
theorem Entry.scan_text {e : Entry} (hwf : e.WellFormed) (spaces : Nat) (rest : List Char) :
    Entry.scan (e.text spaces ++ rest) = some (e, rest) := by
  obtain ⟨key, literal⟩ := e
  obtain ⟨⟨hne, hkey⟩, ⟨body, hbody, rfl⟩⟩ := hwf
  obtain ⟨c, key, rfl⟩ := List.exists_cons_of_ne_nil hne
  have hspaces : ∀ d ∈ List.replicate spaces ' ', (d == ' ') = true := by
    intro d hd
    rw [List.eq_of_mem_replicate hd]
    rfl
  -- The spaces end at the key, the key at the colon, and the literal at its first bare quote.
  have hfirst : c ≠ ' ' := by
    rintro rfl
    exact absurd (hkey ' ' (by simp)).1 (by decide)
  have hchars : ∀ d ∈ c :: key, isKeyChar d := fun d hd => isKeyChar_iff.2 (hkey d hd)
  have htext : (Entry.mk (c :: key) ('"' :: body ++ ['"'])).text spaces ++ rest =
      List.replicate spaces ' ' ++ ((c :: key) ++ ':' :: '"' :: (body ++ '"' :: rest)) := by
    simp [Entry.text]
  have hclosing : closing (body ++ '"' :: rest) = some (body, rest) :=
    closing_eq_some_iff.2 ⟨hbody, rfl⟩
  have hcolon : ∀ d ∈ (':' :: '"' :: (body ++ '"' :: rest)).head?, ¬ isKeyChar d := by
    rintro d hd
    obtain rfl : ':' = d := by simpa using hd
    decide
  simp only [Entry.scan]
  rw [htext, dropWhile_run hspaces (by simpa using hfirst)]
  simp only [takeWhile_run hchars hcolon, dropWhile_run hchars hcolon, hclosing]
  simp

/-- An entry is scanned exactly where a well-formed one stands after any spaces. -/
theorem Entry.scan_eq_some_iff {text rest : List Char} {e : Entry} :
    Entry.scan text = some (e, rest) ↔
      ∃ spaces, e.WellFormed ∧ text = e.text spaces ++ rest := by
  constructor
  · intro h
    -- The scan drops nothing but the spaces in front.
    have happend := Entry.scan_eq_append h
    obtain ⟨spaces, hspaces⟩ := takeWhile_space text
    have hwhole := List.takeWhile_append_dropWhile (p := (· == ' ')) (l := text)
    rw [hspaces, happend] at hwhole
    refine ⟨spaces, ?_, by simpa [Entry.text] using hwhole.symm⟩
    unfold Entry.scan at h
    dsimp only at h
    split at h
    · split at h
      · simp at h
      · rename_i hne
        simp only [Option.map_eq_some_iff, Prod.mk.injEq, Prod.exists] at h
        obtain ⟨body, after, hclosing, rfl, rfl⟩ := h
        exact ⟨⟨hne, fun c hc => isKeyChar_iff.1 (List.mem_takeWhile_imp hc)⟩,
          ⟨body, (closing_eq_some_iff.1 hclosing).1, rfl⟩⟩
    · simp at h
  · intro h
    obtain ⟨spaces, hwf, rfl⟩ := h
    exact Entry.scan_text hwf spaces rest

/-- The scan finds nothing exactly when no entry stands in front. -/
theorem Entry.scan_eq_none_iff {text : List Char} :
    Entry.scan text = none ↔ ¬ StartsWithEntry text := by
  rw [Option.eq_none_iff_forall_ne_some]
  constructor
  · rintro hnone ⟨spaces, e, rest, hwf, htext⟩
    exact hnone (e, rest) (Entry.scan_eq_some_iff.2 ⟨spaces, hwf, htext⟩)
  · rintro hstarts ⟨e, rest⟩ hsome
    obtain ⟨spaces, hwf, htext⟩ := Entry.scan_eq_some_iff.1 hsome
    exact hstarts ⟨spaces, e, rest, hwf, htext⟩

/-! ## Texts without an entry -/

/-- A text without a closing quote is a body, or one with a last backslash that has nothing to take
    along. -/
theorem isBody_of_closing_eq_none {text : List Char} (hclosing : closing text = none) :
    IsBody text ∨ ∃ body, IsBody body ∧ text = body ++ ['\\'] := by
  fun_induction closing text with
  | case1 => exact .inl .nil
  | case2 => simp at hclosing
  | case3 c text ih =>
    rcases ih (Option.map_eq_none_iff.1 hclosing) with hbody | ⟨body, hbody, rfl⟩
    · exact .inl (.pair hbody)
    · exact .inr ⟨_, .pair hbody, rfl⟩
  | case4 c text hquote hpair ih =>
    by_cases hslash : c = '\\'
    · subst hslash
      cases text with
      | nil => exact .inr ⟨[], .nil, rfl⟩
      | cons d text => exact absurd rfl (hpair d text rfl)
    · rcases ih (Option.map_eq_none_iff.1 hclosing) with hbody | ⟨body, hbody, rfl⟩
      · exact .inl (.plain hquote hslash hbody)
      · exact .inr ⟨_, .plain hquote hslash hbody, rfl⟩

/-- Where a key stands in front of a colon and a quote, the rest of the scan is that for the closing
    quote. -/
theorem Entry.scan_of_opened {text tail : List Char}
    (hne : (text.dropWhile (· == ' ')).takeWhile isKeyChar ≠ [])
    (hafter : (text.dropWhile (· == ' ')).dropWhile isKeyChar = ':' :: '"' :: tail) :
    Entry.scan text = (closing tail).map fun (body, rest) =>
      (⟨(text.dropWhile (· == ' ')).takeWhile isKeyChar, '"' :: body ++ ['"']⟩, rest) := by
  simp only [Entry.scan, hafter]
  rw [if_neg hne]

theorem Entry.scan_eq_none {text : List Char}
    (hclosed : (text.dropWhile (· == ' ')).takeWhile isKeyChar = [] ∨
      ∀ tail, (text.dropWhile (· == ' ')).dropWhile isKeyChar ≠ ':' :: '"' :: tail) :
    Entry.scan text = none := by
  unfold Entry.scan
  dsimp only
  split
  · rename_i tail htail
    rcases hclosed with hkey | hopened
    · rw [if_pos hkey]
    · exact absurd htail (hopened tail)
  · rfl

/-! ## All entries -/

/-- The entry that the scan finds is the first of those left. -/
theorem entries_of_scan {text rest : List Char} {e : Entry}
    (hscan : Entry.scan text = some (e, rest)) : entries text = e :: entries rest := by
  rw [entries]
  split
  · simp_all
  · simp_all

/-- A tail that starts with no entry hides all that is in it. -/
theorem entries_of_not_startsWithEntry {text : List Char} (hstarts : ¬ StartsWithEntry text) :
    entries text = [] := by
  have hscan := Entry.scan_eq_none_iff.2 hstarts
  rw [entries]
  split
  · rfl
  · simp_all

/-- The entries of a run come first, whatever follows the run. -/
theorem entries_of_splits {text tail : List Char} {es : List Entry}
    (hsplits : Splits text es tail) : entries text = es ++ entries tail := by
  induction hsplits with
  | nil => rfl
  | cons spaces hwf _ ih =>
    rw [entries_of_scan (Entry.scan_text hwf spaces _), ih, List.cons_append]

/-- Every tag splits into its entries and a tail that starts with none. -/
theorem splits_entries (text : List Char) :
    ∃ tail, Splits text (entries text) tail ∧ ¬ StartsWithEntry tail := by
  fun_induction entries text with
  | case1 text hscan => exact ⟨text, .nil, Entry.scan_eq_none_iff.1 hscan⟩
  | case2 text e rest hscan ih =>
    obtain ⟨spaces, hwf, rfl⟩ := Entry.scan_eq_some_iff.1 hscan
    obtain ⟨tail, hsplits, hstarts⟩ := ih
    exact ⟨tail, .cons spaces hwf hsplits, hstarts⟩

/-- The entries of a run are well-formed. -/
theorem Splits.wellFormed {text tail : List Char} {es : List Entry}
    (hsplits : Splits text es tail) : ∀ e ∈ es, e.WellFormed := by
  induction hsplits with
  | nil => simp
  | cons spaces hwf _ ih => exact List.forall_mem_cons.2 ⟨hwf, ih⟩

/-- The entries of a tag are well-formed. -/
theorem wellFormed_of_mem_entries {text : List Char} {e : Entry} (he : e ∈ entries text) :
    e.WellFormed := by
  obtain ⟨tail, hsplits, -⟩ := splits_entries text
  exact hsplits.wellFormed e he

/-! ## Parts of a run -/

/-- No entry stands in an empty text. -/
theorem not_startsWithEntry_nil : ¬ StartsWithEntry [] := by
  rintro ⟨spaces, e, rest, -, htext⟩
  simp [Entry.text] at htext

/-- A run stays a run when text is added behind it. -/
theorem Splits.append_right {text tail : List Char} {es : List Entry}
    (hsplits : Splits text es tail) (more : List Char) :
    Splits (text ++ more) es (tail ++ more) := by
  induction hsplits with
  | nil => exact .nil
  | cons spaces hwf _ ih =>
    rw [List.append_assoc]
    exact .cons spaces hwf ih

/-- Text added behind a tag changes none of its entries, also where it goes on with the last, broken
    one. -/
theorem prefix_entries_append (text more : List Char) :
    entries text <+: entries (text ++ more) := by
  obtain ⟨tail, hsplits, -⟩ := splits_entries text
  rw [entries_of_splits (hsplits.append_right more)]
  exact List.prefix_append _ _

/-- What starts with no entry can be cut off behind a run. -/
theorem entries_append_of_not_startsWithEntry {front tail : List Char} {es : List Entry}
    (hsplits : Splits front es []) (hstarts : ¬ StartsWithEntry tail) :
    entries (front ++ tail) = entries front := by
  rw [entries_of_splits (hsplits.append_right tail), entries_of_splits hsplits, List.nil_append,
    entries_of_not_startsWithEntry hstarts, entries_of_not_startsWithEntry not_startsWithEntry_nil]

/-- A run of entries can be parted anywhere. -/
theorem Splits.part {text tail : List Char} {es fs : List Entry}
    (hsplits : Splits text (es ++ fs) tail) :
    ∃ middle, Splits text es middle ∧ Splits middle fs tail := by
  induction es generalizing text with
  | nil => exact ⟨text, .nil, hsplits⟩
  | cons e es ih =>
    cases hsplits with
    | cons spaces hwf hsplits =>
      obtain ⟨middle, hfront, hback⟩ := ih hsplits
      exact ⟨middle, .cons spaces hwf hfront, hback⟩

end TypeLint.Tag
