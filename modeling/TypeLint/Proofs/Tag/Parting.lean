import TypeLint.Proofs.Tag.Entry

/-!
# The one parting of a tag

Every text can be cut into spaces, well-formed entries and a tail that has no entry at its head, and
only in one way: the key ends at the first colon, the literal at its first bare quote, and the run
as soon as no entry follows. The entries of a tag are those of this parting.

## Main statements

- `Entry.text_append_inj` — where an entry stands at the head of a text, and how far it goes
- `IsParting.eq_of_isParting` — there is one parting at most
- `exists_isParting` — there is one
- `entries_eq_iff_isParting` — it has the entries that a scan finds
-/

namespace TypeLint.Tag

/-! ## Runs -/

@[simp] theorem runText_cons (p : Nat × Entry) (parts : List (Nat × Entry)) :
    runText (p :: parts) = p.2.text p.1 ++ runText parts :=
  rfl

/-- A run is followed by whatever stands behind it. -/
theorem splits_runText {parts : List (Nat × Entry)} (hwf : ∀ p ∈ parts, p.2.WellFormed)
    (tail : List Char) : Splits (runText parts ++ tail) (parts.map Prod.snd) tail := by
  induction parts with
  | nil => exact .nil
  | cons p parts ih =>
    obtain ⟨hp, hparts⟩ := List.forall_mem_cons.1 hwf
    rw [runText_cons, List.append_assoc]
    exact .cons p.1 hp (ih hparts)

/-- The spaces in front of the entries can be counted. -/
theorem Splits.exists_parts {text tail : List Char} {es : List Entry}
    (hsplits : Splits text es tail) :
    ∃ parts, text = runText parts ++ tail ∧ (∀ p ∈ parts, p.2.WellFormed) ∧
      es = parts.map Prod.snd := by
  induction hsplits with
  | nil => exact ⟨[], rfl, by simp, rfl⟩
  | @cons e es text tail spaces hwf _ ih =>
    obtain ⟨parts, rfl, hparts, rfl⟩ := ih
    refine ⟨(spaces, e) :: parts, ?_, List.forall_mem_cons.2 ⟨hwf, hparts⟩, rfl⟩
    rw [runText_cons, List.append_assoc]

/-! ## Partings -/

/-- A text parted without entries is its own tail, and starts with no entry. -/
theorem isParting_nil_iff {text tail : List Char} :
    IsParting text [] tail ↔ text = tail ∧ ¬ StartsWithEntry tail := by
  constructor
  · intro h
    exact ⟨h.text_eq, h.ends⟩
  · rintro ⟨htext, hends⟩
    exact ⟨htext, by simp, hends⟩

/-- A text parted with entries starts with the first of them, and the rest is parted with the
    others. -/
theorem isParting_cons_iff {text tail : List Char} {p : Nat × Entry} {parts : List (Nat × Entry)} :
    IsParting text (p :: parts) tail ↔
      p.2.WellFormed ∧ ∃ rest, text = p.2.text p.1 ++ rest ∧ IsParting rest parts tail := by
  constructor
  · intro h
    obtain ⟨hp, hparts⟩ := List.forall_mem_cons.1 h.wellFormed
    refine ⟨hp, runText parts ++ tail, ?_, rfl, hparts, h.ends⟩
    rw [h.text_eq, runText_cons, List.append_assoc]
  · rintro ⟨hp, rest, rfl, hrest⟩
    refine ⟨?_, List.forall_mem_cons.2 ⟨hp, hrest.wellFormed⟩, hrest.ends⟩
    rw [hrest.text_eq, runText_cons, List.append_assoc]

/-- A text has one entry at its head at most, with one number of spaces before it. -/
theorem Entry.text_append_inj {e f : Entry} {m n : Nat} {xs ys : List Char} (he : e.WellFormed)
    (hf : f.WellFormed) (h : e.text m ++ xs = f.text n ++ ys) : m = n ∧ e = f ∧ xs = ys := by
  have hscan := Entry.scan_text he m xs
  rw [h, Entry.scan_text hf n ys] at hscan
  obtain ⟨rfl, rfl⟩ := Prod.mk.inj (Option.some.inj hscan)
  -- The scan forgets the spaces, but there are as many as the texts are longer than what it keeps.
  have hlen := congrArg List.length h
  simp only [Entry.text, List.length_append, List.length_replicate, List.length_cons] at hlen
  exact ⟨by omega, rfl, rfl⟩

/-- Two partings of one text are the same. -/
theorem IsParting.eq_of_isParting {text tail tail' : List Char} {parts parts' : List (Nat × Entry)}
    (h : IsParting text parts tail) (h' : IsParting text parts' tail') :
    parts = parts' ∧ tail = tail' := by
  induction parts generalizing text parts' with
  | nil =>
    obtain ⟨rfl, hends⟩ := isParting_nil_iff.1 h
    cases parts' with
    | nil => exact ⟨rfl, (isParting_nil_iff.1 h').1⟩
    | cons p parts' =>
      obtain ⟨hp, rest, htext, -⟩ := isParting_cons_iff.1 h'
      exact absurd ⟨p.1, p.2, rest, hp, htext⟩ hends
  | cons p parts ih =>
    obtain ⟨hp, rest, htext, hrest⟩ := isParting_cons_iff.1 h
    cases parts' with
    | nil =>
      obtain ⟨rfl, hends⟩ := isParting_nil_iff.1 h'
      exact absurd ⟨p.1, p.2, rest, hp, htext⟩ hends
    | cons q parts' =>
      obtain ⟨hq, rest', htext', hrest'⟩ := isParting_cons_iff.1 h'
      obtain ⟨hspaces, he, rfl⟩ := Entry.text_append_inj hp hq (htext.symm.trans htext')
      obtain ⟨rfl, rfl⟩ := ih hrest hrest'
      exact ⟨congrArg (· :: parts) (Prod.ext hspaces he), rfl⟩

/-- Every text has a parting. -/
theorem exists_isParting (text : List Char) : ∃ parts tail, IsParting text parts tail := by
  obtain ⟨tail, hsplits, hends⟩ := splits_entries text
  obtain ⟨parts, htext, hwf, -⟩ := hsplits.exists_parts
  exact ⟨parts, tail, htext, hwf, hends⟩

/-! ## Entries -/

/-- The entries of a text are those of its parting. -/
theorem IsParting.entries_eq {text tail : List Char} {parts : List (Nat × Entry)}
    (h : IsParting text parts tail) : entries text = parts.map Prod.snd := by
  rw [h.text_eq, entries_of_splits (splits_runText h.wellFormed tail),
    entries_of_not_startsWithEntry h.ends, List.append_nil]

/-- The same run with another tail is a parting too. -/
theorem IsParting.with_tail {text tail other : List Char} {parts : List (Nat × Entry)}
    (h : IsParting text parts tail) (hends : ¬ StartsWithEntry other) :
    IsParting (runText parts ++ other) parts other :=
  ⟨rfl, h.wellFormed, hends⟩

/-- A scan finds just the entries of the one parting of a text. The tail has no entries, and it can
    be changed to any other text without an entry at its head. -/
theorem entries_eq_iff_isParting (text : List Char) :
    (∀ es, entries text = es ↔ ∃ parts tail, IsParting text parts tail ∧ es = parts.map Prod.snd) ∧
    (∃! p : List (Nat × Entry) × List Char, IsParting text p.1 p.2) ∧
    ∀ parts tail, IsParting text parts tail →
      entries tail = [] ∧
      ∀ other, ¬ StartsWithEntry other → entries (runText parts ++ other) = entries text := by
  obtain ⟨parts, tail, hparting⟩ := exists_isParting text
  refine ⟨fun es => ⟨?_, ?_⟩, ⟨(parts, tail), hparting, ?_⟩, fun parts tail h => ⟨?_, ?_⟩⟩
  · rintro rfl
    exact ⟨parts, tail, hparting, hparting.entries_eq⟩
  · rintro ⟨parts, tail, h, rfl⟩
    exact h.entries_eq
  · rintro ⟨parts', tail'⟩ h
    obtain ⟨rfl, rfl⟩ := hparting.eq_of_isParting h
    rfl
  · exact entries_of_not_startsWithEntry h.ends
  · intro other hother
    rw [(h.with_tail hother).entries_eq, h.entries_eq]

/-- An escaped quote, two entries with no space between them, and an entry behind a broken one. -/
theorem entries_eq_iff_isParting_broken_entry :
    let escaped : Entry := ⟨['a'], ['"', 'x', '\\', '"', '"']⟩
    let empty : Entry := ⟨['b'], ['"', '"']⟩
    let parts := [(2, escaped), (0, empty)]
    let tail := " c: d:\"z\"".toList
    IsParting "  a:\"x\\\"\"b:\"\" c: d:\"z\"".toList parts tail ∧
      entries tail = [] ∧
      ¬ StartsWithEntry "c:\"z".toList ∧
      entries (runText parts ++ "c:\"z".toList) =
        entries "  a:\"x\\\"\"b:\"\" c: d:\"z\"".toList := by
  intro escaped empty parts tail
  have hescaped : closing ['x', '\\', '"', '"'] = some (['x', '\\', '"'], []) := by decide
  have hempty : closing ['"'] = some ([], []) := by decide
  have hparting : IsParting "  a:\"x\\\"\"b:\"\" c: d:\"z\"".toList parts tail := by
    refine ⟨by decide, ?_, Entry.scan_eq_none_iff.1 (by decide)⟩
    simp only [parts, List.forall_mem_cons]
    refine ⟨⟨⟨by decide, ?_⟩, _, (closing_eq_some_iff.1 hescaped).1, rfl⟩,
      ⟨⟨by decide, ?_⟩, _, (closing_eq_some_iff.1 hempty).1, rfl⟩, by simp⟩
    all_goals simp [escaped, empty, IsKeyChar]
  have hother : ¬ StartsWithEntry "c:\"z".toList := Entry.scan_eq_none_iff.1 (by decide)
  have hscan := (entries_eq_iff_isParting _).2.2 parts tail hparting
  exact ⟨hparting, hscan.1, hother, hscan.2 _ hother⟩

end TypeLint.Tag
