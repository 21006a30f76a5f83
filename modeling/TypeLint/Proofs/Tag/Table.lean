import TypeLint.Proofs.Tag.Lookup
import TypeLint.Proofs.Text.Order

/-!
# The table of a tag

The table lists the keys that have a value, each once and in increasing order. It is the same view
of a tag as looking keys up one at a time.

## Main statements

- `mem_table_iff` — what the table lists
- `pairwise_table` — the order of the table
- `table_agrees_with_lookup` — the table and the look-up of keys as two views of one tag
-/

namespace TypeLint.Tag

/-! ## The first entry of each key -/

/-- An entry is kept when its key is new and no entry before it has the same one. -/
theorem mem_firstOfEach_iff {seen : List (List Char)} {es : List Entry} {e : Entry} :
    e ∈ firstOfEach seen es ↔ e.key ∉ seen ∧ es.find? (·.key == e.key) = some e := by
  induction es generalizing seen with
  | nil => simp [firstOfEach]
  | cons d es ih =>
    rw [firstOfEach]
    by_cases hsame : d.key = e.key
    · rw [List.find?_cons_of_pos (by simpa using hsame)]
      split
      · rename_i hseen
        -- No entry with this key is kept.
        rw [ih, ← hsame]
        simp [hseen]
      · rename_i hseen
        rw [List.mem_cons, ih, ← hsame]
        simp [hseen, eq_comm]
    · have hne : e ≠ d := fun h => hsame (congrArg Entry.key h.symm)
      rw [List.find?_cons_of_neg (by simpa using hsame)]
      split
      · exact ih
      · rw [List.mem_cons, ih, List.mem_cons]
        simp [hne, Ne.symm hsame]

/-- Each key is kept once. -/
theorem pairwise_firstOfEach (seen : List (List Char)) (es : List Entry) :
    (firstOfEach seen es).Pairwise fun d e => d.key ≠ e.key := by
  induction es generalizing seen with
  | nil => exact .nil
  | cons d es ih =>
    rw [firstOfEach]
    split
    · exact ih seen
    · refine .cons (fun e he => ?_) (ih _)
      have hnew := (mem_firstOfEach_iff.1 he).1
      exact fun hsame => hnew (by simp [hsame])

/-! ## The table -/

/-- The key and the value of an entry that has one. -/
def Entry.pair? (e : Entry) : Option (String × String) :=
  e.value?.map fun value => (String.ofList e.key, String.ofList value)

/-- An entry gives a pair when its literal can be read. -/
theorem Entry.pair?_eq_some_iff {e : Entry} {key value : String} :
    e.pair? = some (key, value) ↔
      e.key = key.toList ∧ e.value?.map String.ofList = some value := by
  simp only [Entry.pair?, Option.map_eq_some_iff, Prod.mk.injEq]
  constructor
  · rintro ⟨text, htext, rfl, rfl⟩
    exact ⟨String.toList_ofList.symm, text, htext, rfl⟩
  · rintro ⟨hkey, text, htext, rfl⟩
    exact ⟨text, htext, by rw [hkey, String.ofList_toList], rfl⟩

theorem table_eq (tag : String) :
    table tag = ((firstOfEach [] (entries tag.toList)).filterMap Entry.pair?).mergeSort
      fun a b => decide (a.1 ≤ b.1) := rfl

/-- The table lists a key with a value exactly when that is the value of the key. -/
theorem mem_table_iff {tag key value : String} :
    (key, value) ∈ table tag ↔ lookup tag key = some value := by
  rw [table_eq, (List.mergeSort_perm _ _).mem_iff, List.mem_filterMap, lookup]
  constructor
  · rintro ⟨e, hmem, hpair⟩
    obtain ⟨hkey, hvalue⟩ := Entry.pair?_eq_some_iff.1 hpair
    have hfind := (mem_firstOfEach_iff.1 hmem).2
    rw [hkey] at hfind
    rw [hfind]
    exact hvalue
  · intro h
    split at h
    · simp at h
    · rename_i e hfind
      have hkey : e.key = key.toList := by simpa using List.find?_some hfind
      refine ⟨e, mem_firstOfEach_iff.2 ⟨by simp, hkey ▸ hfind⟩, ?_⟩
      exact Entry.pair?_eq_some_iff.2 ⟨hkey, h⟩

/-- Text added behind a tag leaves what the table lists. -/
theorem table_subset_append (tag more : String) : table tag ⊆ table (tag ++ more) := by
  rintro ⟨key, value⟩ hmem
  have hvalue := mem_table_iff.1 hmem
  rw [mem_table_iff, lookup_append_of_hasKey (hasKey_of_lookup hvalue), hvalue]

/-- The keys of the table increase. -/
theorem pairwise_table (tag : String) : (table tag).Pairwise fun a b => a.1 < b.1 := by
  rw [table_eq]
  generalize hvalued : (firstOfEach [] (entries tag.toList)).filterMap Entry.pair? = valued
  -- No key occurs twice before the table is sorted, and sorting does not repeat any.
  have hdistinct : valued.Pairwise fun a b => a.1 ≠ b.1 := by
    rw [← hvalued]
    refine (pairwise_firstOfEach [] _).filterMap _ fun d e hne a ha b hb hsame => hne ?_
    rw [(Entry.pair?_eq_some_iff.1 ha).1, (Entry.pair?_eq_some_iff.1 hb).1, hsame]
  have htrans (a b c : String × String) (hab : decide (a.1 ≤ b.1)) (hbc : decide (b.1 ≤ c.1)) :
      decide (a.1 ≤ c.1) := by
    simp only [decide_eq_true_eq] at hab hbc ⊢
    exact String.le_trans hab hbc
  have htotal (a b : String × String) : decide (a.1 ≤ b.1) || decide (b.1 ≤ a.1) := by
    simp only [Bool.or_eq_true, decide_eq_true_eq]
    exact String.le_total a.1 b.1
  have hsorted := List.pairwise_mergeSort htrans htotal valued
  have hperm := List.mergeSort_perm valued fun a b => decide (a.1 ≤ b.1)
  have hkeys := hdistinct.perm hperm.symm Ne.symm
  refine (hsorted.and hkeys).imp fun {a b} h => ?_
  have hle : a.1 ≤ b.1 := by simpa using h.1
  show a.1 < b.1
  exact String.not_le.1 fun hge => h.2 (String.le_antisymm hle hge)

/-! ## One view -/

/-- The entry is the first one of the key in the tag: those before it have other keys. -/
def IsFirstOf (tag key : String) (e : Entry) : Prop :=
  ∃ es spaces rest, Splits tag.toList es (e.text spaces ++ rest) ∧
    (∀ d ∈ es, d.key ≠ key.toList) ∧ e.WellFormed ∧ e.key = key.toList

/-- A look-up reads the first entry of the key. -/
theorem lookup_of_isFirstOf {tag key : String} {e : Entry} (hfirst : IsFirstOf tag key e) :
    lookup tag key = e.value?.map String.ofList := by
  rw [lookup, find?_entries_eq_some_iff.2 hfirst]

/-- A key is missing from the table when a look-up finds nothing. -/
theorem not_mem_table_iff {tag key : String} :
    (∀ value, (key, value) ∉ table tag) ↔ lookup tag key = none := by
  simp only [mem_table_iff, Option.eq_none_iff_forall_ne_some]

/-- A key whose first literal is invalid has no value, whatever entries follow. -/
theorem lookup_eq_none_of_invalid {tag key : String} {e : Entry} (hfirst : IsFirstOf tag key e)
    (hinvalid : ∀ text, ¬ Denotes e.literal text) : lookup tag key = none := by
  rw [lookup_of_isFirstOf hfirst, Option.map_eq_none_iff, Option.eq_none_iff_forall_ne_some]
  intro text hvalue
  exact hinvalid text (literalText?_eq_some_iff.1 hvalue)

/-- The table lists just the keys that have a value, each once with its value, and increasing by
    code points and by bytes alike. Neither view shows a key whose first literal is invalid, nor
    anything from the first text on that is no entry. -/
theorem table_agrees_with_lookup (tag key : String) :
    (∀ value, (key, value) ∈ table tag ↔ lookup tag key = some value) ∧
    (∀ value, (key, value) ∈ table tag → get tag key = value) ∧
    ((∀ value, (key, value) ∉ table tag) → get tag key = "") ∧
    (∀ e, IsFirstOf tag key e → (∀ text, ¬ Denotes e.literal text) →
      lookup tag key = none ∧ ∀ value, (key, value) ∉ table tag) ∧
    (∀ front es tail, tag.toList = front ++ tail → Splits front es [] → ¬ StartsWithEntry tail →
      lookup tag key = lookup (String.ofList front) key ∧
        table tag = table (String.ofList front)) ∧
    ((table tag).map Prod.fst).Nodup ∧
    (table tag).Pairwise (fun a b => a.1 < b.1) ∧
    (table tag).Pairwise (fun a b => Text.utf8 a.1 < Text.utf8 b.1) ∧
    ∀ s t, Text.utf8 s < Text.utf8 t ↔ s < t := by
  refine ⟨fun value => mem_table_iff, fun value hmem => ?_, fun hnone => ?_, ?_, ?_, ?_,
    pairwise_table tag, ?_, fun s t => Text.utf8_lt_iff⟩
  · rw [get, mem_table_iff.1 hmem, Option.getD_some]
  · rw [get, not_mem_table_iff.1 hnone, Option.getD_none]
  · intro e hfirst hinvalid
    have hnone := lookup_eq_none_of_invalid hfirst hinvalid
    exact ⟨hnone, not_mem_table_iff.2 hnone⟩
  · intro front es tail htag hsplits hstarts
    have hentries : entries tag.toList = entries (String.ofList front).toList := by
      rw [htag, String.toList_ofList, entries_append_of_not_startsWithEntry hsplits hstarts]
    exact ⟨by rw [lookup, lookup, hentries], by rw [table_eq, table_eq, hentries]⟩
  · refine List.pairwise_map.2 ((pairwise_table tag).imp fun hlt hsame => ?_)
    rw [hsame] at hlt
    exact String.lt_irrefl _ hlt
  · exact (pairwise_table tag).imp fun hlt => Text.utf8_lt_iff.2 hlt

/-- A valid literal behind an invalid one of the same key, and an entry behind text that is none. -/
theorem table_agrees_with_lookup_hidden_entries :
    let front := "json:\"\\q\" json:\"metadata\""
    let tag := "json:\"\\q\" json:\"metadata\" yaml xml:\"z\""
    (lookup tag "json" = none ∧ ∀ value, ("json", value) ∉ table tag) ∧
      lookup tag "xml" = lookup front "xml" ∧ table tag = table front := by
  intro front tag
  let invalid : Entry := ⟨"json".toList, ['"', '\\', 'q', '"']⟩
  let valid : Entry := ⟨"json".toList, '"' :: "metadata".toList ++ ['"']⟩
  let tail : List Char := " yaml xml:\"z\"".toList
  have hjson : IsKey "json".toList := ⟨by decide, by simp [IsKeyChar]⟩
  have hinvalid : invalid.WellFormed := ⟨hjson, _, .pair .nil, rfl⟩
  have hclosing : closing "metadata\"".toList = some ("metadata".toList, []) := by decide
  have hvalid : valid.WellFormed := ⟨hjson, _, (closing_eq_some_iff.1 hclosing).1, rfl⟩
  have hfront : front.toList = invalid.text 0 ++ (valid.text 1 ++ []) := by decide
  have htag : tag.toList = front.toList ++ tail := by decide
  have hsplits : Splits front.toList [invalid, valid] [] :=
    hfront ▸ .cons 0 hinvalid (.cons 1 hvalid .nil)
  constructor
  · have hfirst : IsFirstOf tag "json" invalid := by
      refine ⟨[], 0, valid.text 1 ++ tail, ?_, by simp, hinvalid, rfl⟩
      have hwhole : tag.toList = invalid.text 0 ++ (valid.text 1 ++ tail) := by decide
      exact hwhole ▸ .nil
    refine (table_agrees_with_lookup tag "json").2.2.2.1 invalid hfirst fun text => ?_
    have hnone : literalText? invalid.literal = none := by decide +kernel
    rw [← literalText?_eq_some_iff, hnone]
    simp
  · have hstarts : ¬ StartsWithEntry tail := Entry.scan_eq_none_iff.1 (by decide)
    have hcut := (table_agrees_with_lookup tag "xml").2.2.2.2.1 _ _ _ htag hsplits hstarts
    rwa [String.ofList_toList] at hcut

end TypeLint.Tag
