import Mathlib.Data.List.Forall2
import TypeLint.Proofs.Tag.Splitting
import TypeLint.Proofs.Tag.Table

/-!
# A written tag is read back

The scan of entries and the reader of literals part a literal in different ways: for the scan, a
backslash takes one character along, and for the reader up to nine. On a literal that spells a text
they agree on where it ends, because no character of an escape after its second one is a quote or a
backslash. So a tag that writes pairs of keys and values has the entries of these pairs.

## Main statements

- `entries_of_writes` — the entries of a written tag
- `values_of_writes` — the values of a written tag
-/

namespace TypeLint.Tag

open Text

/-! ## Spelled literals -/

/-- What spells a text is a literal. -/
theorem Spells.isLiteral {literal text : List Char} (hspells : Spells literal text) :
    IsLiteral literal := by
  obtain ⟨body, units, hliteral, hsplit, hquotes, -⟩ := hspells
  exact ⟨body, hsplit.isBody_iff.2 hquotes, hliteral⟩

/-- A literal that spells a text stands for it. -/
theorem Spells.denotes {literal text : List Char} (hspells : Spells literal text) :
    Denotes literal text := by
  obtain ⟨body, units, hliteral, hsplit, -, htext⟩ := hspells
  exact ⟨body, units, hliteral, hsplit, htext⟩

/-! ## Written pairs -/

/-- No entry stands in spaces. -/
theorem not_startsWithEntry_spaces (spaces : Nat) :
    ¬ StartsWithEntry (List.replicate spaces ' ') := by
  rintro ⟨front, e, rest, -, htext⟩
  have hcolon : ':' ∈ List.replicate spaces ' ' := by
    rw [htext]
    simp [Entry.text]
  exact absurd (List.eq_of_mem_replicate hcolon) (by decide)

/-- The entry is that of a pair: it has its key, and its literal is read as its value. -/
def Entry.Holds (e : Entry) (pair : String × String) : Prop :=
  e.key = pair.1.toList ∧ e.value?.map String.ofList = some pair.2

/-- The entries of a written tag are those of the pairs, in order. -/
theorem entries_of_writes {text : List Char} {pairs : List (String × String)}
    (hwrites : Writes text pairs) : List.Forall₂ Entry.Holds (entries text) pairs := by
  induction hwrites with
  | nil spaces =>
    rw [entries_of_not_startsWithEntry (not_startsWithEntry_spaces spaces)]
    exact .nil
  | @cons key value literal text pairs spaces hkey hspells _ ih =>
    have hwf : (Entry.mk key.toList literal).WellFormed := ⟨hkey, hspells.isLiteral⟩
    rw [entries_of_scan (Entry.scan_text hwf spaces text)]
    refine .cons ⟨rfl, ?_⟩ ih
    rw [Entry.value?, literalText?_eq_some_iff.2 hspells.denotes, Option.map_some,
      String.ofList_toList]

/-- The first entry of a key holds the first pair of the key. -/
theorem find?_of_holds {es : List Entry} {pairs : List (String × String)}
    (hholds : List.Forall₂ Entry.Holds es pairs) (key : String) :
    (es.find? (·.key == key.toList)).bind (fun e => e.value?.map String.ofList) =
      pairs.lookup key := by
  induction hholds with
  | nil => rfl
  | @cons e pair es pairs he _ ih =>
    obtain ⟨hkey, hvalue⟩ := he
    by_cases hsame : key = pair.1
    · rw [List.find?_cons_of_pos (by simp [hkey, hsame]), Option.bind_some, hvalue,
        List.lookup_cons, hsame, beq_self_eq_true]
    · have hother : ¬ e.key = key.toList := by
        rw [hkey, String.toList_inj]
        exact Ne.symm hsame
      rw [List.find?_cons_of_neg (by simpa using hother), ih, List.lookup_cons,
        beq_false_of_ne hsame]

/-- A look-up in a written tag finds the first pair of the key. -/
theorem lookup_of_writes {tag : String} {pairs : List (String × String)}
    (hwrites : Writes tag.toList pairs) (key : String) : lookup tag key = pairs.lookup key := by
  rw [← find?_of_holds (entries_of_writes hwrites) key, lookup]
  cases (entries tag.toList).find? (·.key == key.toList) with
  | none => rfl
  | some e => rfl

/-- Every tag that writes pairs is read as these pairs, of which the first one of a key counts. -/
theorem values_of_writes {tag : String} {pairs : List (String × String)}
    (hwrites : Writes tag.toList pairs) :
    (∀ key, lookup tag key = pairs.lookup key) ∧
      (∀ key, get tag key = (pairs.lookup key).getD "") ∧
      (table tag).Pairwise (fun a b => a.1 < b.1) ∧
      ∀ key value, (key, value) ∈ table tag ↔ pairs.lookup key = some value := by
  refine ⟨lookup_of_writes hwrites, fun key => ?_, pairwise_table tag, fun key value => ?_⟩
  · rw [get, lookup_of_writes hwrites]
  · rw [mem_table_iff, lookup_of_writes hwrites]

/-- Two values of one key, the first one with an escape of each sort, and an empty value between
    them. -/
theorem values_of_writes_repeated_key :
    Writes " desc:\"\\\"\\x41é\\101\\u00e9\\U0001f600\"json:\"\" desc:\"x\"  ".toList
        [("desc", "\"AéAé😀"), ("json", ""), ("desc", "x")] ∧
      lookup " desc:\"\\\"\\x41é\\101\\u00e9\\U0001f600\"json:\"\" desc:\"x\"  " "desc" =
        some "\"AéAé😀" := by
  let units : List (List Char × Char) :=
    [(['\\', '"'], '"'), (['\\', 'x', '4', '1'], 'A'), (['é'], 'é'), (['\\', '1', '0', '1'], 'A'),
      (['\\', 'u', '0', '0', 'e', '9'], 'é'),
      (['\\', 'U', '0', '0', '0', '1', 'f', '6', '0', '0'], '😀')]
  have hunits : ∀ u ∈ units, IsUnit u.1 u.2 := by
    simp only [units, List.forall_mem_cons]
    refine ⟨.short (by decide), .two ?_, .plain (by decide) (by decide), .octal ?_ (by decide),
      .four ?_, .eight ?_, by simp⟩
    all_goals exact ⟨rfl, by simp [digitValue], by decide⟩
  have hspells : Spells _ "\"AéAé😀".toList := ⟨_, units, rfl, ⟨rfl, hunits⟩, by decide, by decide⟩
  have hempty : Spells ['"', '"'] "".toList := ⟨[], [], rfl, ⟨rfl, by simp⟩, by simp, by decide⟩
  have hplain : Spells ['"', 'x', '"'] "x".toList :=
    ⟨['x'], [(['x'], 'x')], rfl,
      ⟨rfl, List.forall_mem_singleton.2 (.plain (by decide) (by decide))⟩, by simp, by decide⟩
  have hdesc : IsKey "desc".toList := ⟨by decide, by simp [IsKeyChar]⟩
  have hjson : IsKey "json".toList := ⟨by decide, by simp [IsKeyChar]⟩
  have hwrites : Writes " desc:\"\\\"\\x41é\\101\\u00e9\\U0001f600\"json:\"\" desc:\"x\"  ".toList
      [("desc", "\"AéAé😀"), ("json", ""), ("desc", "x")] :=
    .cons 1 hdesc hspells (.cons 0 hjson hempty (.cons 1 hdesc hplain (.nil 2)))
  exact ⟨hwrites, (values_of_writes hwrites).1 "desc"⟩

end TypeLint.Tag
