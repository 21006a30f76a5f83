import TypeLint.Proofs.Tag.Entry
import TypeLint.Proofs.Tag.Literal

/-!
# The value of a key

The first entry of a key decides what the key stands for. What comes before it are entries of other
keys, and what comes after it does not matter.

## Main statements

- `lookup_eq_some_iff` — where a key has a value
- `lookup_append_of_hasKey` — the value of a key in a tag that goes on
-/

namespace TypeLint.Tag

/-- The first entry of a key is the one behind a run of entries of other keys. -/
theorem find?_entries_eq_some_iff {text key : List Char} {e : Entry} :
    (entries text).find? (·.key == key) = some e ↔
      ∃ es spaces rest, Splits text es (e.text spaces ++ rest) ∧ (∀ d ∈ es, d.key ≠ key) ∧
        e.WellFormed ∧ e.key = key := by
  constructor
  · intro hfind
    obtain ⟨hkey, es, fs, hes, hothers⟩ := List.find?_eq_some_iff_append.1 hfind
    obtain ⟨tail, hsplits, -⟩ := splits_entries text
    rw [hes] at hsplits
    -- The entries before the one that is found form a run of their own.
    obtain ⟨middle, hfront, hback⟩ := hsplits.part
    cases hback with
    | @cons _ _ rest _ spaces hwf _ =>
      exact ⟨es, spaces, rest, hfront, fun d hd => by simpa using hothers d hd, hwf,
        by simpa using hkey⟩
  · intro h
    obtain ⟨es, spaces, rest, hsplits, hothers, hwf, hkey⟩ := h
    rw [entries_of_splits hsplits, entries_of_scan (Entry.scan_text hwf spaces rest)]
    refine List.find?_eq_some_iff_append.2 ⟨by simpa using hkey, es, _, rfl, fun d hd => ?_⟩
    simpa using hothers d hd

/-- A key has a value when its first entry has a valid literal. -/
theorem lookup_eq_some_iff {tag key value : String} :
    lookup tag key = some value ↔
      ∃ es spaces e rest, Splits tag.toList es (Entry.text spaces e ++ rest) ∧
        (∀ d ∈ es, d.key ≠ key.toList) ∧ e.WellFormed ∧ e.key = key.toList ∧
        Denotes e.literal value.toList := by
  have hvalue (e : Entry) :
      e.value?.map String.ofList = some value ↔ Denotes e.literal value.toList := by
    rw [← literalText?_eq_some_iff, Option.map_eq_some_iff, Entry.value?]
    constructor
    · rintro ⟨text, htext, rfl⟩
      rwa [String.toList_ofList]
    · intro htext
      exact ⟨_, htext, String.ofList_toList⟩
  simp only [lookup]
  constructor
  · intro h
    split at h
    · simp at h
    · rename_i e hfind
      obtain ⟨es, spaces, rest, hsplits, hothers, hwf, hkey⟩ := find?_entries_eq_some_iff.1 hfind
      exact ⟨es, spaces, e, rest, hsplits, hothers, hwf, hkey, (hvalue e).1 h⟩
  · intro h
    obtain ⟨es, spaces, e, rest, hsplits, hothers, hwf, hkey, hdenotes⟩ := h
    have hfind := find?_entries_eq_some_iff.2 ⟨es, spaces, rest, hsplits, hothers, hwf, hkey⟩
    rw [hfind]
    exact (hvalue e).2 hdenotes

/-! ## Keys -/

/-- The key occurs in an entry of the tag, whether its literal is valid or not. -/
def HasKey (tag key : String) : Prop :=
  ∃ e ∈ entries tag.toList, e.key = key.toList

/-- A key is present when a search by key finds an entry. -/
theorem hasKey_iff_exists_find? {tag key : String} :
    HasKey tag key ↔ ∃ e, (entries tag.toList).find? (·.key == key.toList) = some e := by
  rw [← Option.isSome_iff_exists, List.find?_isSome]
  simp [HasKey]

/-- A key with a value is present. -/
theorem hasKey_of_lookup {tag key value : String} (h : lookup tag key = some value) :
    HasKey tag key := by
  rw [lookup] at h
  split at h
  · simp at h
  · rename_i e hfind
    exact hasKey_iff_exists_find?.2 ⟨e, hfind⟩

/-- What a key stands for is decided where it occurs first, whatever is added behind the tag. -/
theorem lookup_append_of_hasKey {tag key : String} (hkey : HasKey tag key) (more : String) :
    lookup (tag ++ more) key = lookup tag key := by
  obtain ⟨e, hfind⟩ := hasKey_iff_exists_find?.1 hkey
  have hprefix := prefix_entries_append tag.toList more.toList
  rw [lookup, lookup, String.toList_append, hfind, hprefix.find?_eq_some hfind]

end TypeLint.Tag
