import TypeLint.Proofs.Name
import TypeLint.Proofs.Tag.Lookup
import TypeLint.RuleSet

/-!
# The verdict on raw tags

The standard rules never fail. What they report depends on the raw tags of embedded metadata alone:
a member may stand when its tag has, behind entries of other keys only, a `json` entry that gives it
the required name.

## Main definitions

- `NamesMetadata` — the tags that give the required name
- `Offends` — the members that are reported

## Main statements

- `standard_verdict` — the reports on a list of types
-/

namespace TypeLint

open Tag

/-! ## Tags -/

/-- Behind a run of entries of other keys, the tag has a `json` entry whose literal stands for the
    required name, alone or with a comma after it. Anything may follow the entry. -/
def NamesMetadata (tag : List Char) : Prop :=
  ∃ es spaces literal text rest,
    Splits tag es (Entry.text spaces ⟨"json".toList, literal⟩ ++ rest) ∧
    (∀ e ∈ es, e.key ≠ "json".toList) ∧ IsLiteral literal ∧ Denotes literal text ∧
    (text = "metadata".toList ∨ "metadata,".toList <+: text)

/-- A text is the part before the first comma alone, or goes on with a comma after it. -/
theorem takeWhile_ne_comma_iff {text name : List Char} (hname : ',' ∉ name) :
    text.takeWhile (· != ',') = name ↔ text = name ∨ name ++ [','] <+: text := by
  have hplain : ∀ c ∈ name, (c != ',') = true := by
    intro c hc
    rw [bne_iff_ne]
    rintro rfl
    exact hname hc
  constructor
  · intro htake
    have hwhole := List.takeWhile_append_dropWhile (p := (· != ',')) (l := text)
    rw [htake] at hwhole
    cases hdrop : text.dropWhile (· != ',') with
    | nil =>
      rw [hdrop, List.append_nil] at hwhole
      exact .inl hwhole.symm
    | cons c rest =>
      have hcomma : c = ',' := by
        have hhead := List.head?_dropWhile_not (· != ',') text
        rw [hdrop] at hhead
        simpa using hhead
      rw [hdrop, hcomma] at hwhole
      exact .inr ⟨rest, by simpa using hwhole⟩
  · rintro (rfl | ⟨rest, rfl⟩)
    · exact List.takeWhile_eq_self_iff.2 hplain
    · rw [List.append_assoc]
      exact Text.takeWhile_run hplain (by simp)

/-- The name in a tag is the required one, with options behind it or none. -/
theorem serializedName_eq_iff {tag : String} :
    serializedName tag = requiredName ↔
      tag.toList = "metadata".toList ∨ "metadata,".toList <+: tag.toList := by
  rw [serializedName, requiredName, ← String.toList_inj, String.toList_ofList]
  exact takeWhile_ne_comma_iff (by decide)

/-! ## Members -/

/-- A member embeds metadata if it is embedded and of one of the types of metadata. -/
theorem embedsMetadata_iff {m : Member} :
    m.embedsMetadata = true ↔ m.embedded = true ∧ m.type.canonical ∈ metadataTypes := by
  simp only [Member.embedsMetadata, Bool.and_eq_true, List.any_eq_true, Name.answersTo_iff]
  constructor
  · intro h
    obtain ⟨hembedded, s, hs, rfl⟩ := h
    exact ⟨hembedded, hs⟩
  · rintro ⟨hembedded, hs⟩
    exact ⟨hembedded, _, hs, rfl⟩

theorem namesMetadata_iff {tag : String} :
    NamesMetadata tag.toList ↔
      ∃ value, lookup tag "json" = some value ∧ serializedName value = requiredName := by
  simp only [lookup_eq_some_iff, serializedName_eq_iff]
  constructor
  · intro h
    obtain ⟨es, spaces, literal, text, rest, hsplits, hothers, hliteral, hdenotes, hname⟩ := h
    have hjson : IsKey "json".toList := ⟨by decide, by simp [IsKeyChar]⟩
    have htext : (String.ofList text).toList = text := String.toList_ofList
    refine ⟨String.ofList text, ⟨es, spaces, _, rest, hsplits, hothers, ⟨hjson, hliteral⟩, rfl, ?_⟩,
      ?_⟩
    · rwa [htext]
    · rwa [htext]
  · rintro ⟨value, ⟨es, spaces, ⟨key, literal⟩, rest, hsplits, hothers, hwf, rfl, hdenotes⟩, hname⟩
    exact ⟨es, spaces, literal, _, rest, hsplits, hothers, hwf.literal, hdenotes, hname⟩

/-- A member keeps its name unless it embeds metadata under another one. -/
theorem keepsName_iff {m : Member} :
    m.keepsName = true ↔
      ¬ (m.embedded = true ∧ m.type.canonical ∈ metadataTypes) ∨ NamesMetadata m.tags.toList := by
  rw [Member.keepsName, Bool.or_eq_true, Bool.not_eq_true', ← embedsMetadata_iff,
    Bool.not_eq_true, namesMetadata_iff]
  cases lookup m.tags "json" <;> simp

/-- The member of the type is reported: it embeds metadata in a struct, and its tag does not give
    the required name. -/
def Offends (t : Decl) (m : Member) : Prop :=
  t.kind = .struct ∧ m.embedded = true ∧ m.type.canonical ∈ metadataTypes ∧
    ¬ NamesMetadata m.tags.toList

/-! ## Types -/

open Classical in
/-- A type is never a failure, and its reports name the members that offend, in order. -/
theorem validate_standard (t : Decl) :
    RuleSet.standard.validate t = .ok ((t.members.filter fun m => Offends t m).map fun m =>
      ⟨metadataRuleName, t.name.package, t.name.short, m.name⟩) := by
  by_cases hstruct : t.kind = .struct
  · have hfilter : t.misnamedMembers = t.members.filter fun m => Offends t m := by
      refine List.filter_congr fun m _ => ?_
      rw [Bool.eq_iff_iff, Bool.not_eq_true', ← Bool.not_eq_true, keepsName_iff, decide_eq_true_iff]
      simp [Offends, hstruct, and_assoc]
    simp only [RuleSet.validate, RuleSet.run, RuleSet.standard, RuleSet.runRules,
      Rule.embeddedMetadata, if_pos hstruct, hfilter, Except.map, List.append_nil, List.map_map]
    rfl
  · have hfilter : (t.members.filter fun m => Offends t m) = [] :=
      List.filter_eq_nil_iff.2 fun m _ => by simp [Offends, hstruct]
    simp only [RuleSet.validate, RuleSet.run, RuleSet.standard, RuleSet.runRules,
      Rule.embeddedMetadata, if_neg hstruct, hfilter, Except.map, List.append_nil, List.map_nil]

open Classical in
/-- The standard rules never fail on any of the types, and their reports are one for each member
    that offends, in the order of types and members. -/
theorem standard_verdict (types : List Decl) :
    (types.mapM RuleSet.standard.validate).map List.flatten =
      .ok (types.flatMap fun t => (t.members.filter fun m => Offends t m).map fun m =>
        ⟨"naming_convention", t.name.package, t.name.short, m.name⟩) := by
  have hall (types : List Decl) : types.mapM RuleSet.standard.validate =
      .ok (types.map fun t => (t.members.filter fun m => Offends t m).map fun m =>
        ⟨metadataRuleName, t.name.package, t.name.short, m.name⟩) := by
    induction types with
    | nil => rfl
    | cons t types ih =>
      rw [List.mapM_cons, validate_standard, ih]
      rfl
  rw [hall, List.flatMap_def]
  rfl

end TypeLint
