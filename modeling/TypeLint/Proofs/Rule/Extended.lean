import TypeLint.Proofs.Tag.Table
import TypeLint.Rule.Metadata

/-!
# Tags that go on

Text added behind a tag changes nothing of what was visible before: neither the entries, nor what
the keys among them stand for, nor the verdict on a member whose tag has a `json` entry. The text
may follow anything, and may go on with an entry that was broken off.

## Main statements

- `check_of_same_member` — members that a rule cannot tell apart
- `visible_of_appended_text` — what stays when a tag goes on
-/

namespace TypeLint

open Tag

/-! ## Members -/

/-- The member with more text behind its tags. -/
def Member.withTagText (m : Member) (more : String) : Member :=
  { m with tags := m.tags ++ more }

/-- Text behind a tag with the key does not change whether the name is kept. -/
theorem keepsName_withTagText {m : Member} (hjson : HasKey m.tags "json") (more : String) :
    (m.withTagText more).keepsName = m.keepsName := by
  have hembeds : (m.withTagText more).embedsMetadata = m.embedsMetadata := rfl
  have htags : (m.withTagText more).tags = m.tags ++ more := rfl
  rw [Member.keepsName, Member.keepsName, hembeds, htags, lookup_append_of_hasKey hjson]

/-- A member can be replaced by one of the same name and type that stands or falls with it. -/
theorem check_of_same_member {t : Decl} {front back : List Member} {m m' : Member}
    (hmembers : t.members = front ++ m :: back) (hname : m'.name = m.name)
    (htype : m'.type = m.type) (hkeeps : m'.keepsName = m.keepsName) :
    Rule.embeddedMetadata.check { t with members := front ++ m' :: back } =
      Rule.embeddedMetadata.check t := by
  have hmap {α : Type} (f : Member → α) (hf : f m' = f m) :
      (Decl.misnamedMembers { t with members := front ++ m' :: back }).map f =
        t.misnamedMembers.map f := by
    simp only [Decl.misnamedMembers, hmembers, List.filter_append, List.filter_cons, hkeeps]
    split
    · simp only [List.map_append, List.map_cons, hf]
    · rfl
  simp only [Rule.embeddedMetadata]
  rw [hmap _ hname, hmap _ (by rw [hname, htype])]

/-! ## Tags -/

/-- Whatever text is added behind a tag, the entries stay in front of what it adds. So a key keeps
    its value, or keeps to have none, once it occurs, and the table only grows. A type keeps its
    verdict and its trace when text is added to the tags of a member with a `json` entry. -/
theorem visible_of_appended_text (tag more : String) :
    entries tag.toList <+: entries (tag ++ more).toList ∧
    (∀ key, HasKey tag key → lookup (tag ++ more) key = lookup tag key) ∧
    table tag ⊆ table (tag ++ more) ∧
    ∀ (t : Decl) (front : List Member) (m : Member) (back : List Member),
      t.members = front ++ m :: back → m.tags = tag → HasKey tag "json" →
      Rule.embeddedMetadata.check { t with members := front ++ m.withTagText more :: back } =
        Rule.embeddedMetadata.check t := by
  refine ⟨?_, fun key hkey => lookup_append_of_hasKey hkey more, table_subset_append tag more, ?_⟩
  · rw [String.toList_append]
    exact prefix_entries_append tag.toList more.toList
  · rintro t front m back hmembers rfl hjson
    exact check_of_same_member hmembers rfl rfl (keepsName_withTagText hjson more)

/-- An invalid `json` literal, and a text that closes the entry broken off behind it. -/
theorem visible_of_appended_text_closing_an_entry :
    let tag := "json:\"\\q\" yaml:\"a"
    let more := "b\" json:\"metadata\""
    let m := Member.embedding ⟨"k8s.io/apimachinery/pkg/apis/meta/v1", "ObjectMeta"⟩ tag
    HasKey tag "json" ∧
      lookup (tag ++ more) "json" = lookup tag "json" ∧
      Rule.embeddedMetadata.check (.struct (.builtin "Spec") [m.withTagText more]) =
        Rule.embeddedMetadata.check (.struct (.builtin "Spec") [m]) := by
  intro tag more m
  let e : Entry := ⟨"json".toList, ['"', '\\', 'q', '"']⟩
  have hscan : Entry.scan tag.toList = some (e, " yaml:\"a".toList) := by decide
  have hjson : HasKey tag "json" := by
    refine ⟨e, ?_, rfl⟩
    rw [entries_of_scan hscan]
    exact List.mem_cons_self
  obtain ⟨-, hlookup, -, hcheck⟩ := visible_of_appended_text tag more
  exact ⟨hjson, hlookup "json" hjson, hcheck (.struct (.builtin "Spec") [m]) [] m [] rfl rfl hjson⟩

end TypeLint
