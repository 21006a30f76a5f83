import TypeLint.Rule.Basic
import TypeLint.Tag.Lookup

/-!
# Serialized names of embedded metadata

The housekeeping types of API objects and lists have to be serialized under the field name
`metadata` where they are embedded. Without that name in the `json` entry of the tag their fields
would be spliced into the enclosing type.

## Main definitions

- `metadataTypes` — the types in question
- `Member.keepsName` — the condition on one member
- `Rule.embeddedMetadata` — the rule on structs
-/

namespace TypeLint

/-- The canonical names of the types that must keep their serialized name when embedded. -/
def metadataTypes : List String :=
  ["k8s.io/apimachinery/pkg/apis/meta/v1.ListMeta",
    "k8s.io/apimachinery/pkg/apis/meta/v1.ObjectMeta"]

/-- The serialized name that embedded metadata must have. -/
def requiredName : String :=
  "metadata"

/-- The name of the rule in reports. -/
def metadataRuleName : String :=
  "naming_convention"

/-- The name part of a serialization tag: everything before the first comma. -/
def serializedName (tag : String) : String :=
  String.ofList (tag.toList.takeWhile (· != ','))

namespace Member

/-- Whether the member embeds one of the metadata types. -/
def embedsMetadata (m : Member) : Bool :=
  m.embedded && metadataTypes.any m.type.answersTo

/-- Whether the member may stand: it embeds no metadata, or the `json` entry of its tag has the
    required name. -/
def keepsName (m : Member) : Bool :=
  !m.embedsMetadata ||
    match Tag.lookup m.tags "json" with
    | some tag => serializedName tag == requiredName
    | none => false

end Member

/-- The members of a type that embed metadata under another name. -/
def Decl.misnamedMembers (t : Decl) : List Member :=
  t.members.filter fun m => !m.keepsName

/-- The rule that embedded metadata is serialized under its own field name. It never fails, and it
    passes over everything but structs. -/
def Rule.embeddedMetadata : Rule where
  name := metadataRuleName
  check t :=
    if t.kind = .struct then
      { events := t.misnamedMembers.map fun m =>
          .misnamed metadataRuleName t.name m.name m.type
        result := .ok (t.misnamedMembers.map Member.name) }
    else
      { events := [.skipped t.name t.kind], result := .ok [] }

end TypeLint
