import TypeLint.Meaning

/-!
# The schema in any format

What a value declares, in terms of the slots of its records. The slots of a record that is given by
its fields hold what the fields declare, whatever the format. A format is lawful when it reads back
what it writes, and then it reads back every list of declared types.

## Main statements

- `Format.name?_eq_some_iff`, `Format.member?_eq_some_iff`, `Format.decl?_eq_some_iff` — what the
  slots of a record have to hold
- `Format.givesName_iff`, `Format.givesMember_iff`, `Format.givesType_iff` — what the fields of a
  record have to hold
- `Format.decls?_ofDecls` — a lawful format reads back what it writes
-/

namespace TypeLint

/-- A list is read when each of its items is. -/
theorem mapM_eq_some_iff_forall₂ {α β : Type} {f : α → Option β} {xs : List α} {ys : List β} :
    xs.mapM f = some ys ↔ List.Forall₂ (fun x y => f x = some y) xs ys := by
  induction xs generalizing ys with
  | nil => simp [eq_comm]
  | cons x xs ih =>
    simp only [List.mapM_cons, Option.bind_eq_bind, Option.bind_eq_some_iff,
      List.forall₂_cons_left_iff, ih]
    constructor
    · intro h
      obtain ⟨y, hy, rest, hrest, hys⟩ := h
      exact ⟨y, rest, hy, hrest, (Option.some.inj hys).symm⟩
    · rintro ⟨y, rest, hy, hrest, rfl⟩
      exact ⟨y, hy, rest, hrest, rfl⟩

/-- The slots hold the values of the known fields, each of which is given once or missing. -/
def Fills {V : Type} (fields : List (String × V)) (known : List String)
    (slots : List (Option V)) : Prop :=
  List.Forall₂ (fun f slot => single? f fields = some slot) known slots

theorem mapM_single?_eq_some_iff {V : Type} {fields : List (String × V)} {known : List String}
    {slots : List (Option V)} :
    (known.mapM fun f => single? f fields) = some slots ↔ Fills fields known slots :=
  mapM_eq_some_iff_forall₂

/-- A field that is given stands among the fields. -/
theorem mem_of_gives {V : Type} {fields : List (String × V)} {field : String} {v : V}
    (hgives : Gives fields field v) : (field, v) ∈ fields := by
  obtain ⟨before, after, rfl, -, -⟩ := hgives
  simp

namespace Format

variable {V : Type} (F : Format V)

/-! ## Slots -/

/-- A name is read from two slots, the first of which may be empty. -/
theorem name?_eq_some_iff {v : V} {n : Name} : F.name? v = some n ↔
    ∃ package short, F.slots "Name" ["package", "name"] v = some [package, some short] ∧
      orDefault "" F.text? package = some n.package ∧ F.text? short = some n.short := by
  simp only [name?]
  constructor
  · intro h
    split at h
    · rename_i package short hslots
      simp only [Option.bind_eq_bind, Option.bind_eq_some_iff] at h
      obtain ⟨p, hp, s, hs, hn⟩ := h
      obtain rfl := Option.some.inj hn
      exact ⟨package, short, hslots, hp, hs⟩
    · simp at h
  · intro h
    obtain ⟨package, short, hslots, hp, hs⟩ := h
    simp [hslots, hp, hs]

/-- A member is read from four slots, the last two of which may be empty. -/
theorem member?_eq_some_iff {v : V} {m : Member} : F.member? v = some m ↔
    ∃ name type embedded tags,
      F.slots "Member" ["name", "type_ref", "embedded", "tags"] v =
        some [some name, some type, embedded, tags] ∧
      F.text? name = some m.name ∧ F.name? type = some m.type ∧
      orDefault false F.flag? embedded = some m.embedded ∧
      orDefault "" F.text? tags = some m.tags := by
  simp only [member?]
  constructor
  · intro h
    split at h
    · rename_i name type embedded tags hslots
      simp only [Option.bind_eq_bind, Option.bind_eq_some_iff] at h
      obtain ⟨n, hn, t, ht, e, he, g, hg, hm⟩ := h
      obtain rfl := Option.some.inj hm
      exact ⟨name, type, embedded, tags, hslots, hn, ht, he, hg⟩
    · simp at h
  · rintro ⟨name, type, embedded, tags, hslots, hn, ht, he, hg⟩
    simp [hslots, hn, ht, he, hg]

/-- A type is read from three slots, the last of which may be empty. -/
theorem decl?_eq_some_iff {v : V} {t : Decl} : F.decl? v = some t ↔
    ∃ name kind members,
      F.slots "Type" ["name", "kind", "members"] v = some [some name, some kind, members] ∧
      F.name? name = some t.name ∧ F.kind? kind = some t.kind ∧
      orDefault [] F.members? members = some t.members := by
  simp only [decl?]
  constructor
  · intro h
    split at h
    · rename_i name kind members hslots
      simp only [Option.bind_eq_bind, Option.bind_eq_some_iff] at h
      obtain ⟨n, hn, k, hk, m, hm, ht⟩ := h
      obtain rfl := Option.some.inj ht
      exact ⟨name, kind, members, hslots, hn, hk, hm⟩
    · simp at h
  · intro h
    obtain ⟨name, kind, members, hslots, hn, hk, hm⟩ := h
    simp [hslots, hn, hk, hm]

/-! ## Fields -/

variable {F} {α : Type} {fields : List (String × V)} {field : String} {read : V → Option α}
  {Stands : V → α → Prop}

/-- A field without a default is given once, and its value is read. -/
theorem holds_iff (hread : ∀ v a, read v = some a ↔ Stands v a) {a : α} :
    Holds fields field Stands a ↔
      ∃ v, single? field fields = some (some v) ∧ read v = some a := by
  simp only [Holds, single?_eq_some_some_iff, hread]

/-- A field with a default is given once and read, or missing and the default. -/
theorem holdsOr_iff (hread : ∀ v a, read v = some a ↔ Stands v a) {default a : α} :
    HoldsOr fields field Stands default a ↔
      ∃ slot, single? field fields = some slot ∧ orDefault default read slot = some a := by
  rw [HoldsOr, holds_iff hread]
  constructor
  · rintro (⟨v, hslot, ha⟩ | ⟨hlacks, rfl⟩)
    · exact ⟨some v, hslot, ha⟩
    · exact ⟨none, single?_eq_some_none_iff.2 hlacks, rfl⟩
  · rintro ⟨_ | v, hslot, ha⟩
    · exact .inr ⟨single?_eq_some_none_iff.1 hslot, (Option.some.inj ha).symm⟩
    · exact .inl ⟨v, hslot, ha⟩

variable (F) in

/-- The format reads texts, truth values and lists where they are written like the leaves, and
    nowhere else. -/
structure Reads (L : Leaves V) : Prop where
  text? : ∀ v s, F.text? v = some s ↔ v = L.text s
  flag? : ∀ v b, F.flag? v = some b ↔ v = L.flag b
  items? : ∀ v items, F.items? v = some items ↔ v = L.list items

variable {L : Leaves V} {DeclaresName : V → Name → Prop} {DeclaresKind : V → Kind → Prop}
  {DeclaresMember : V → Member → Prop} {DeclaresType : V → Decl → Prop}

/-- A list is read as what its items declare. -/
theorem each_eq_some_iff (hF : F.Reads L) (hread : ∀ v a, read v = some a ↔ Stands v a) {v : V}
    {as : List α} : ((F.items? v).bind fun items => items.mapM read) = some as ↔
      L.DeclaresEach Stands v as := by
  simp only [Option.bind_eq_some_iff, mapM_eq_some_iff_forall₂, hF.items?, hread,
    Leaves.DeclaresEach]

/-- A list is read as the members that its items declare. -/
theorem members?_eq_some_iff (hF : F.Reads L)
    (hmember : ∀ v m, F.member? v = some m ↔ DeclaresMember v m) (v : V) (members : List Member) :
    F.members? v = some members ↔ L.DeclaresEach DeclaresMember v members :=
  each_eq_some_iff hF hmember

/-- A list is read as the types that its items declare. -/
theorem decls?_eq_some_iff (hF : F.Reads L)
    (hdecl : ∀ v t, F.decl? v = some t ↔ DeclaresType v t) {v : V} {types : List Decl} :
    F.decls? v = some types ↔ L.DeclaresEach DeclaresType v types :=
  each_eq_some_iff hF hdecl

/-- The fields of a name fill its slots. -/
theorem givesName_iff (hF : F.Reads L) {n : Name} : L.GivesName fields n ↔
    ∃ package short, Fills fields ["package", "name"] [package, some short] ∧
      orDefault "" F.text? package = some n.package ∧ F.text? short = some n.short := by
  constructor
  · rintro ⟨hpackage, hshort⟩
    obtain ⟨package, hp, hpackage⟩ := (holdsOr_iff hF.text?).1 hpackage
    obtain ⟨short, hs, hshort⟩ := (holds_iff hF.text?).1 hshort
    exact ⟨package, short, by simp [Fills, hp, hs], hpackage, hshort⟩
  · intro h
    obtain ⟨package, short, hfills, hpackage, hshort⟩ := h
    simp only [Fills, List.forall₂_cons] at hfills
    obtain ⟨hp, hs, -⟩ := hfills
    exact ⟨(holdsOr_iff hF.text?).2 ⟨_, hp, hpackage⟩, (holds_iff hF.text?).2 ⟨_, hs, hshort⟩⟩

/-- The fields of a member fill its slots. -/
theorem givesMember_iff (hF : F.Reads L)
    (hname : ∀ v n, F.name? v = some n ↔ DeclaresName v n) {m : Member} :
    L.GivesMember DeclaresName fields m ↔ ∃ name type embedded tags,
      Fills fields ["name", "type_ref", "embedded", "tags"]
        [some name, some type, embedded, tags] ∧
      F.text? name = some m.name ∧ F.name? type = some m.type ∧
      orDefault false F.flag? embedded = some m.embedded ∧
      orDefault "" F.text? tags = some m.tags := by
  constructor
  · rintro ⟨hown, htype, hembedded, htags⟩
    obtain ⟨name, hn, hown⟩ := (holds_iff hF.text?).1 hown
    obtain ⟨type, ht, htype⟩ := (holds_iff hname).1 htype
    obtain ⟨embedded, he, hembedded⟩ := (holdsOr_iff hF.flag?).1 hembedded
    obtain ⟨tags, hg, htags⟩ := (holdsOr_iff hF.text?).1 htags
    exact ⟨name, type, embedded, tags, by simp [Fills, hn, ht, he, hg], hown, htype, hembedded,
      htags⟩
  · rintro ⟨name, type, embedded, tags, hfills, hown, htype, hembedded, htags⟩
    simp only [Fills, List.forall₂_cons] at hfills
    obtain ⟨hn, ht, he, hg, -⟩ := hfills
    exact ⟨(holds_iff hF.text?).2 ⟨_, hn, hown⟩, (holds_iff hname).2 ⟨_, ht, htype⟩,
      (holdsOr_iff hF.flag?).2 ⟨_, he, hembedded⟩, (holdsOr_iff hF.text?).2 ⟨_, hg, htags⟩⟩

/-- The fields of a type fill its slots. -/
theorem givesType_iff (hF : F.Reads L) (hname : ∀ v n, F.name? v = some n ↔ DeclaresName v n)
    (hkind : ∀ v k, F.kind? v = some k ↔ DeclaresKind v k)
    (hmember : ∀ v m, F.member? v = some m ↔ DeclaresMember v m) {t : Decl} :
    L.GivesType DeclaresName DeclaresKind DeclaresMember fields t ↔ ∃ name kind members,
      Fills fields ["name", "kind", "members"] [some name, some kind, members] ∧
      F.name? name = some t.name ∧ F.kind? kind = some t.kind ∧
      orDefault [] F.members? members = some t.members := by
  have hmembers := members?_eq_some_iff hF hmember
  constructor
  · rintro ⟨hown, hlabel, hall⟩
    obtain ⟨name, hn, hown⟩ := (holds_iff hname).1 hown
    obtain ⟨kind, hk, hlabel⟩ := (holds_iff hkind).1 hlabel
    obtain ⟨members, hm, hall⟩ := (holdsOr_iff hmembers).1 hall
    exact ⟨name, kind, members, by simp [Fills, hn, hk, hm], hown, hlabel, hall⟩
  · intro h
    obtain ⟨name, kind, members, hfills, hown, hlabel, hall⟩ := h
    simp only [Fills, List.forall₂_cons] at hfills
    obtain ⟨hn, hk, hm, -⟩ := hfills
    exact ⟨(holds_iff hname).2 ⟨_, hn, hown⟩, (holds_iff hkind).2 ⟨_, hk, hlabel⟩,
      (holdsOr_iff hmembers).2 ⟨_, hm, hall⟩⟩

/-! ## Lawful formats -/

variable (F) in

/-- The format reads back the records, lists and leaves that it writes. -/
structure Lawful : Prop where
  slots_ofFields : ∀ name fields entries,
    F.slots name fields (F.ofFields entries) = fields.mapM fun f => single? f entries
  text?_ofText : ∀ s, F.text? (F.ofText s) = some s
  flag?_ofFlag : ∀ b, F.flag? (F.ofFlag b) = some b
  kind?_ofKind : ∀ k, F.kind? (F.ofKind k) = some k
  items?_ofItems : ∀ items, F.items? (F.ofItems items) = some items

theorem name?_ofName (hF : F.Lawful) (n : Name) : F.name? (F.ofName n) = some n := by
  rw [name?_eq_some_iff]
  refine ⟨some (F.ofText n.package), F.ofText n.short, ?_, hF.text?_ofText _, hF.text?_ofText _⟩
  rw [ofName, hF.slots_ofFields]
  simp [single?]

theorem member?_ofMember (hF : F.Lawful) (m : Member) : F.member? (F.ofMember m) = some m := by
  rw [member?_eq_some_iff]
  refine ⟨F.ofText m.name, F.ofName m.type, some (F.ofFlag m.embedded), some (F.ofText m.tags), ?_,
    hF.text?_ofText _, name?_ofName hF _, hF.flag?_ofFlag _, hF.text?_ofText _⟩
  rw [ofMember, hF.slots_ofFields]
  simp [single?]

/-- A list is read back when its items are. -/
theorem each_ofItems (hF : F.Lawful) {write : α → V} (hread : ∀ a, read (write a) = some a)
    (as : List α) :
    ((F.items? (F.ofItems (as.map write))).bind fun items => items.mapM read) = some as := by
  rw [hF.items?_ofItems, Option.bind_some, mapM_eq_some_iff_forall₂]
  simp [List.forall₂_map_left_iff, hread, List.forall₂_same]

/-- A declared type is read back. -/
theorem decl?_ofDecl (hF : F.Lawful) (t : Decl) : F.decl? (F.ofDecl t) = some t := by
  rw [decl?_eq_some_iff]
  refine ⟨F.ofName t.name, F.ofKind t.kind, some (F.ofItems (t.members.map F.ofMember)), ?_,
    name?_ofName hF _, hF.kind?_ofKind _, each_ofItems hF (member?_ofMember hF) _⟩
  rw [ofDecl, hF.slots_ofFields]
  simp [single?]

/-- A lawful format reads back what it writes. -/
theorem decls?_ofDecls (hF : F.Lawful) (types : List Decl) :
    F.decls? (F.ofDecls types) = some types :=
  each_ofItems hF (decl?_ofDecl hF) types

end Format

end TypeLint
