import TypeLint.Proofs.Snapshot.Schema
import TypeLint.Snapshot.Outline

/-!
# Slips are the only faults of an outline

A value with the outline of a list of types declares types unless there is a misfit somewhere in it,
and never both. It does not nest deep either.

## Main statements

- `declaresAll_or_faulty` — an outline declares types, or is faulty
- `not_faulty_of_declaresAll` — and not both
- `depth_le_of_outlinesAll` — how deep an outline nests
-/

namespace TypeLint.Snapshot

/-! ## Fields of one name -/

variable {fields : List (String × Value)} {f : String}

theorem not_lacks_of_gives {w : Value} (hgives : Gives fields f w) : ¬ Lacks fields f := by
  obtain ⟨before, after, rfl, -, -⟩ := hgives
  exact fun hlacks => hlacks w (by simp)

/-- A field that is given once has no other value. -/
theorem eq_of_gives_of_mem {v w : Value} (hgives : Gives fields f w) (hmem : (f, v) ∈ fields) :
    v = w := by
  obtain ⟨before, after, rfl, hfront, hback⟩ := hgives
  rcases List.mem_append.1 hmem with hmem | hmem
  · exact absurd hmem (hfront v)
  · rcases List.mem_cons.1 hmem with heq | hmem
    · exact (Prod.mk.inj heq).2
    · exact absurd hmem (hback v)

/-- A field is missing, or given once, or given more often. -/
theorem lacks_or_gives_or_repeated (fields : List (String × Value)) (f : String) :
    Lacks fields f ∨ (∃ w, Gives fields f w) ∨ IsRepeated fields f := by
  by_cases hlacks : Lacks fields f
  · exact .inl hlacks
  · obtain ⟨v, hv⟩ : ∃ v, (f, v) ∈ fields := by simpa [Lacks] using hlacks
    obtain ⟨before, after, rfl⟩ := List.append_of_mem hv
    -- A second value may stand after the one that was found, or before it.
    right
    by_cases hfront : Lacks before f
    · by_cases hback : Lacks after f
      · exact .inl ⟨v, before, after, rfl, hfront, hback⟩
      · obtain ⟨w, hw⟩ : ∃ w, (f, w) ∈ after := by simpa [Lacks] using hback
        obtain ⟨between, rest, rfl⟩ := List.append_of_mem hw
        exact .inr ⟨before, between, rest, v, w, by simp⟩
    · obtain ⟨w, hw⟩ : ∃ w, (f, w) ∈ before := by simpa [Lacks] using hfront
      obtain ⟨first, between, rfl⟩ := List.append_of_mem hw
      exact .inr ⟨first, between, after, w, v, by simp⟩

/-- A field that is given twice is not missing. -/
theorem not_lacks_of_repeated (hrep : IsRepeated fields f) : ¬ Lacks fields f := by
  obtain ⟨before, between, after, v, w, rfl⟩ := hrep
  exact fun hlacks => hlacks v (by simp)

theorem countP_eq_zero_of_lacks (hlacks : Lacks fields f) : fields.countP (·.1 == f) = 0 := by
  rw [List.countP_eq_length_filter, filter_eq_nil_iff_lacks.2 hlacks, List.length_nil]

/-- A field that is given twice is not given once. -/
theorem not_gives_of_repeated (hrep : IsRepeated fields f) (w : Value) : ¬ Gives fields f w := by
  obtain ⟨before, between, after, v, u, rfl⟩ := hrep
  intro h
  obtain ⟨front, back, hsplit, hfront, hback⟩ := h
  -- The two splits disagree on how often the field is given.
  have hcount := congrArg (List.countP (·.1 == f)) hsplit
  simp only [List.countP_append, List.countP_cons, beq_self_eq_true, ↓reduceIte,
    countP_eq_zero_of_lacks hfront, countP_eq_zero_of_lacks hback] at hcount
  omega

/-! ## Records of a shape -/

/-- A value is a record in one way only. -/
theorem IsFields.unique {v : Value} {own own' : Option String}
    {fields' : List (String × Value)} (hfields : IsFields v own fields)
    (hfields' : IsFields v own' fields') : own = own' ∧ fields = fields' := by
  cases hfields <;> cases hfields' <;> exact ⟨rfl, rfl⟩

/-- A record of a name has that name in front or none. -/
theorem isFields_of_isRecord {name : String} {v : Value} (hrecord : IsRecord name v fields) :
    ∃ own, IsFields v own fields ∧ ∀ n, own = some n → n = name := by
  rcases hrecord with rfl | rfl
  · exact ⟨none, .record, by simp⟩
  · exact ⟨some name, .record, by simp [eq_comm]⟩

/-- A record that fits the shape: it has the right name or none, no field twice, and every field
    without a default. -/
structure Fits (shape : Shape) (v : Value) (fields : List (String × Value)) : Prop where
  isRecord : IsRecord shape.name v fields
  once : ∀ f ∈ shape.fields, Lacks fields f ∨ ∃ w, Gives fields f w
  whole : ∀ f ∈ shape.required, ∃ w, Gives fields f w

/-- What fits a shape is no misfit. -/
theorem Fits.not_isMisfit {shape : Shape} {v : Value} (hfits : Fits shape v fields)
    {own : Option String} {fields' : List (String × Value)} (hfields : IsFields v own fields') :
    ¬ IsMisfit shape own fields' := by
  obtain ⟨own', hown, hname⟩ := isFields_of_isRecord hfits.isRecord
  obtain ⟨rfl, rfl⟩ := hfields.unique hown
  intro hmisfit
  cases hmisfit with
  | name hsome hne => exact hne (hname _ hsome)
  | repeated hf hrep =>
    obtain hlacks | ⟨w, hgives⟩ := hfits.once _ hf
    · exact not_lacks_of_repeated hrep hlacks
    · exact not_gives_of_repeated hrep w hgives
  | missing hf hlacks =>
    obtain ⟨w, hgives⟩ := hfits.whole _ hf
    exact not_lacks_of_gives hgives hlacks

/-- A record of a shape with a field to give is a misfit or fits. -/
theorem isMisfit_or_fits {v : Value} {own : Option String} (hfields : IsFields v own fields)
    (shape : Shape) (hsub : shape.required ⊆ shape.fields) (hf : f ∈ shape.required) :
    IsMisfit shape own fields ∨ Fits shape v fields := by
  by_cases hmisfit : IsMisfit shape own fields
  · exact .inl hmisfit
  · right
    have honce : ∀ g ∈ shape.fields, Lacks fields g ∨ ∃ w, Gives fields g w := by
      intro g hg
      obtain hlacks | hgives | hrep := lacks_or_gives_or_repeated fields g
      · exact .inl hlacks
      · exact .inr hgives
      · exact absurd (.repeated hg hrep) hmisfit
    have hwhole : ∀ g ∈ shape.required, ∃ w, Gives fields g w := fun g hg =>
      (honce g (hsub hg)).resolve_left fun hlacks => hmisfit (.missing hg hlacks)
    refine ⟨?_, honce, hwhole⟩
    cases hfields with
    | record =>
      cases own with
      | none => exact .inl rfl
      | some n =>
        by_cases hn : n = shape.name
        · exact .inr (hn ▸ rfl)
        · exact absurd (.name rfl hn) hmisfit
    | _ =>
      -- Empty parentheses lack the field that has to be given.
      obtain ⟨w, hgives⟩ := hwhole f hf
      exact absurd (mem_of_gives hgives) (by simp)

/-! ## Parts -/

/-- A field that is given at most once stands for something if its values do. -/
theorem exists_holdsOr {α : Type} {Stands : Value → α → Prop} (default : α)
    (honce : Lacks fields f ∨ ∃ w, Gives fields f w)
    (hstands : ∀ w, Gives fields f w → ∃ a, Stands w a) :
    ∃ a, HoldsOr fields f Stands default a := by
  obtain hlacks | ⟨w, hgives⟩ := honce
  · exact ⟨default, .inr ⟨hlacks, rfl⟩⟩
  · obtain ⟨a, ha⟩ := hstands w hgives
    exact ⟨a, .inl ⟨w, hgives, ha⟩⟩

theorem gives_of_holds {α : Type} {Stands : Value → α → Prop} {a : α}
    (hholds : Holds fields f Stands a) : ∃ w, Gives fields f w := by
  obtain ⟨w, hgives, -⟩ := hholds
  exact ⟨w, hgives⟩

/-- A field that stands for something is given at most once. -/
theorem once_of_holdsOr {α : Type} {Stands : Value → α → Prop} {default a : α}
    (hholds : HoldsOr fields f Stands default a) : Lacks fields f ∨ ∃ w, Gives fields f w := by
  obtain hholds | ⟨hlacks, -⟩ := hholds
  · exact .inr (gives_of_holds hholds)
  · exact .inl hlacks

/-- If each item of a list declares something, then the list does. -/
theorem exists_forall₂ {α β : Type} {P : α → β → Prop} {items : List α}
    (hitems : ∀ v ∈ items, ∃ a, P v a) : ∃ as, List.Forall₂ P items as := by
  induction items with
  | nil => exact ⟨[], .nil⟩
  | cons v items ih =>
    obtain ⟨hv, hitems⟩ := List.forall_mem_cons.1 hitems
    obtain ⟨a, ha⟩ := hv
    obtain ⟨as, has⟩ := ih hitems
    exact ⟨a :: as, .cons ha has⟩

/-- Every item of a list with the outline declares something, or one of them is faulty. -/
theorem forall₂_or_exists {α β : Type} {P : α → β → Prop} {Q : α → Prop} {items : List α}
    (hitems : ∀ v ∈ items, (∃ a, P v a) ∨ Q v) :
    (∃ as, List.Forall₂ P items as) ∨ ∃ v ∈ items, Q v := by
  by_cases hfaulty : ∃ v ∈ items, Q v
  · exact .inr hfaulty
  · exact .inl (exists_forall₂ fun v hv =>
      (hitems v hv).resolve_right fun hq => hfaulty ⟨v, hv, hq⟩)

/-- If what declares something is not faulty, no item of a list that does is. -/
theorem not_exists_of_forall₂ {α β : Type} {P : α → β → Prop} {Q : α → Prop} {items : List α}
    {as : List β} (hall : List.Forall₂ P items as) (hnot : ∀ v a, P v a → ¬ Q v) :
    ¬ ∃ v ∈ items, Q v := by
  induction hall with
  | nil => simp
  | cons hv _ ih => simp [hnot _ _ hv, ih]

/-! ## Names -/

/-- The outline of a name declares a name or is faulty. -/
theorem declaresName_or_faulty {v : Value} (houtline : OutlinesName v) :
    (∃ n, DeclaresName v n) ∨ IsFaultyName v := by
  obtain ⟨own, fields, hfields, hsort⟩ := houtline
  obtain hmisfit | hfits := isMisfit_or_fits (f := "name") hfields nameShape
    (by simp [nameShape]) (by simp [nameShape])
  · exact .inr ⟨own, fields, hfields, hmisfit⟩
  · left
    have htext {f : String} (hf : f ∈ nameShape.fields) (w : Value) (hgives : Gives fields f w) :
        ∃ s, w = .text s := (hsort f w (mem_of_gives hgives)).1 hf
    obtain ⟨w, hshort⟩ := hfits.whole "name" (by simp [nameShape])
    obtain ⟨short, rfl⟩ := htext (by simp [nameShape]) w hshort
    obtain ⟨package, hpackage⟩ := exists_holdsOr ""
      (hfits.once "package" (by simp [nameShape])) (htext (by simp [nameShape]))
    exact ⟨⟨package, short⟩, fields, hfits.isRecord, hpackage, _, hshort, rfl⟩

/-- A value that declares a name is not faulty. -/
theorem not_faultyName_of_declares {v : Value} {n : Name} (hdeclares : DeclaresName v n) :
    ¬ IsFaultyName v := by
  rintro ⟨own, fields', hfields, hmisfit⟩
  obtain ⟨fields, hrecord, hgives⟩ := hdeclares
  have hfits : Fits nameShape v fields := by
    refine ⟨hrecord, ?_, ?_⟩
    · simp only [nameShape, List.forall_mem_cons]
      exact ⟨once_of_holdsOr hgives.package, .inr (gives_of_holds hgives.short), by simp⟩
    · simp only [nameShape, List.forall_mem_cons]
      exact ⟨gives_of_holds hgives.short, by simp⟩
  exact hfits.not_isMisfit hfields hmisfit

/-! ## Members -/

/-- The outline of a member declares a member or is faulty. -/
theorem declaresMember_or_faulty {v : Value} (houtline : OutlinesMember v) :
    (∃ m, DeclaresMember v m) ∨ IsFaultyMember v := by
  obtain ⟨own, fields, hfields, hsort⟩ := houtline
  obtain hmisfit | hfits := isMisfit_or_fits (f := "name") hfields memberShape
    (by simp [memberShape]) (by simp [memberShape])
  · exact .inr ⟨own, fields, hfields, .inl hmisfit⟩
  · have hheld {f : String} {w : Value} (hf : f ∈ memberShape.fields) (hgives : Gives fields f w) :
        memberSort f w := (hsort f w (mem_of_gives hgives)).1 hf
    obtain ⟨w, htype⟩ := hfits.whole "type_ref" (by simp [memberShape])
    have houtline : OutlinesName w := by
      simpa [memberSort] using hheld (by simp [memberShape]) htype
    obtain ⟨type, hdeclares⟩ | hfaulty := declaresName_or_faulty houtline
    · left
      obtain ⟨u, hname⟩ := hfits.whole "name" (by simp [memberShape])
      obtain ⟨name, rfl⟩ : ∃ s, u = .text s := by
        simpa [memberSort] using hheld (by simp [memberShape]) hname
      obtain ⟨embedded, hembedded⟩ :
          ∃ b, HoldsOr fields "embedded" (· = leaves.flag ·) false b :=
        exists_holdsOr false (hfits.once "embedded" (by simp [memberShape])) fun u hgives => by
          simpa [memberSort, leaves] using hheld (by simp [memberShape]) hgives
      obtain ⟨tags, htags⟩ : ∃ s, HoldsOr fields "tags" (· = leaves.text ·) "" s :=
        exists_holdsOr "" (hfits.once "tags" (by simp [memberShape])) fun u hgives => by
          simpa [memberSort, leaves] using hheld (by simp [memberShape]) hgives
      exact ⟨⟨name, type, embedded, tags⟩, fields, hfits.isRecord, ⟨_, hname, rfl⟩,
        ⟨w, htype, hdeclares⟩, hembedded, htags⟩
    · exact .inr ⟨own, fields, hfields, .inr ⟨w, mem_of_gives htype, hfaulty⟩⟩

/-- A value that declares a member is not faulty. -/
theorem not_faultyMember_of_declares {v : Value} {m : Member} (hdeclares : DeclaresMember v m) :
    ¬ IsFaultyMember v := by
  intro h
  obtain ⟨own, fields', hfields, hfault⟩ := h
  obtain ⟨fields, hrecord, hgives⟩ := hdeclares
  rcases hfault with hmisfit | ⟨u, hmem, hfaulty⟩
  · have hfits : Fits memberShape v fields := by
      refine ⟨hrecord, ?_, ?_⟩
      · simp only [memberShape, List.forall_mem_cons]
        exact ⟨.inr (gives_of_holds hgives.name), .inr (gives_of_holds hgives.type),
          once_of_holdsOr hgives.embedded, once_of_holdsOr hgives.tags, by simp⟩
      · simp only [memberShape, List.forall_mem_cons]
        exact ⟨gives_of_holds hgives.name, gives_of_holds hgives.type, by simp⟩
    exact hfits.not_isMisfit hfields hmisfit
  · obtain ⟨own', hown, -⟩ := isFields_of_isRecord hrecord
    obtain ⟨-, rfl⟩ := hfields.unique hown
    obtain ⟨w, htype, hname⟩ := hgives.type
    obtain rfl := eq_of_gives_of_mem htype hmem
    exact not_faultyName_of_declares hname hfaulty

/-! ## Types -/

/-- The outline of a type declares a type or is faulty. -/
theorem declaresType_or_faulty {v : Value} (houtline : OutlinesType v) :
    (∃ t, DeclaresType v t) ∨ IsFaultyType v := by
  obtain ⟨own, fields, hfields, hsort⟩ := houtline
  obtain hmisfit | hfits := isMisfit_or_fits (f := "name") hfields typeShape
    (by simp [typeShape]) (by simp [typeShape])
  · exact .inr ⟨own, fields, hfields, .inl hmisfit⟩
  · have hheld {f : String} {w : Value} (hf : f ∈ typeShape.fields) (hgives : Gives fields f w) :
        typeSort f w := (hsort f w (mem_of_gives hgives)).1 hf
    obtain ⟨w, hname⟩ := hfits.whole "name" (by simp [typeShape])
    have hnamed : OutlinesName w := by
      simpa [typeSort] using hheld (by simp [typeShape]) hname
    obtain ⟨u, hkind⟩ := hfits.whole "kind" (by simp [typeShape])
    obtain ⟨kind, rfl⟩ : ∃ k : Kind, u = .word k.label := by
      simpa [typeSort] using hheld (by simp [typeShape]) hkind
    -- The list of members is missing, or declares members, or has a faulty one in it.
    have hmembers : (∃ members, HoldsOr fields "members" (leaves.DeclaresEach DeclaresMember) []
        members) ∨ ∃ items, ("members", .list items) ∈ fields ∧ ∃ m ∈ items, IsFaultyMember m := by
      obtain hlacks | ⟨u, hgives⟩ := hfits.once "members" (by simp [typeShape])
      · exact .inl ⟨[], .inr ⟨hlacks, rfl⟩⟩
      · obtain ⟨items, rfl, hitems⟩ : ∃ items, u = .list items ∧ ∀ m ∈ items, OutlinesMember m := by
          simpa [typeSort] using hheld (by simp [typeShape]) hgives
        obtain ⟨members, hall⟩ | hfaulty :=
          forall₂_or_exists fun m hm => declaresMember_or_faulty (hitems m hm)
        · exact .inl ⟨members, .inl ⟨_, hgives, items, rfl, hall⟩⟩
        · exact .inr ⟨items, mem_of_gives hgives, hfaulty⟩
    obtain ⟨name, hdeclares⟩ | hfaulty := declaresName_or_faulty hnamed
    · obtain ⟨members, hall⟩ | hfaulty := hmembers
      · exact .inl ⟨⟨name, kind, members⟩, fields, hfits.isRecord, ⟨w, hname, hdeclares⟩,
          ⟨_, hkind, rfl⟩, hall⟩
      · exact .inr ⟨own, fields, hfields, .inr (.inr hfaulty)⟩
    · exact .inr ⟨own, fields, hfields, .inr (.inl ⟨w, mem_of_gives hname, hfaulty⟩)⟩

/-- A value that declares a type is not faulty. -/
theorem not_faultyType_of_declares {v : Value} {t : Decl} (hdeclares : DeclaresType v t) :
    ¬ IsFaultyType v := by
  rintro ⟨own, fields', hfields, hfault⟩
  obtain ⟨fields, hrecord, hgives⟩ := hdeclares
  obtain ⟨own', hown, -⟩ := isFields_of_isRecord hrecord
  obtain ⟨-, rfl⟩ := hfields.unique hown
  rcases hfault with hmisfit | ⟨u, hmem, hfaulty⟩ | ⟨items', hmem, hfaulty⟩
  · have hfits : Fits typeShape v fields' := by
      refine ⟨hrecord, ?_, ?_⟩
      · simp only [typeShape, List.forall_mem_cons]
        exact ⟨.inr (gives_of_holds hgives.name), .inr (gives_of_holds hgives.kind),
          once_of_holdsOr hgives.members, by simp⟩
      · simp only [typeShape, List.forall_mem_cons]
        exact ⟨gives_of_holds hgives.name, gives_of_holds hgives.kind, by simp⟩
    exact hfits.not_isMisfit hfields hmisfit
  · obtain ⟨w, hown, hname⟩ := hgives.name
    obtain rfl := eq_of_gives_of_mem hown hmem
    exact not_faultyName_of_declares hname hfaulty
  · obtain ⟨w, hlist, hall⟩ | ⟨hlacks, -⟩ := hgives.members
    · obtain rfl := eq_of_gives_of_mem hlist hmem
      obtain ⟨items, heq, hitems⟩ := hall
      obtain rfl : items' = items := Value.list.inj heq
      exact not_exists_of_forall₂ hitems (fun _ _ => not_faultyMember_of_declares) hfaulty
    · exact hlacks _ hmem

/-! ## Lists of types -/

/-- The outline of a list of types declares types or is faulty. -/
theorem declaresAll_or_faulty {v : Value} (houtline : OutlinesAll v) :
    (∃ types, DeclaresAll v types) ∨ IsFaulty v := by
  obtain ⟨items, rfl, hitems⟩ := houtline
  obtain ⟨types, hall⟩ | hfaulty :=
    forall₂_or_exists fun t ht => declaresType_or_faulty (hitems t ht)
  · exact .inl ⟨types, items, rfl, hall⟩
  · exact .inr ⟨items, rfl, hfaulty⟩

/-- A value that declares types is not faulty. -/
theorem not_faulty_of_declaresAll {v : Value} {types : List Decl}
    (hdeclares : DeclaresAll v types) : ¬ IsFaulty v := by
  obtain ⟨items, rfl, htypes⟩ := hdeclares
  intro h
  obtain ⟨items', heq, hfaulty⟩ := h
  obtain rfl : items = items' := Value.list.inj heq
  exact not_exists_of_forall₂ htypes (fun _ _ => not_faultyType_of_declares) hfaulty

/-- What is read from a value with the outline fails exactly where it is faulty. -/
theorem decls?_eq_none_iff {v : Value} (houtline : OutlinesAll v) :
    format.decls? v = none ↔ IsFaulty v := by
  rw [Option.eq_none_iff_forall_ne_some]
  constructor
  · intro hnone
    refine (declaresAll_or_faulty houtline).resolve_left ?_
    rintro ⟨types, hdeclares⟩
    exact hnone types (decls?_eq_some_iff.2 hdeclares)
  · intro hfaulty types hsome
    exact not_faulty_of_declaresAll (decls?_eq_some_iff.1 hsome) hfaulty

/-! ## Depth -/

theorem depthOfItems_le {items : List Value} {n : Nat} (hitems : ∀ v ∈ items, v.depth ≤ n) :
    Value.depthOfItems items ≤ n + 1 := by
  induction items with
  | nil => exact Nat.zero_le _
  | cons v items ih =>
    obtain ⟨hv, hitems⟩ := List.forall_mem_cons.1 hitems
    have := ih hitems
    simp only [Value.depthOfItems]
    omega

theorem depthOfFields_le {fields : List (String × Value)} {n : Nat}
    (hfields : ∀ f w, (f, w) ∈ fields → w.depth ≤ n) : Value.depthOfFields fields ≤ n + 1 := by
  induction fields with
  | nil => exact Nat.zero_le _
  | cons fw fields ih =>
    have hfirst := hfields fw.1 fw.2 (by simp)
    have := ih fun f w hmem => hfields f w (by simp [hmem])
    simp only [Value.depthOfFields]
    omega

/-- A list nests two levels deeper than its items at most. -/
theorem depth_list_le {items : List Value} {n : Nat} (hitems : ∀ v ∈ items, v.depth ≤ n) :
    (Value.list items).depth ≤ n + 2 := by
  have := depthOfItems_le hitems
  simp only [Value.depth]
  omega

theorem depth_eq_zero_of_isScalar {v : Value} (hscalar : IsScalar v) : v.depth = 0 := by
  cases hscalar <;> rfl

/-- A flat value nests as deep as a list of scalars at most. -/
theorem depth_le_of_isFlat {v : Value} (hflat : IsFlat v) : v.depth ≤ 2 := by
  cases hflat with
  | scalar hscalar => simp [depth_eq_zero_of_isScalar hscalar]
  | list hitems =>
    exact depth_list_le fun v hv =>
      Nat.le_of_eq (depth_eq_zero_of_isScalar (hitems v hv))

/-- A record nests two levels deeper than its fields, which may all be flat. -/
theorem Outlines.depth_le {shape : Shape} {sort : String → Value → Prop} {v : Value} {n : Nat}
    (houtline : Outlines shape sort v) (hn : 2 ≤ n) (hsort : ∀ f w, sort f w → w.depth ≤ n) :
    v.depth ≤ n + 2 := by
  obtain ⟨own, fields, hfields, hheld⟩ := houtline
  have hdepth : Value.depthOfFields fields ≤ n + 1 := by
    refine depthOfFields_le fun f w hmem => ?_
    by_cases hknown : f ∈ shape.fields
    · exact hsort f w ((hheld f w hmem).1 hknown)
    · exact Nat.le_trans (depth_le_of_isFlat ((hheld f w hmem).2 hknown)) hn
  cases hfields with
  | record =>
    simp only [Value.depth]
    omega
  | _ => simp [Value.depth, Value.depthOfItems]

theorem depth_le_of_outlinesName {v : Value} (houtline : OutlinesName v) : v.depth ≤ 4 := by
  refine houtline.depth_le (Nat.le_refl 2) ?_
  rintro f w ⟨s, rfl⟩
  exact Nat.zero_le _

theorem depth_le_of_outlinesMember {v : Value} (houtline : OutlinesMember v) : v.depth ≤ 6 := by
  refine houtline.depth_le (n := 4) (by omega) fun f w hsort => ?_
  simp only [memberSort] at hsort
  split at hsort
  · exact depth_le_of_outlinesName hsort
  · split at hsort
    · obtain ⟨b, rfl⟩ := hsort
      exact Nat.zero_le _
    · obtain ⟨s, rfl⟩ := hsort
      exact Nat.zero_le _

theorem depth_le_of_outlinesType {v : Value} (houtline : OutlinesType v) : v.depth ≤ 10 := by
  refine houtline.depth_le (n := 8) (by omega) fun f w hsort => ?_
  simp only [typeSort] at hsort
  split at hsort
  · exact Nat.le_trans (depth_le_of_outlinesName hsort) (by omega)
  · split at hsort
    · obtain ⟨k, rfl⟩ := hsort
      exact Nat.zero_le _
    · obtain ⟨items, rfl, hitems⟩ := hsort
      exact depth_list_le fun m hm => depth_le_of_outlinesMember (hitems m hm)

/-- The outline of a list of types never nests too deep. -/
theorem depth_le_of_outlinesAll {v : Value} (houtline : OutlinesAll v) : v.depth ≤ 12 := by
  obtain ⟨items, rfl, hitems⟩ := houtline
  exact depth_list_le fun t ht => depth_le_of_outlinesType (hitems t ht)

end TypeLint.Snapshot
