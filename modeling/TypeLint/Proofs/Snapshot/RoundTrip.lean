import TypeLint.Proofs.Snapshot.Layout
import TypeLint.Proofs.Snapshot.Outline

/-!
# A written snapshot is read back

Every universe is written as a value that spells it, and that value does not nest too deep. So the
universe is read back from its snapshot, whichever characters are written by their number.
-/

namespace TypeLint.Snapshot

open Text

/-! ## The values of declarations -/

/-- The labels of kinds are plain words. -/
theorem isPlainWord_label (k : Kind) : IsPlainWord k.label := by
  cases k <;> exact ⟨by decide, by decide⟩

theorem areWritable_map {α : Type} {write : α → Value} (hwrite : ∀ a, IsWritable (write a))
    (as : List α) : AreWritable (as.map write) := by
  induction as with
  | nil => exact .nil
  | cons a as ih => exact .cons (hwrite a) ih

theorem isWritable_ofName (n : Name) : IsWritable (format.ofName n) := by
  exact .record (by simp) (.cons (by decide) .text (.cons (by decide) .text .nil))

theorem isWritable_ofMember (m : Member) : IsWritable (format.ofMember m) := by
  refine .record (by simp)
    (.cons ?_ .text (.cons ?_ (isWritable_ofName _) (.cons ?_ .bool (.cons ?_ .text .nil))))
  all_goals decide

theorem isWritable_ofDecl (t : Decl) : IsWritable (format.ofDecl t) := by
  refine .record (by simp) (.cons ?_ (isWritable_ofName _)
    (.cons ?_ (.word (isPlainWord_label t.kind))
      (.cons ?_ (.list (areWritable_map isWritable_ofMember _)) .nil)))
  all_goals decide

/-- What is written for declared types can be laid out. -/
theorem isWritable_ofDecls (types : List Decl) : IsWritable (format.ofDecls types) :=
  .list (areWritable_map isWritable_ofDecl types)

/-! ## Depth -/

theorem depth_ofName (n : Name) : (format.ofName n).depth = 2 := by
  simp [Format.ofName, format, Value.depth, Value.depthOfFields]

theorem depth_ofMember (m : Member) : (format.ofMember m).depth = 4 := by
  have hname := depth_ofName m.type
  simp only [Format.ofMember]
  generalize format.ofName m.type = v at hname
  simp [format, Value.depth, Value.depthOfFields, hname]

theorem depth_ofDecl_le (t : Decl) : (format.ofDecl t).depth ≤ 8 := by
  have hname := depth_ofName t.name
  have hmembers : (Value.list (t.members.map format.ofMember)).depth ≤ 6 := by
    refine depth_list_le fun v hv => ?_
    obtain ⟨m, -, rfl⟩ := List.mem_map.1 hv
    exact Nat.le_of_eq (depth_ofMember m)
  simp only [Format.ofDecl]
  generalize format.ofName t.name = v at hname
  generalize t.members.map format.ofMember = items at hmembers
  simp only [format, Value.depth, Value.depthOfFields, hname] at hmembers ⊢
  omega

/-- What is written for declared types does not nest too deep. -/
theorem depth_ofDecls_le (types : List Decl) : (format.ofDecls types).depth ≤ Value.depthLimit := by
  have hdepth : (Value.list (types.map format.ofDecl)).depth ≤ 10 := by
    refine depth_list_le fun v hv => ?_
    obtain ⟨t, -, rfl⟩ := List.mem_map.1 hv
    exact depth_ofDecl_le t
  exact Nat.le_trans hdepth (by decide)

/-! ## The round trip -/

/-- A universe laid out with any blanks is read back. -/
theorem ofSnapshot?_of_laysOut {numbered : Char → Bool} {u : Universe} {text : List Char}
    (hlays : LaysOut numbered ((format.ofDecls u.types).marks 0) text) :
    Universe.ofSnapshot? (utf8 (String.ofList text)) = some u := by
  have hspells := spellsFile_of_laysOut (isWritable_ofDecls u.types) hlays
  rw [ofSnapshot?_of_spells hspells (depth_ofDecls_le u.types),
    Format.decls?_ofDecls lawful_format]
  rfl

/-- The snapshot of a universe holds the universe, whatever characters are written by their
    number. -/
theorem snapshot_round_trip (numbered : Char → Bool) (u : Universe) :
    Universe.ofSnapshot? (utf8 (u.toSnapshotWith numbered)) = some u := by
  have hspells : SpellsFile (utf8 (u.toSnapshotWith numbered)) (format.ofDecls u.types) :=
    spellsFile_of_laysOut (isWritable_ofDecls u.types) (laysOut_spelling numbered _)
  rw [ofSnapshot?_of_spells hspells (depth_ofDecls_le u.types),
    Format.decls?_ofDecls lawful_format]
  rfl

end TypeLint.Snapshot
