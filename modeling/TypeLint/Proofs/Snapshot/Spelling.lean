import TypeLint.Proofs.Snapshot.Outline

/-!
# The spelling of a snapshot does not matter

Two files that spell the same types hold the same universe, whatever the order of fields, the blanks
and comments, the escapes and the raw words. A file with a slip in it holds none.
-/

namespace TypeLint.Snapshot

open Text

/-- A file that spells a value with the outline of a list of types holds exactly the types that the
    value declares, and it is rejected exactly when there is a misfit in it. -/
theorem snapshot_of_spelling {file : List UInt8} {v : Value} (hspells : SpellsFile file v)
    (houtline : OutlinesAll v) :
    (∀ types, Universe.ofSnapshot? file = some ⟨types⟩ ↔ DeclaresAll v types) ∧
      (Universe.ofSnapshot? file = none ↔ IsFaulty v) := by
  have hdepth : v.depth ≤ Value.depthLimit :=
    Nat.le_trans (depth_le_of_outlinesAll houtline) (by decide)
  rw [ofSnapshot?_of_spells hspells hdepth]
  constructor
  · intro types
    rw [← decls?_eq_some_iff]
    constructor
    · intro hsome
      obtain ⟨types', hdecls, heq⟩ := Option.map_eq_some_iff.1 hsome
      rwa [← Universe.mk.inj heq]
    · intro hdecls
      rw [hdecls, Option.map_some]
  · rw [Option.map_eq_none_iff, decls?_eq_none_iff houtline]

/-- A map whose kind comes first, as a raw word with a comment behind it, and is followed by a field
    that no type has. -/
theorem snapshot_of_spelling_raw_kind :
    ∃ v, SpellsFile (utf8 "[(kind:r#Map/*a*/,n:1,name:(name:\"W\"))]") v ∧ OutlinesAll v ∧
      Universe.ofSnapshot? (utf8 "[(kind:r#Map/*a*/,n:1,name:(name:\"W\"))]") =
        some ⟨[.ofKind ⟨"", "W"⟩ .map]⟩ := by
  let v : Value := .list [.record none [("kind", .word "Map"), ("n", .number "1"),
    ("name", .record none [("name", .text "W")])]]
  have hword (name : String) (h : IsWord name) : SpellsToken (utf8 name) (.word name false) :=
    .word h
  have hfields : SpellsFields
      [.word "kind" false, .colon, .word "Map" true, .comma, .word "n" false, .colon, .number "1",
        .comma, .word "name" false, .colon, .openRound, .word "name" false, .colon, .text "W",
        .closeRound]
      [("kind", .word "Map"), ("n", .number "1"), ("name", .record none [("name", .text "W")])] :=
    .more (.word (.inl rfl)) (.more .number (.last (.record .none (.last .text) (.inl rfl))))
  have hvalue : SpellsValue _ v := .list (.last (.record .none hfields (.inl rfl))) (.inl rfl)
  have htext : SpellsText ['"', 'W', '"'] "W".toList :=
    .quoted [(['W'], 'W')] (by simp [SpellsCharacter.plain])
  have hkind : SpellsToken (utf8 ("r#" ++ "Map")) (.word "Map" true) :=
    .rawWord ⟨by decide, by simpa using by decide⟩
  have hdecimal : IsDecimal ['1'] :=
    ⟨['1'], [], [], rfl, .inl rfl, .inl ⟨rfl, by simp, by simp⟩⟩
  have hnumber : SpellsToken (utf8 "1") (.number "1") := .number (.decimal (.inl rfl) hdecimal)
  have hcomment : IsBlockRest ('a'.toUInt8 :: utf8 "*/") := .byte (by decide) (by decide) .close
  obtain ⟨file, hfile, htokens⟩ :
      ∃ file, file = utf8 "[(kind:r#Map/*a*/,n:1,name:(name:\"W\"))]" ∧ SpellsTokens file _ :=
    ⟨_, by decide, .cons .nil .openSquare trivial <| .cons .nil .openRound (by decide) <|
      .cons .nil (hword "kind" (by decide)) (by decide) <| .cons .nil .colon trivial <|
      .cons .nil hkind (by decide) <| .cons (.block hcomment .nil) .comma trivial <|
      .cons .nil (hword "n" (by decide)) (by decide) <| .cons .nil .colon trivial <|
      .cons .nil hnumber (by decide) <| .cons .nil .comma trivial <|
      .cons .nil (hword "name" (by decide)) (by decide) <| .cons .nil .colon trivial <|
      .cons .nil .openRound (by decide) <|
      .cons .nil (hword "name" (by decide)) (by decide) <| .cons .nil .colon trivial <|
      .cons .nil (.text htext) trivial <| .cons .nil .closeRound trivial <|
      .cons .nil .closeRound trivial <| .cons .nil .closeSquare trivial <| .nil (.inl .nil)⟩
  have hspells : SpellsFile (utf8 "[(kind:r#Map/*a*/,n:1,name:(name:\"W\"))]") v :=
    ⟨[], _, hfile ▸ htokens, .none, hvalue⟩
  have hname : OutlinesName (.record none [("name", .text "W")]) :=
    ⟨_, _, .record, by simp [nameShape]⟩
  have houtline : OutlinesAll v := by
    refine ⟨_, rfl, List.forall_mem_singleton.2 ⟨_, _, .record, fun f w hmem => ?_⟩⟩
    simp only [List.mem_cons, Prod.mk.injEq, List.not_mem_nil, or_false] at hmem
    rcases hmem with ⟨rfl, rfl⟩ | ⟨rfl, rfl⟩ | ⟨rfl, rfl⟩
    · exact ⟨fun _ => ⟨.map, rfl⟩, by simp [typeShape]⟩
    · exact ⟨by simp [typeShape], fun _ => .scalar .number⟩
    · exact ⟨fun _ => hname, by simp [typeShape]⟩
  refine ⟨v, hspells, houtline, ?_⟩
  exact ((snapshot_of_spelling hspells houtline).1 _).2 (decls?_eq_some_iff.1 rfl)

end TypeLint.Snapshot
