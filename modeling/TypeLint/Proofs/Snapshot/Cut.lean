import TypeLint.Proofs.Snapshot.Balance
import TypeLint.Proofs.Snapshot.Prefix
import TypeLint.Proofs.Snapshot.RoundTrip
import TypeLint.Session

/-!
# A snapshot that is cut short

What is left of a snapshot when its end is missing holds no universe. It lacks the bracket that
closes the list of types, wherever it is cut: inside a string, an escape or a character, too.
-/

namespace TypeLint.Snapshot

open Text

/-! ## Tokens that are cut short -/

theorem Token.RunsOn.turn_nonneg {t : Token} (hruns : t.RunsOn) : 0 ≤ t.turn := by
  cases t with
  | openRound | word | number => simp [Token.turn]
  | _ => exact absurd hruns id

/-- A cut does not hide a closing bracket: tokens that are cut are open as far as some of the whole
    are. -/
theorem Cuts.exists_prefix {front whole : List Token} (hcuts : Cuts front whole) :
    ∃ seen, seen <+: whole ∧ balance seen ≤ balance front := by
  induction hcuts with
  | nil => exact ⟨[], List.nil_prefix, Int.le_refl 0⟩
  | @cons t _ _ _ ih =>
    obtain ⟨seen, hseen, hle⟩ := ih
    refine ⟨t :: seen, List.cons_prefix_cons.2 ⟨rfl, hseen⟩, ?_⟩
    rw [balance_cons, balance_cons]
    omega
  | last hruns =>
    refine ⟨[], List.nil_prefix, ?_⟩
    have := hruns.turn_nonneg
    rw [balance_cons, balance_nil]
    omega

/-- A list without its closing bracket spells nothing, wherever it is cut. -/
theorem ofTokens?_of_cuts {tokens inner : List Token} (hinner : Nested inner)
    (hcuts : Cuts tokens (.openSquare :: inner)) (bare : Bool) :
    Value.ofTokens? bare tokens = none := by
  cases hcuts with
  | nil => rfl
  | cons hcuts =>
    obtain ⟨seen, hseen, hle⟩ := hcuts.exists_prefix
    have hopen := hinner.balance_front seen hseen
    refine ofTokens?_of_unbalanced ?_ bare
    rw [balance_cons, Token.turn]
    omega
  | last _ hgrown => exact absurd hgrown id

/-- Bytes whose tokens are cut inside a list hold no value. -/
theorem read?_of_cuts {bytes : List UInt8} {tokens inner : List Token} (hinner : Nested inner)
    (hscan : Token.scan bytes = some tokens) (hcuts : Cuts tokens (.openSquare :: inner)) :
    Value.read? bytes = none := by
  have hdrop : dropHeaders false false tokens = some (false, tokens) := by
    cases hcuts with
    | nil => rfl
    | cons _ => rfl
    | last _ hgrown => exact absurd hgrown id
  rw [Value.read?, hscan]
  simp only [hdrop]
  exact ofTokens?_of_cuts hinner hcuts false

/-! ## Written lists -/

/-- A written list ends with its closing bracket, and what is in front of the bracket is spaced. -/
theorem marks_list (numbered : Char → Bool) {items : List Value} (hitems : AreWritable items) :
    ∃ body, (Value.list items).marks 0 = body ++ [.token .closeSquare] ∧ Spaced numbered body := by
  obtain ⟨body, hmarks⟩ :
      ∃ body, (Value.list items).marks 0 = body ++ [.token .closeSquare] := by
    cases items with
    | nil => exact ⟨[.token .openSquare], rfl⟩
    | cons v items =>
      refine ⟨.token .openSquare :: (Value.itemMarks 1 (v :: items) ++ [.newline 0]), ?_⟩
      rw [Value.marks]
      · simp
      · simp
  have hspaced := spaced_marks numbered (.list hitems)
  rw [hmarks] at hspaced
  exact ⟨body, hmarks, hspaced.of_append.1⟩

/-- A proper front of a written list is not read. -/
theorem read?_of_cut_list {numbered : Char → Bool} {items : List Value}
    (hitems : AreWritable items) {bytes : List UInt8}
    (hcut : bytes <+: utf8 (String.ofList ((Value.list items).write numbered)))
    (hproper : bytes ≠ utf8 (String.ofList ((Value.list items).write numbered))) :
    Value.read? bytes = none := by
  obtain ⟨body, hmarks, hspaced⟩ := marks_list numbered hitems
  have hspells := spellsValue_of_writable (.list hitems) 0
  obtain ⟨inner, htokens, hinner⟩ := exists_inner_of_spells_list hspells
  have hbody : tokensOf body = .openSquare :: inner := by
    rw [hmarks, tokensOf_append] at htokens
    exact List.append_cancel_right htokens
  have hclose : utf8 (String.ofList [']']) = [']'.toUInt8] := by decide
  have hwrite : utf8 (String.ofList ((Value.list items).write numbered)) =
      utf8 (String.ofList (body.flatMap (Mark.spelling numbered))) ++ [']'.toUInt8] := by
    rw [Value.write, hmarks, List.flatMap_append, utf8_ofList_append, ← hclose]
    rfl
  rw [hwrite] at hcut hproper
  -- A front that is not the whole is a front of what is before the closing bracket.
  obtain ⟨more, hmore⟩ := (List.prefix_concat_iff.1 hcut).resolve_left hproper
  have hwhole := scan_of_spells (spellsTokens_of_laysOut (laysOut_spelling numbered body) hspaced)
  rw [← hmore, hbody] at hwhole
  cases hscan : Token.scan bytes with
  | none => rw [Value.read?, hscan]
  | some tokens => exact read?_of_cuts hinner hscan (cuts_of_scan hscan hwhole)

/-- Loading a file with a snapshot that is cut short fails, wherever it is cut. -/
theorem load_of_cut {numbered : Char → Bool} {u : Universe} {bytes : List UInt8}
    (hcut : bytes <+: utf8 (u.toSnapshotWith numbered))
    (hproper : bytes ≠ utf8 (u.toSnapshotWith numbered)) {d : Disk} {file : String}
    (hfile : d.find? file = some (.file bytes)) :
    Universe.load d file = .error (.notSnapshot file) := by
  have hread : Value.read? bytes = none :=
    read?_of_cut_list (areWritable_map isWritable_ofDecl u.types) hcut hproper
  have hnone : Universe.ofSnapshot? bytes = none := by
    rw [Universe.ofSnapshot?, hread]
  simp only [Universe.load, hfile, hnone]

/-- A cut inside a character, after a closing bracket in a name. -/
theorem load_of_cut_inside_character :
    ∃ bytes, bytes <+: utf8 (Universe.toSnapshot ⟨[.ofKind ⟨"", "]é"⟩ .map]⟩) ∧
      bytes.getLast? = some 0xC3 ∧
      Universe.load ⟨[(⟨0, ["f"]⟩, .file bytes)]⟩ "f" = .error (.notSnapshot "f") := by
  let bytes := utf8 "[\n    (\n        name: (\n            package: \"\",\n            name: \"]"
  let rest := utf8 "\",\n        ),\n        kind: Map,\n        members: [],\n    ),\n]"
  have hwrite : utf8 (Universe.toSnapshot ⟨[.ofKind ⟨"", "]é"⟩ .map]⟩) =
      bytes ++ [0xC3] ++ 0xA9 :: rest := by decide +kernel
  have hcut : bytes ++ [0xC3] <+: utf8 (Universe.toSnapshot ⟨[.ofKind ⟨"", "]é"⟩ .map]⟩) :=
    hwrite ▸ List.prefix_append _ _
  have hproper : bytes ++ [0xC3] ≠ utf8 (Universe.toSnapshot ⟨[.ofKind ⟨"", "]é"⟩ .map]⟩) := by
    rw [hwrite]
    simp
  exact ⟨bytes ++ [0xC3], hcut, List.getLast?_concat, load_of_cut hcut hproper rfl⟩

end TypeLint.Snapshot
