import TypeLint.Proofs.Snapshot.RoundTrip
import TypeLint.Session

/-!
# Snapshots with other line breaks

A written snapshot holds a line feed only where one of its lines ends, since strings are written
with escapes. Each line end stands between two tokens, and any blanks may stand there. So a snapshot
still holds its universe when its line feeds are replaced by other blanks, each by its own.

## Main statements

- `lineFeed_notMem_spelling` — no token is written with a line feed in it
- `laysOut_of_isRelaid` — a layout with other line breaks is a layout of the same marks
- `exists_newline_of_lineFeed` — the line feeds of a layout
- `load_of_relaid` — a snapshot with other line breaks
-/

namespace TypeLint.Snapshot

open Text

/-! ## Changes of layout -/

section Relaid

variable {text front back relaid : List Char}

/-- The parts of a text are changed one by one. -/
theorem IsRelaid.of_append (hrelaid : IsRelaid (front ++ back) relaid) :
    ∃ front' back', relaid = front' ++ back' ∧ IsRelaid front front' ∧ IsRelaid back back' := by
  induction front generalizing relaid with
  | nil => exact ⟨[], relaid, rfl, .nil, hrelaid⟩
  | cons c front ih =>
    cases hrelaid with
    | keep hc hrelaid =>
      obtain ⟨front', back', rfl, hfront, hback⟩ := ih hrelaid
      exact ⟨c :: front', back', rfl, .keep hc hfront, hback⟩
    | replace hne hblanks hrelaid =>
      obtain ⟨front', back', rfl, hfront, hback⟩ := ih hrelaid
      exact ⟨_, back', (List.append_assoc ..).symm, .replace hne hblanks hfront, hback⟩

/-- A text without line feeds stays as it is. -/
theorem IsRelaid.eq_of_notMem (hrelaid : IsRelaid text relaid) (hfeed : '\n' ∉ text) :
    relaid = text := by
  induction hrelaid with
  | nil => rfl
  | keep _ _ ih => rw [ih fun hmem => hfeed (List.mem_cons_of_mem _ hmem)]
  | replace => exact absurd List.mem_cons_self hfeed

/-- All line feeds of a text may be replaced by the same blanks. -/
theorem isRelaid_flatMap {blanks : List Char} (hne : blanks ≠ [])
    (hblanks : ∀ c ∈ blanks, c = ' ' ∨ c = '\t' ∨ c = '\r' ∨ c = '\n') (text : List Char) :
    IsRelaid text (text.flatMap fun c => if c = '\n' then blanks else [c]) := by
  induction text with
  | nil => exact .nil
  | cons c text ih =>
    rw [List.flatMap_cons]
    by_cases hc : c = '\n'
    · rw [if_pos hc, hc]
      exact .replace hne hblanks ih
    · rw [if_neg hc]
      exact .keep hc ih

end Relaid

/-! ## Line feeds in tokens -/

section Tokens

variable {numbered : Char → Bool}

/-- No line feed is written as itself inside quotes. -/
theorem lineFeed_notMem_escape (c : Char) : '\n' ∉ escape numbered c := by
  simp only [escape]
  split
  · rename_i e hescape
    have hshort : ∀ p ∈ shortEscapes, p.1 ≠ '\n' := by decide
    simpa using (hshort _ (shortEscape?_eq_some hescape)).symm
  · rename_i hescape
    split
    · have hdigits : '\n' ∉ hex c.toNat := by
        intro hmem
        have hlt := (hex_spec c.toNat).1 _ hmem
        exact absurd hlt (by decide)
      simpa using hdigits
    · rw [List.mem_singleton]
      rintro rfl
      simp [shortEscape?] at hescape

/-- Whatever a text holds, no line feed stands between its quotes. -/
theorem lineFeed_notMem_quote (s : String) : '\n' ∉ quote numbered s := by
  simp [quote, lineFeed_notMem_escape]

theorem lineFeed_notMem_quoteCharacter (c : Char) : '\n' ∉ quoteCharacter numbered c := by
  simp [quoteCharacter, lineFeed_notMem_escape]

/-- A line feed stands in no word and no number. -/
theorem lineFeed_notMem_run {text : List Char} (htext : ∀ c ∈ text, IsRunChar c) :
    '\n' ∉ text := by
  intro hmem
  rcases htext _ hmem with h | h | h | h | h
  all_goals exact absurd h (by decide)

theorem isRunChar_of_spells_word {spelling : List UInt8} {name : String} {raw : Bool}
    (hspells : SpellsToken spelling (.word name raw)) : ∀ c ∈ name.toList, IsRunChar c := by
  cases hspells with
  | word hname =>
    obtain ⟨c, rest, hname, hc, hrest⟩ := hname
    rw [hname]
    refine List.forall_mem_cons.2 ⟨?_, fun d hd => (hrest d hd).imp_right .inl⟩
    exact hc.imp (fun halpha => isAlphanum_iff.2 (.inl halpha)) .inl
  | rawWord hname => exact hname.2

theorem isRunChar_of_spells_number {spelling : List UInt8} {literal : String}
    (hspells : SpellsToken spelling (.number literal)) : ∀ c ∈ literal.toList, IsRunChar c := by
  cases hspells with
  | number hliteral => exact (looksNumeric_of_isNumeral hliteral).1

/-- No token is written with a line feed in it. -/
theorem lineFeed_notMem_spelling {spelling : List UInt8} {t : Token}
    (hspells : SpellsToken spelling t) : '\n' ∉ t.spelling numbered := by
  cases t with
  | word name raw =>
    have hname := lineFeed_notMem_run (isRunChar_of_spells_word hspells)
    cases raw with
    | false => exact hname
    | true => simpa [Token.spelling] using hname
  | number literal => exact lineFeed_notMem_run (isRunChar_of_spells_number hspells)
  | char c => exact lineFeed_notMem_quoteCharacter c
  | text s => exact lineFeed_notMem_quote s
  | _ => simp [Token.spelling]

end Tokens

/-! ## Other line breaks -/

section Marks

variable {numbered : Char → Bool} {ms : List Mark}

/-- Only the marks with which a line starts are written with a line feed. -/
theorem lineFeed_notMem_or_newline {m : Mark} (hspaced : Spaced numbered (m :: ms)) :
    '\n' ∉ m.spelling numbered ∨ ∃ depth, m = .newline depth := by
  cases m with
  | token t => exact .inl (lineFeed_notMem_spelling hspaced.1)
  | space => exact .inl (by simp [Mark.spelling])
  | newline depth => exact .inr ⟨depth, rfl⟩

theorem lineFeed_notMem_indentation (n : Nat) : '\n' ∉ List.replicate n ' ' := by
  simp [List.mem_replicate]

/-- A layout with other line breaks is a layout of the same marks. -/
theorem laysOut_of_isRelaid (hspaced : Spaced numbered ms) {relaid : List Char}
    (hrelaid : IsRelaid (ms.flatMap (Mark.spelling numbered)) relaid) :
    LaysOut numbered ms relaid := by
  induction ms generalizing relaid with
  | nil =>
    cases hrelaid
    exact .nil
  | cons m ms ih =>
    rw [List.flatMap_cons] at hrelaid
    obtain ⟨own, rest, rfl, hown, hrest⟩ := hrelaid.of_append
    have hlays := ih hspaced.tail hrest
    cases m with
    | token t =>
      obtain rfl := hown.eq_of_notMem (lineFeed_notMem_spelling hspaced.1)
      exact .token hlays
    | space =>
      obtain rfl := hown.eq_of_notMem (by simp [Mark.spelling])
      exact .gap rfl (by simp [Mark.spelling]) (by simp [Mark.spelling, IsBlankChar]) hlays
    | newline depth =>
      -- The indentation behind the line feed is still there, behind what replaces it.
      cases hown with
      | keep hne => exact absurd rfl hne
      | replace hne hblanks hspaces =>
        obtain rfl := hspaces.eq_of_notMem (lineFeed_notMem_indentation _)
        refine .gap rfl (by simp [hne]) (fun c hc => ?_) hlays
        rcases List.mem_append.1 hc with hc | hc
        · rcases hblanks c hc with h | h | h | h
          all_goals simp [IsBlankChar, h]
        · exact .inl (List.eq_of_mem_replicate hc)

/-! ## The line feeds of a layout -/

/-- A line feed in a layout is where a line starts. -/
theorem exists_newline_of_lineFeed (hspaced : Spaced numbered ms) {before after : List Char}
    (hfeed : ms.flatMap (Mark.spelling numbered) = before ++ '\n' :: after) :
    ∃ front depth back, ms = front ++ .newline depth :: back ∧
      before = front.flatMap (Mark.spelling numbered) ∧
      after = List.replicate (4 * depth) ' ' ++ back.flatMap (Mark.spelling numbered) := by
  induction ms generalizing before with
  | nil => simp at hfeed
  | cons m ms ih =>
    rw [List.flatMap_cons] at hfeed
    -- The line feed is in what follows the mark, unless it is the first character of the mark.
    have hlater {own : List Char} (hown : '\n' ∉ own) {before : List Char}
        (hsplit : own ++ ms.flatMap (Mark.spelling numbered) = before ++ '\n' :: after) :
        ∃ front depth back, ms = front ++ .newline depth :: back ∧
          before = own ++ front.flatMap (Mark.spelling numbered) ∧
          after = List.replicate (4 * depth) ' ' ++ back.flatMap (Mark.spelling numbered) := by
      obtain ⟨more, rfl, hmore⟩ := exists_append_of_notMem hown hsplit
      obtain ⟨front, depth, back, rfl, rfl, rfl⟩ := ih hspaced.tail hmore
      exact ⟨front, depth, back, rfl, rfl, rfl⟩
    rcases lineFeed_notMem_or_newline hspaced with hown | ⟨depth, rfl⟩
    · obtain ⟨front, depth, back, rfl, rfl, rfl⟩ := hlater hown hfeed
      exact ⟨m :: front, depth, back, rfl, rfl, rfl⟩
    · cases before with
      | nil => exact ⟨[], depth, ms, rfl, rfl, (List.cons.inj hfeed).2.symm⟩
      | cons c before =>
        obtain ⟨rfl, hrest⟩ := List.cons.inj hfeed
        obtain ⟨front, depth', back, rfl, rfl, rfl⟩ :=
          hlater (lineFeed_notMem_indentation _) hrest
        exact ⟨.newline depth :: front, depth', back, rfl, rfl, rfl⟩

/-- A line feed in a layout stands between two tokens: the reader takes those in front of it and
    those behind it, and no others. -/
theorem scan_of_lineFeed (hspaced : Spaced numbered ms) {before after : List Char}
    (hfeed : ms.flatMap (Mark.spelling numbered) = before ++ '\n' :: after) :
    ∃ ts us, Token.scan (utf8 (String.ofList before)) = some ts ∧
      Token.scan (utf8 (String.ofList after)) = some us ∧
      Token.scan (utf8 (String.ofList (ms.flatMap (Mark.spelling numbered)))) =
        some (ts ++ us) := by
  have hwhole := scan_of_spells (spellsTokens_of_laysOut (laysOut_spelling numbered ms) hspaced)
  obtain ⟨front, depth, back, rfl, rfl, rfl⟩ := exists_newline_of_lineFeed hspaced hfeed
  obtain ⟨hfront, hback⟩ := hspaced.of_append
  have hspells := spellsTokens_of_laysOut (laysOut_spelling numbered back) hback.tail
  have hindented : SpellsTokens (utf8 (String.ofList (List.replicate (4 * depth) ' ' ++
      back.flatMap (Mark.spelling numbered)))) (tokensOf back) := by
    rw [utf8_ofList_append]
    exact .append_gap (isGap_of_blanks fun c hc => .inl (List.eq_of_mem_replicate hc)) hspells
  rw [tokensOf_append, tokensOf_newline] at hwhole
  exact ⟨_, _, scan_of_spells (spellsTokens_of_laysOut (laysOut_spelling numbered front) hfront),
    scan_of_spells hindented, hwhole⟩

end Marks

/-! ## Written snapshots -/

/-- A snapshot is its marks, written one after the other. -/
theorem toList_toSnapshotWith (numbered : Char → Bool) (u : Universe) :
    (u.toSnapshotWith numbered).toList =
      ((format.ofDecls u.types).marks 0).flatMap (Mark.spelling numbered) :=
  String.toList_ofList

/-- Loading a snapshot whose line feeds are replaced by other blanks, each by its own, gives the
    universe that was written, whatever its names and tags hold. Every line feed of a snapshot
    stands between two tokens, so none is inside a string. -/
theorem load_of_relaid (numbered : Char → Bool) (u : Universe) :
    (∀ relaid, IsRelaid (u.toSnapshotWith numbered).toList relaid →
      ∀ d file, Disk.find? d file = some (.file (utf8 (String.ofList relaid))) →
        Universe.load d file = .ok u) ∧
      ∀ before after, (u.toSnapshotWith numbered).toList = before ++ '\n' :: after →
        ∃ ts us, Token.scan (utf8 (String.ofList before)) = some ts ∧
          Token.scan (utf8 (String.ofList after)) = some us ∧
          Token.scan (utf8 (u.toSnapshotWith numbered)) = some (ts ++ us) := by
  have hspaced := spaced_marks numbered (isWritable_ofDecls u.types)
  constructor
  · intro relaid hrelaid d file hfile
    rw [toList_toSnapshotWith] at hrelaid
    have hread := ofSnapshot?_of_laysOut (laysOut_of_isRelaid hspaced hrelaid)
    simp only [Universe.load, hfile, hread]
  · intro before after hfeed
    rw [toList_toSnapshotWith] at hfeed
    exact scan_of_lineFeed hspaced hfeed

/-- Carriage returns in front of all line feeds of a snapshot, for a name that has both itself. -/
theorem load_of_relaid_carriage_returns :
    let u : Universe := ⟨[.ofKind ⟨"", "a\n\"\r\n"⟩ .map]⟩
    let relaid := u.toSnapshot.toList.flatMap fun c => if c = '\n' then ['\r', '\n'] else [c]
    relaid.count '\r' = 9 ∧
      Universe.load ⟨[(⟨0, ["f"]⟩, .file (utf8 (String.ofList relaid)))]⟩ "f" = .ok u ∧
      ∃ before after ts us, u.toSnapshot.toList = before ++ '\n' :: after ∧
        Token.scan (utf8 (String.ofList before)) = some ts ∧
        Token.scan (utf8 (String.ofList after)) = some us ∧
        Token.scan (utf8 u.toSnapshot) = some (ts ++ us) := by
  intro u relaid
  have hrelaid : IsRelaid u.toSnapshot.toList relaid :=
    isRelaid_flatMap (by simp) (by simp) u.toSnapshot.toList
  obtain ⟨hcount, hmem⟩ : relaid.count '\r' = 9 ∧ '\n' ∈ u.toSnapshot.toList := by
    decide +kernel
  obtain ⟨before, after, hfeed⟩ := List.append_of_mem hmem
  obtain ⟨ts, us, hscan⟩ := (load_of_relaid isInvisible u).2 before after hfeed
  exact ⟨hcount, (load_of_relaid isInvisible u).1 relaid hrelaid _ "f" rfl, before, after, ts, us,
    hfeed, hscan⟩

end TypeLint.Snapshot
