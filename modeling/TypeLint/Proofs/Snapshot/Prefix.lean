import TypeLint.Proofs.Snapshot.Layout
import TypeLint.Proofs.Snapshot.Scan

/-!
# Scanning the front of a file

What a reader has taken off a front of a file it takes off the whole file, too, as long as it has
seen the end of it. Only words, numbers and opening parentheses may come to their end because the
front does. So the tokens of a front are the first tokens of the file, up to the last of them.

## Main statements

- `readEscape_append`, `readQuoted_append`, … — readers that see where they stop
- `next_append` — one lexeme
- `cuts_of_scan` — the tokens of a front
-/

namespace TypeLint.Snapshot

open Text

/-! ## Readers that see where they stop -/

theorem readBraced_append {bytes rest : List UInt8} {n : Nat}
    (hread : readBraced bytes = some (n, rest)) (more : List UInt8) :
    readBraced (bytes ++ more) = some (n, rest ++ more) := by
  simp only [readBraced, List.length_map, drop_length_takeWhile] at hread ⊢
  split at hread
  · rename_i b tail hdrop
    have hends : bytes.dropWhile (fun b => (digit? 16 (glyph b)).isSome) ≠ [] := by simp [hdrop]
    rw [takeWhile_append_of_ends hends, dropWhile_append_of_ends hends, hdrop]
    simp only [List.cons_append]
    split at hread
    · rename_i hclosed
      rw [if_pos hclosed]
      simp only [Option.map_eq_some_iff, Prod.mk.injEq, Prod.exists] at hread ⊢
      obtain ⟨m, digits, hdigits, rfl, rfl⟩ := hread
      exact ⟨m, digits, hdigits, rfl, rfl⟩
    · simp at hread
  · simp at hread

/-- An escape is read in the same way when more bytes follow. -/
theorem readEscape_append {bytes rest : List UInt8} {c : Char}
    (hread : readEscape bytes = some (c, rest)) (more : List UInt8) :
    readEscape (bytes ++ more) = some (c, rest ++ more) := by
  unfold readEscape at hread
  split at hread
  · simp at hread
  · split at hread
    · rename_i hb
      simp only [List.cons_append, readEscape, hb]
      split at hread
      · simp_all
      · simp at hread
    · rename_i hb
      split at hread
      · rename_i hbrace
        simp only [List.cons_append, readEscape, hb, hbrace, if_true]
        split at hread
        · rename_i hbraced
          rw [readBraced_append hbraced]
          simp_all
        · simp at hread
      · simp at hread
    · rename_i b _ _ _ _ _
      -- An escape of one letter is none of the longer ones.
      have hx : glyph b ≠ 'x' := by
        intro hb
        simp [hb, namedEscape?] at hread
      have hu : glyph b ≠ 'u' := by
        intro hb
        simp [hb, namedEscape?] at hread
      simp only [List.cons_append]
      rw [readEscape]
      · simp_all
      · exact fun _ _ _ hb => absurd hb hx
      · exact fun _ _ hb => absurd hb hu

theorem readQuoted_append {bytes content rest : List UInt8}
    (hread : readQuoted bytes = some (content, rest)) (more : List UInt8) :
    readQuoted (bytes ++ more) = some (content, rest ++ more) := by
  fun_induction readQuoted bytes generalizing content rest with
  | case1 => simp at hread
  | case2 b bytes hb =>
    rw [List.cons_append, readQuoted, if_pos hb]
    simp_all
  | case3 => simp at hread
  | case4 b bytes hquote hslash c tail hescape ih =>
    simp only [Option.map_eq_some_iff, Prod.mk.injEq, Prod.exists] at hread
    obtain ⟨inner, last, hinner, rfl, rfl⟩ := hread
    have happend := readEscape_append hescape more
    rw [List.cons_append, readQuoted, if_neg hquote, if_pos hslash]
    split
    · simp_all
    · simp_all
  | case5 b bytes hquote hslash ih =>
    simp only [Option.map_eq_some_iff, Prod.mk.injEq, Prod.exists] at hread
    obtain ⟨inner, last, hinner, rfl, rfl⟩ := hread
    rw [List.cons_append, readQuoted, if_neg hquote, if_neg hslash, ih hinner]
    rfl

/-- There is no closing quote among hashes. -/
theorem readFenced_hashes {hashes : Nat} {bytes : List UInt8}
    (hbytes : ∀ b ∈ bytes, glyph b = '#') : readFenced hashes bytes = none := by
  have hquote : ∀ b ∈ bytes, glyph b ≠ '"' :=
    fun b hb hquote => absurd (hquote.symm.trans (hbytes b hb)) (by decide)
  have hplain : readFenced hashes (bytes ++ []) = _ := readFenced_plain hquote []
  rw [List.append_nil] at hplain
  rw [hplain]
  rfl

theorem readFenced_append {hashes : Nat} {bytes content rest : List UInt8}
    (hread : readFenced hashes bytes = some (content, rest)) (more : List UInt8) :
    readFenced hashes (bytes ++ more) = some (content, rest ++ more) := by
  fun_induction readFenced hashes bytes generalizing content rest with
  | case1 => simp at hread
  | case2 b bytes hclosed =>
    obtain ⟨rfl, rfl⟩ := Prod.mk.inj (Option.some.inj hread)
    have hhashes := le_length_takeWhile_iff.1 hclosed.2
    have hlen : hashes ≤ bytes.length := by simpa using hhashes.length_le
    have hmore := le_length_takeWhile_iff.2 (hhashes.trans (List.prefix_append bytes more))
    rw [List.cons_append, readFenced, if_pos ⟨hclosed.1, hmore⟩,
      List.drop_append_of_le_length hlen]
  | case3 b bytes hopen ih =>
    simp only [Option.map_eq_some_iff, Prod.mk.injEq, Prod.exists] at hread
    obtain ⟨inner, last, hinner, rfl, rfl⟩ := hread
    -- A quote with too few hashes gets no more of them, because its closing is still to come.
    have hends : bytes.dropWhile (glyph · == '#') ≠ [] := by
      intro hall
      rw [readFenced_hashes (by simpa using hall)] at hinner
      simp at hinner
    rw [List.cons_append, readFenced, takeWhile_append_of_ends hends, if_neg hopen, ih hinner]
    rfl

theorem readCharacter_append {bytes rest : List UInt8} {c : Char}
    (hread : readCharacter bytes = some (c, rest)) (more : List UInt8) :
    readCharacter (bytes ++ more) = some (c, rest ++ more) := by
  unfold readCharacter at hread
  split at hread
  · simp at hread
  · rename_i b bytes
    split at hread
    · rename_i hslash
      split at hread
      · rename_i d last rest hescape
        rw [List.cons_append, readCharacter, if_pos hslash, readEscape_append hescape,
          List.cons_append]
        simp_all
      · simp at hread
    · rename_i hslash
      simp only [drop_length_takeWhile] at hread
      split at hread
      · rename_i hcontent hdrop
        have hends : (b :: bytes).dropWhile (glyph · != '\x27') ≠ [] := by simp [hdrop]
        have htake := takeWhile_append_of_ends hends more
        have hdropMore := dropWhile_append_of_ends hends more
        rw [List.cons_append] at htake hdropMore ⊢
        simp only [readCharacter, if_neg hslash, drop_length_takeWhile]
        simp only [htake, hcontent, hdropMore, hdrop, List.cons_append]
        simp_all
      · simp at hread

/-- A block comment that is closed ends where it did. -/
theorem dropBlock_append {depth : Nat} {bytes rest : List UInt8}
    (hdrop : dropBlock depth bytes = some rest) (more : List UInt8) :
    dropBlock depth (bytes ++ more) = some (rest ++ more) := by
  fun_induction dropBlock depth bytes generalizing rest with
  | case1 depth a b bytes hopen ih =>
    rw [List.cons_append, List.cons_append, dropBlock_cons_cons, if_pos hopen, ih hdrop]
  | case2 a b bytes hopen hclose =>
    rw [List.cons_append, List.cons_append, dropBlock_cons_cons, if_neg hopen, if_pos hclose]
    simp_all
  | case3 a b bytes hopen hclose outer ih =>
    rw [List.cons_append, List.cons_append, dropBlock_cons_cons, if_neg hopen, if_pos hclose]
    exact ih hdrop
  | case4 depth a b bytes hopen hclose ih =>
    rw [List.cons_append, List.cons_append, dropBlock_cons_cons, if_neg hopen, if_neg hclose]
    exact ih hdrop
  | case5 => simp at hdrop

/-! ## Lexemes -/

/-- A token that a shorter one may be the front of. -/
def Token.Grown : Token → Prop
  | word .. | number _ | text _ | unit => True
  | _ => False

/-- How a lexeme at the end of a front goes on in the whole file: a comment in some way, and a token
    that could run on as one that can be grown. -/
inductive GoesOn (whole : Option (Option Token × List UInt8)) : Option Token → Prop
  | comment : GoesOn whole none
  | token {t : Token} : t.RunsOn → (∀ u rest, whole = some (u, rest) → ∃ v, u = some v ∧ v.Grown) →
      GoesOn whole (some t)

theorem textToken_append {read : List UInt8 × List UInt8} {t : Token} {rest : List UInt8}
    (hread : textToken read = some (t, rest)) (more : List UInt8) :
    textToken (read.1, read.2 ++ more) = some (t, rest ++ more) := by
  simp only [textToken, Option.map_eq_some_iff, Prod.mk.injEq] at hread ⊢
  obtain ⟨s, hs, rfl, rfl⟩ := hread
  exact ⟨s, hs, rfl, rfl⟩

theorem grown_of_textToken {read : List UInt8 × List UInt8} {t : Token} {rest : List UInt8}
    (hread : textToken read = some (t, rest)) : t.Grown := by
  simp only [textToken, Option.map_eq_some_iff, Prod.mk.injEq] at hread
  obtain ⟨s, -, rfl, -⟩ := hread
  trivial

theorem grown_of_nextAfterR {bytes rest : List UInt8} {t : Token}
    (hnext : Token.nextAfterR bytes = some (t, rest)) : t.Grown := by
  have hfenced {n : Nat} {tail : List UInt8}
      (h : (readFenced n tail).bind textToken = some (t, rest)) : t.Grown := by
    obtain ⟨read, -, hread⟩ := Option.bind_eq_some_iff.1 h
    exact grown_of_textToken hread
  unfold Token.nextAfterR at hnext
  dsimp only at hnext
  split at hnext
  · split at hnext
    · obtain ⟨rfl, -⟩ := Prod.mk.inj (Option.some.inj hnext)
      trivial
    · split at hnext
      · exact hfenced hnext
      · simp at hnext
  · split at hnext
    · exact hfenced hnext
    · simp at hnext
  · simp at hnext

theorem grown_of_nextRun {b : UInt8} {bytes rest : List UInt8} {t : Token}
    (hnext : Token.nextRun b bytes = some (t, rest)) : t.Grown := by
  unfold Token.nextRun at hnext
  split at hnext
  · exact grown_of_nextAfterR hnext
  · split at hnext
    · obtain ⟨rfl, -⟩ := Prod.mk.inj (Option.some.inj hnext)
      trivial
    · simp only [Token.nextNumber, Option.ite_none_right_eq_some, Option.some.injEq,
        Prod.mk.injEq] at hnext
      obtain ⟨-, rfl, -⟩ := hnext
      trivial

/-- After the letter `r`, only a raw word can come to its end because the front does. -/
theorem nextAfterR_append {bytes rest : List UInt8} {t : Token}
    (hnext : Token.nextAfterR bytes = some (t, rest)) (more : List UInt8) :
    Token.nextAfterR (bytes ++ more) = some (t, rest ++ more) ∨ rest = [] ∧ t.RunsOn := by
  simp only [Token.nextAfterR, drop_length_takeWhile] at hnext ⊢
  have hends : bytes.dropWhile (glyph · == '#') ≠ [] := by
    intro hall
    simp [hall] at hnext
  rw [takeWhile_append_of_ends hends, dropWhile_append_of_ends hends]
  obtain ⟨b, tail, hdrop⟩ := List.exists_cons_of_ne_nil hends
  rw [hdrop] at hnext ⊢
  have hfenced {n : Nat} (hquoted : (if glyph b = '"' then (readFenced n tail).bind textToken
      else none) = some (t, rest)) : (if glyph b = '"' then
        (readFenced n (tail ++ more)).bind textToken else none) = some (t, rest ++ more) := by
    rw [Option.ite_none_right_eq_some, Option.bind_eq_some_iff] at hquoted
    obtain ⟨hquote, read, hinside, hread⟩ := hquoted
    rw [if_pos hquote, readFenced_append hinside, Option.bind_some, textToken_append hread]
  generalize bytes.takeWhile (glyph · == '#') = hashes at hnext ⊢
  rcases hashes with _ | ⟨hash, _ | ⟨_, hashes⟩⟩
  · exact .inl (hfenced hnext)
  · -- A single hash may mark a raw word.
    dsimp only [List.cons_append] at hnext ⊢
    split at hnext
    · rename_i hraw
      obtain ⟨rfl, rfl⟩ := Prod.mk.inj (Option.some.inj hnext)
      by_cases hrun : tail.dropWhile isRawByte = []
      · exact .inr ⟨hrun, trivial⟩
      · rw [if_pos hraw, takeWhile_append_of_ends hrun, dropWhile_append_of_ends hrun]
        exact .inl rfl
    · rename_i hraw
      rw [if_neg hraw]
      exact .inl (hfenced hnext)
  · exact .inl (hfenced hnext)

/-- A number that is followed by something is scanned in the same way when more bytes follow. -/
theorem nextNumber_append {b : UInt8} {bytes rest : List UInt8} {t : Token}
    (hnext : Token.nextNumber b bytes = some (t, rest)) (hrest : rest ≠ []) (more : List UInt8) :
    Token.nextNumber b (bytes ++ more) = some (t, rest ++ more) := by
  simp only [Token.nextNumber, Option.ite_none_right_eq_some, Option.some.injEq,
    Prod.mk.injEq] at hnext ⊢
  obtain ⟨hnumber, rfl, rfl⟩ := hnext
  rw [takeWhile_append_of_ends hrest, dropWhile_append_of_ends hrest]
  exact ⟨hnumber, rfl, rfl⟩

theorem runsOn_of_nextNumber {b : UInt8} {bytes rest : List UInt8} {t : Token}
    (hnext : Token.nextNumber b bytes = some (t, rest)) : t.RunsOn := by
  simp only [Token.nextNumber, Option.ite_none_right_eq_some, Option.some.injEq,
    Prod.mk.injEq] at hnext
  obtain ⟨-, rfl, -⟩ := hnext
  trivial

/-- Words and numbers can come to their end because the front does, but strings cannot. -/
theorem nextRun_append {b : UInt8} {bytes rest : List UInt8} {t : Token}
    (hnext : Token.nextRun b bytes = some (t, rest)) (more : List UInt8) :
    Token.nextRun b (bytes ++ more) = some (t, rest ++ more) ∨ rest = [] ∧ t.RunsOn := by
  have hhead (hne : bytes ≠ []) : (bytes ++ more).head? = bytes.head? :=
    List.head?_append_of_ne_nil _ hne
  rw [Token.nextRun] at hnext
  split at hnext
  · rename_i hmark
    have hne : bytes ≠ [] := by
      rintro rfl
      simp at hmark
    rw [Token.nextRun, hhead hne, if_pos hmark]
    exact nextAfterR_append hnext more
  · rename_i hmark
    by_cases hrest : rest = []
    · split at hnext
      · obtain ⟨rfl, -⟩ := Prod.mk.inj (Option.some.inj hnext)
        exact .inr ⟨hrest, trivial⟩
      · exact .inr ⟨hrest, runsOn_of_nextNumber hnext⟩
    · have hlen : rest.length ≤ bytes.length := by
        split at hnext
        · exact (Prod.mk.inj (Option.some.inj hnext)).2 ▸ Token.nextWord_length b bytes
        · exact Token.nextNumber_length hnext
      have hne : bytes ≠ [] := by
        rintro rfl
        exact hrest (List.eq_nil_of_length_eq_zero (Nat.le_zero.1 hlen))
      left
      rw [Token.nextRun, hhead hne, if_neg hmark]
      split at hnext
      · rename_i hstart
        obtain ⟨rfl, rfl⟩ := Prod.mk.inj (Option.some.inj hnext)
        rw [if_pos hstart, Token.nextWord, takeWhile_append_of_ends hrest,
          dropWhile_append_of_ends hrest]
      · rename_i hstart
        rw [if_neg hstart, nextNumber_append hnext hrest]

/-- A comment ends where it did, unless it reached to the end. -/
theorem skipComment_append {bytes rest : List UInt8} (hskip : skipComment bytes = some rest)
    (more : List UInt8) : skipComment (bytes ++ more) = some (rest ++ more) ∨ rest = [] := by
  cases bytes with
  | nil => simp [skipComment] at hskip
  | cons b bytes =>
    rw [skipComment] at hskip
    rw [List.cons_append, skipComment]
    split at hskip
    · rename_i hline
      obtain rfl := Option.some.inj hskip
      by_cases hends : bytes.dropWhile (glyph · != '\n') = []
      · exact .inr hends
      · rw [if_pos hline, dropLine, dropLine, dropWhile_append_of_ends hends]
        exact .inl rfl
    · rename_i hline
      rw [if_neg hline]
      split at hskip
      · rename_i hblock
        rw [if_pos hblock]
        exact .inl (dropBlock_append hskip more)
      · simp at hskip

/-- An opening parenthesis at the end of a front is one, unless the unit goes on there. -/
theorem nextRound_append (bytes more : List UInt8) :
    Token.nextRound (bytes ++ more) =
        ((Token.nextRound bytes).1, (Token.nextRound bytes).2 ++ more) ∨
      bytes = [] ∧ (Token.nextRound more).1 = .unit := by
  cases bytes with
  | cons b bytes =>
    left
    simp only [Token.nextRound, List.cons_append]
    split
    · rfl
    · rfl
  | nil =>
    cases more with
    | nil => exact .inl rfl
    | cons b more =>
      by_cases hb : glyph b = ')'
      · exact .inr ⟨rfl, by rw [Token.nextRound, if_pos hb]⟩
      · exact .inl (if_neg hb)

/-- A lexeme of a front is a lexeme of the whole, unless it is at the end of the front. -/
theorem next_append {b : UInt8} {bytes rest : List UInt8} {t : Option Token}
    (hnext : Token.next b bytes = some (t, rest)) (more : List UInt8) :
    Token.next b (bytes ++ more) = some (t, rest ++ more) ∨
      rest = [] ∧ GoesOn (Token.next b (bytes ++ more)) t := by
  unfold Token.next at hnext ⊢
  split at hnext
  · rename_i hblank
    rw [if_pos hblank]
    obtain ⟨rfl, rfl⟩ := Prod.mk.inj (Option.some.inj hnext)
    exact .inl rfl
  · rename_i hblank
    rw [if_neg hblank]
    split at hnext
    case h_1 =>
      simp only [Option.map_eq_some_iff, Prod.mk.injEq] at hnext
      obtain ⟨_, hskip, rfl, rfl⟩ := hnext
      rcases skipComment_append hskip more with hskip | rfl
      · rw [hskip]
        exact .inl rfl
      · exact .inr ⟨rfl, .comment⟩
    case h_2 =>
      obtain ⟨rfl, rfl⟩ := Prod.mk.inj (Option.some.inj hnext)
      rcases nextRound_append bytes more with hround | ⟨rfl, hunit⟩
      · rw [hround]
        exact .inl rfl
      · refine .inr ⟨rfl, .token trivial fun u rest hwhole => ?_⟩
        obtain ⟨rfl, -⟩ := Prod.mk.inj (Option.some.inj hwhole)
        exact ⟨_, rfl, hunit ▸ trivial⟩
    case h_12 =>
      simp only [Option.map_eq_some_iff, Option.bind_eq_some_iff, Prod.mk.injEq,
        Prod.exists] at hnext
      obtain ⟨_, _, ⟨content, tail, hinside, htext⟩, rfl, rfl⟩ := hnext
      rw [readQuoted_append hinside, Option.bind_some, textToken_append htext]
      exact .inl rfl
    case h_13 =>
      simp only [Option.map_eq_some_iff, Prod.mk.injEq, Prod.exists] at hnext
      obtain ⟨_, _, hread, rfl, rfl⟩ := hnext
      rw [readCharacter_append hread]
      exact .inl rfl
    case h_14 =>
      simp only [Option.map_eq_some_iff, Prod.mk.injEq, Prod.exists] at hnext
      obtain ⟨_, _, hrun, rfl, rfl⟩ := hnext
      rcases nextRun_append hrun more with hwhole | ⟨rfl, hruns⟩
      · rw [hwhole]
        exact .inl rfl
      · refine .inr ⟨rfl, .token hruns fun u rest hwhole => ?_⟩
        simp only [Option.map_eq_some_iff, Prod.mk.injEq, Prod.exists] at hwhole
        obtain ⟨v, _, hgrown, rfl, -⟩ := hwhole
        exact ⟨v, rfl, grown_of_nextRun hgrown⟩
    all_goals
      obtain ⟨rfl, rfl⟩ := Prod.mk.inj (Option.some.inj hnext)
      exact .inl rfl

/-- The tokens of a front are those of the whole, up to the last one, which may still grow. -/
inductive Cuts : List Token → List Token → Prop
  | nil {whole : List Token} : Cuts [] whole
  | cons {t : Token} {front whole : List Token} : Cuts front whole → Cuts (t :: front) (t :: whole)
  | last {t u : Token} {whole : List Token} : t.RunsOn → u.Grown → Cuts [t] (u :: whole)

/-- The tokens of a file start with that of its first lexeme, if it has one. -/
theorem scan_eq_some_cons {b : UInt8} {bytes : List UInt8} {tokens : List Token}
    (hscan : Token.scan (b :: bytes) = some tokens) :
    ∃ t rest ts, Token.next b bytes = some (t, rest) ∧ Token.scan rest = some ts ∧
      tokens = t.toList ++ ts := by
  rw [Token.scan] at hscan
  split at hscan
  · simp at hscan
  · rename_i rest hnext
    exact ⟨none, rest, tokens, hnext, hscan, rfl⟩
  · rename_i t rest hnext
    obtain ⟨ts, hts, rfl⟩ := Option.map_eq_some_iff.1 hscan
    exact ⟨some t, rest, ts, hnext, hts, rfl⟩

/-- A front of a file has the tokens of the file, as far as it goes. -/
theorem cuts_of_scan {bytes more : List UInt8} {front whole : List Token}
    (hfront : Token.scan bytes = some front) (hwhole : Token.scan (bytes ++ more) = some whole) :
    Cuts front whole := by
  fun_induction Token.scan bytes generalizing front whole with
  | case1 =>
    obtain rfl := Option.some.inj hfront
    exact .nil
  | case2 => simp at hfront
  | case3 b bytes rest hnext ih =>
    rcases next_append hnext more with hnext | ⟨rfl, hends⟩
    · rw [List.cons_append, scan_cons_skip hnext] at hwhole
      exact ih hfront hwhole
    · rw [Token.scan] at hfront
      obtain rfl := Option.some.inj hfront
      exact .nil
  | case4 b bytes t rest hnext ih =>
    obtain ⟨ts, hts, rfl⟩ := Option.map_eq_some_iff.1 hfront
    rcases next_append hnext more with hnext | ⟨rfl, hends⟩
    · rw [List.cons_append, scan_cons_token hnext] at hwhole
      obtain ⟨us, hus, rfl⟩ := Option.map_eq_some_iff.1 hwhole
      exact .cons (ih hts hus)
    · -- The token at the end of the front may be the beginning of another one.
      rw [Token.scan] at hts
      obtain rfl := Option.some.inj hts
      cases hends with
      | token hruns hgrown =>
        obtain ⟨u, rest, us, hfirst, -, rfl⟩ := scan_eq_some_cons hwhole
        obtain ⟨v, rfl, hv⟩ := hgrown u rest hfirst
        exact .last hruns hv

end TypeLint.Snapshot
