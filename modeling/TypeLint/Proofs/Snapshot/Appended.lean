import TypeLint.Proofs.Json.Universe
import TypeLint.Proofs.Snapshot.Machine
import TypeLint.Proofs.Snapshot.Prefix
import TypeLint.Proofs.Snapshot.Schema

/-!
# Text behind a document

A list ends with its closing bracket, and no bytes behind it change that token or any before it. So
the tokens of a snapshot are the first ones of every file that starts with it. Once the list is
complete the machine takes no other token. A file may go on with blanks and comments, or with what
was the end of a comment, and holds the same universe then.

## Main statements

- `State.getLast?_of_run` — the tokens of a list end with its closing bracket
- `dropHeaders_append` — headers of a longer file
- `Value.eq_of_read?_append` — a file that starts with a list
- `Universe.same_of_appended` — what may stand behind a document
-/

namespace TypeLint.Snapshot

open Text

/-! ## The end of a list -/

namespace State

variable {bare : Bool} {s : State} {t : Token} {stack rest : List Frame} {items : List Value}

/-- No token is a list by itself. -/
theorem start_ne_complete_list : start stack t ≠ some (complete (.list items) rest) := by
  cases t with
  | word name raw =>
    rw [start, ne_eq, Option.some.injEq]
    simp only [startWord]
    split <;> simp
  | _ => simp [start]

/-- A list is completed by its closing bracket only. -/
theorem closeSquare_of_finish {v : Value}
    (hfinish : finish v stack t = some (complete (.list items) rest)) : t = .closeSquare := by
  unfold finish at hfinish
  split at hfinish
  case h_2 => rfl
  all_goals simp at hfinish

/-- Whatever the machine is waiting for, a list is completed by its closing bracket. -/
theorem closeSquare_of_advance
    (hadvance : advance bare s t = some (complete (.list items) rest)) : t = .closeSquare := by
  unfold advance at hadvance
  split at hadvance
  -- A list is closed right after it was opened or after a comma.
  case h_5 => rfl
  -- A value has been completed before the token.
  case h_20 => exact closeSquare_of_finish hadvance
  -- A value starts as the content of a bare `Some`.
  case h_4 => exact absurd (Option.ite_none_right_eq_some.1 hadvance).2 start_ne_complete_list
  -- A value starts in a container, or as the whole.
  case h_1 | h_6 | h_9 | h_11 | h_16 => exact absurd hadvance start_ne_complete_list
  all_goals simp at hadvance

/-- A list is complete with its closing bracket, and with no other token. -/
theorem closeSquare_of_step (hstep : step bare s t = some (complete (.list items) rest)) :
    t = .closeSquare := by
  unfold step at hstep
  split at hstep
  · simp at hstep
  · obtain ⟨mid, -, hadvance⟩ := Option.bind_eq_some_iff.1 hstep
    exact closeSquare_of_advance hadvance
  · exact closeSquare_of_advance hstep

/-- The last token of a list is its closing bracket. -/
theorem getLast?_of_run {tokens : List Token}
    (hrun : run bare (value stack) tokens = some (complete (.list items) rest)) :
    tokens.getLast? = some .closeSquare := by
  rcases List.eq_nil_or_concat tokens with rfl | ⟨front, t, rfl⟩
  · simp at hrun
  · rw [List.concat_eq_append, run_append, Option.bind_eq_some_iff] at hrun
    obtain ⟨s, -, hstep⟩ := hrun
    rw [run_cons, Option.bind_eq_some_iff] at hstep
    obtain ⟨s', hstep, hlast⟩ := hstep
    obtain rfl := Option.some.inj hlast
    rw [List.concat_eq_append, List.getLast?_concat, closeSquare_of_step hstep]

/-- Nothing is taken behind a complete list. -/
theorem step_complete_list (t : Token) : step bare (complete (.list items) []) t = none := by
  cases t with
  | _ => rfl

/-- A bare `Some` around a value is no list. -/
theorem settle_just_ne_list (v : Value) (stack : List Frame) :
    (settle (.just v) stack).1 ≠ .list items := by
  induction stack generalizing v with
  | nil => simp [settle]
  | cons frame stack ih =>
    cases frame with
    | bare => exact ih _
    | _ => simp [settle]

/-- A list is the result when it has just been completed, outside of all others. -/
theorem eq_complete_of_result? (hresult : s.result? = some (.list items)) :
    s = complete (.list items) [] := by
  cases s with
  | complete v stack =>
    simp only [result?] at hresult
    split at hresult
    · rename_i hsettle
      obtain rfl := Option.some.inj hresult
      cases stack with
      | nil =>
        rw [settle] at hsettle
        · rw [(Prod.mk.inj hsettle).1]
        · simp
      | cons frame stack =>
        cases frame with
        | bare => exact absurd (congrArg Prod.fst hsettle) (settle_just_ne_list v stack)
        | _ => simp [settle] at hsettle
    · simp at hresult
  | _ => simp [result?] at hresult

end State

/-! ## Headers -/

/-- What is in the parentheses of a header starts with the name of an extension. -/
theorem exists_word_of_dropHeaders {bare b : Bool} {tokens rest : List Token}
    (hdrop : dropHeaders bare true tokens = some (b, rest)) :
    ∃ e raw back, tokens = .word e raw :: back := by
  unfold dropHeaders at hdrop
  split at hdrop
  all_goals simp_all

/-- Headers are dropped in the same way when more tokens stand behind them, as long as what comes
    after them starts with no part of a header. -/
theorem dropHeaders_append {bare inside b : Bool} {tokens rest : List Token}
    (hdrop : dropHeaders bare inside tokens = some (b, rest)) {t : Token}
    (hhead : rest.head? = some t) (ht : t ≠ .hash) (more : List Token) :
    dropHeaders bare inside (tokens ++ more) = some (b, rest ++ more) := by
  fun_induction dropHeaders bare inside tokens with
  | case1 bare tokens ih =>
    rw [← ih hdrop]
    exact dropHeaders.eq_def ..
  | case2 bare tokens hother =>
    obtain ⟨rfl, rfl⟩ := Prod.mk.inj (Option.some.inj hdrop)
    cases tokens with
    | nil => simp at hhead
    | cons u tokens =>
      obtain rfl : u = t := by simpa using hhead
      cases u with
      | hash => exact absurd rfl ht
      | _ => exact dropHeaders.eq_def ..
  | case3 bare e raw tokens hmem ih =>
    rw [← ih hdrop]
    exact (dropHeaders.eq_def ..).trans (if_pos hmem)
  | case5 bare e raw tokens hmem ih =>
    rw [← ih hdrop]
    exact (dropHeaders.eq_def ..).trans (if_pos hmem)
  | case7 bare e raw tokens hother hmem ih =>
    rw [← ih hdrop]
    -- Another name comes after the comma, so the header does not end there.
    obtain ⟨d, r, back, rfl⟩ := exists_word_of_dropHeaders hdrop
    exact (dropHeaders.eq_def ..).trans (if_pos hmem)
  | _ => simp at hdrop

/-- What comes after the headers is the rest of the file. -/
theorem suffix_of_dropHeaders {bare inside b : Bool} {tokens rest : List Token}
    (hdrop : dropHeaders bare inside tokens = some (b, rest)) : rest <:+ tokens := by
  fun_induction dropHeaders bare inside tokens with
  | case1 bare tokens ih => exact (ih hdrop).trans (List.suffix_append [_, _, _, _, _] tokens)
  | case2 bare tokens hother =>
    obtain ⟨rfl, rfl⟩ := Prod.mk.inj (Option.some.inj hdrop)
    exact List.suffix_rfl
  | case3 bare e raw tokens hmem ih => exact (ih hdrop).trans (List.suffix_append [_, _, _] tokens)
  | case5 bare e raw tokens hmem ih =>
    exact (ih hdrop).trans (List.suffix_append [_, _, _, _] tokens)
  | case7 bare e raw tokens hother hmem ih =>
    exact (ih hdrop).trans (List.suffix_append [_, _] tokens)
  | _ => simp at hdrop

/-! ## Files -/

/-- The tokens of a front that ends with a closed list are the first ones of the whole. -/
theorem Cuts.prefix_of_getLast? {front whole : List Token} (hcuts : Cuts front whole)
    (hlast : front.getLast? = some .closeSquare) : front <+: whole := by
  induction hcuts with
  | nil => simp at hlast
  | @cons t front whole hcuts ih =>
    refine List.cons_prefix_cons.2 ⟨rfl, ?_⟩
    cases front with
    | nil => exact List.nil_prefix
    | cons u front =>
      apply ih
      rwa [List.getLast?_cons_cons] at hlast
  | last hruns =>
    obtain rfl := Option.some.inj hlast
    exact absurd hruns id

namespace Value

/-- A value is read from the tokens behind the headers. -/
theorem exists_tokens_of_read? {bytes : List UInt8} {v : Value} (hread : read? bytes = some v) :
    ∃ tokens bare rest, Token.scan bytes = some tokens ∧
      dropHeaders false false tokens = some (bare, rest) ∧ ofTokens? bare rest = some v := by
  rw [read?] at hread
  split at hread
  · simp at hread
  · rename_i tokens hscan
    split at hread
    · rename_i bare rest hdrop
      exact ⟨tokens, bare, rest, hscan, hdrop, hread⟩
    · simp at hread

/-- Tokens of a list with tokens behind them spell nothing else. -/
theorem eq_of_ofTokens?_append {bare : Bool} {tokens more : List Token} {items : List Value}
    {v : Value} (hrun : State.run bare (.value []) tokens = some (.complete (.list items) []))
    (hmore : ofTokens? bare (tokens ++ more) = some v) : v = .list items := by
  obtain ⟨s, hwhole, hresult⟩ := exists_run_of_ofTokens? hmore
  rw [State.run_append, hrun, Option.bind_some] at hwhole
  cases more with
  | nil =>
    obtain rfl := Option.some.inj hwhole
    exact (Option.some.inj hresult).symm
  | cons t more =>
    rw [State.run_cons, State.step_complete_list] at hwhole
    simp at hwhole

/-- A file that starts with a list is read as the same list, if it is read at all. -/
theorem eq_of_read?_append {bytes more : List UInt8} {items : List Value} {v : Value}
    (hread : read? bytes = some (.list items)) (hmore : read? (bytes ++ more) = some v) :
    v = .list items := by
  obtain ⟨tokens, bare, rest, hscan, hdrop, hspells⟩ := exists_tokens_of_read? hread
  obtain ⟨whole, _, _, hwhole, hdropWhole, hspellsWhole⟩ := exists_tokens_of_read? hmore
  obtain ⟨s, hrun, hresult⟩ := exists_run_of_ofTokens? hspells
  obtain rfl := State.eq_complete_of_result? hresult
  -- The last token of the front is the bracket, so all its tokens are those of the whole.
  have hlast := State.getLast?_of_run hrun
  have hne : rest ≠ [] := by
    rintro rfl
    simp at hlast
  have hprefix : tokens <+: whole := by
    apply (cuts_of_scan hscan hwhole).prefix_of_getLast?
    obtain ⟨headers, rfl⟩ := suffix_of_dropHeaders hdrop
    rw [List.getLast?_append_of_ne_nil _ hne, hlast]
  obtain ⟨extra, rfl⟩ := hprefix
  -- The headers end where they end in the front.
  obtain ⟨t, back, rfl⟩ := List.exists_cons_of_ne_nil hne
  have ht : t ≠ .hash := by
    rintro rfl
    simp [State.step_value, State.start] at hrun
  rw [dropHeaders_append hdrop rfl ht extra] at hdropWhole
  obtain ⟨rfl, rfl⟩ := Prod.mk.inj (Option.some.inj hdropWhole)
  exact eq_of_ofTokens?_append hrun hspellsWhole

end Value

/-- A snapshot is read in two steps: the value of the file, and the types that it declares. -/
theorem ofSnapshot?_eq_bind (bytes : List UInt8) :
    Universe.ofSnapshot? bytes =
      (Value.read? bytes).bind fun v => (format.decls? v).map Universe.mk := by
  rw [Universe.ofSnapshot?]
  cases Value.read? bytes with
  | none => rfl
  | some v => rfl

/-- A snapshot with bytes behind it holds the same universe, if it holds one at all. -/
theorem eq_of_ofSnapshot?_append {bytes more : List UInt8} {u w : Universe}
    (hfront : Universe.ofSnapshot? bytes = some u)
    (hwhole : Universe.ofSnapshot? (bytes ++ more) = some w) : w = u := by
  rw [ofSnapshot?_eq_bind, Option.bind_eq_some_iff] at hfront hwhole
  obtain ⟨v, hread, hv⟩ := hfront
  obtain ⟨v', hread', hv'⟩ := hwhole
  obtain ⟨types, hdecls, rfl⟩ := Option.map_eq_some_iff.1 hv
  obtain ⟨items, rfl, -⟩ := decls?_eq_some_iff.1 hdecls
  obtain rfl := Value.eq_of_read?_append hread hread'
  exact Option.some.inj (hv'.symm.trans hv)

end TypeLint.Snapshot

namespace TypeLint.Universe

open Text

/-- What stands behind a document does not change what it means. Behind both forms of JSON documents
    only blanks can stand, and a snapshot with bytes behind it is the same one or none. -/
theorem same_of_appended (text more : String) (bytes extra : List UInt8) (u w : Universe) :
    (ofJsonList? text = some u →
      (ofJsonList? (text ++ more) = some w ↔ Json.IsBlanks more.toList ∧ w = u)) ∧
    (ofJson? text = some u →
      (ofJson? (text ++ more) = some w ↔ Json.IsBlanks more.toList ∧ w = u)) ∧
    (ofSnapshot? bytes = some u → ofSnapshot? (bytes ++ extra) = some w → w = u) :=
  ⟨Json.ofJsonList?_append_eq_some_iff, Json.ofJson?_append_eq_some_iff,
    Snapshot.eq_of_ofSnapshot?_append⟩

/-- Blanks behind a list, a bracket behind an array around it, and more of a comment behind a
    snapshot. -/
theorem same_of_appended_named_type :
    let u : Universe := ⟨[.ofKind ⟨"", "n"⟩ .map]⟩
    let file := utf8 "[(name:(name:\"n\"),kind:Map)]//"
    ofJsonList? ("[[[\"\",\"n\"],\"Map\"]]" ++ "\t\n") = some u ∧
      (∀ w, ofJson? ("[[[[\"\",\"n\"],\"Map\"]]]" ++ "]") ≠ some w) ∧
      ∃ w, ofSnapshot? (file ++ utf8 "[") = some w ∧ w = u := by
  intro u file
  have hlist : ofJsonList? "[[[\"\",\"n\"],\"Map\"]]" = some u := by decide +kernel
  have harray : ofJson? "[[[[\"\",\"n\"],\"Map\"]]]" = some u := by decide +kernel
  have hfile : ofSnapshot? file = some u := by decide +kernel
  have hmore : (ofSnapshot? (file ++ utf8 "[")).isSome := by decide +kernel
  refine ⟨?_, fun w hw => ?_, ?_⟩
  · exact ((same_of_appended _ "\t\n" [] [] u u).1 hlist).2 ⟨by simp [Json.IsBlanks], rfl⟩
  · have hblanks := (((same_of_appended _ "]" [] [] u w).2.1 harray).1 hw).1
    simp [Json.IsBlanks] at hblanks
  · obtain ⟨w, hw⟩ := Option.isSome_iff_exists.1 hmore
    exact ⟨w, hw, (same_of_appended "" "" file (utf8 "[") u w).2.2 hfile hw⟩

end TypeLint.Universe
