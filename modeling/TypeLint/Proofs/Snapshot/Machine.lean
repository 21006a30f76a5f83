import TypeLint.Proofs.Snapshot.Scan

/-!
# The machine reads what the grammar spells

The tokens of a value take the machine from waiting for the value to its completion, whatever
containers are open around it. The headers in front are dropped, and so a file that spells a value
is read as that value, unless the value nests too deep.

## Main statements

- `State.run_of_spells` — the tokens of a value complete the value
- `dropHeaders_of_spells` — headers are dropped
- `Value.read?_of_spells` — a file that spells a value
-/

namespace TypeLint.Snapshot

/-! ## Runs of the machine -/

namespace State

/-- What tokens do to the machine, one after the other. -/
def run (bare : Bool) (s : State) (tokens : List Token) : Option State :=
  tokens.foldlM (step bare) s

variable {bare : Bool} {s : State} {stack : List Frame}

@[simp] theorem run_nil : run bare s [] = some s := rfl

@[simp] theorem run_cons (t : Token) (tokens : List Token) :
    run bare s (t :: tokens) = (step bare s t).bind fun s => run bare s tokens := rfl

/-- A run can be cut anywhere. -/
theorem run_append (front back : List Token) :
    run bare s (front ++ back) = (run bare s front).bind fun s => run bare s back := by
  simp only [run, List.foldlM_append]
  rfl

theorem step_value (t : Token) : step bare (value stack) t = start stack t := rfl

/-- A word that stands for itself is a value, or the name of one. -/
theorem start_word {name : String} {raw : Bool} (hfree : IsFree name raw) :
    start stack (.word name raw) = some (complete (.word name) stack) := by
  rw [start, Option.some.injEq]
  simp only [startWord]
  split
  case h_7 => rfl
  all_goals
    rcases hfree with hraw | hname
    · simp at hraw
    · simp [reservedWords] at hname

/-- A word does not leave the machine undecided where a value has to come, and neither does any
    other token. -/
theorem start_ne_first {t : Token} {name : Option String} {word : String} {raw : Bool}
    {rest : List Frame} : start stack t ≠ some (first name word raw rest) := by
  cases t with
  | word name raw =>
    rw [start, ne_eq, Option.some.injEq]
    simp only [startWord]
    split <;> simp
  | _ => simp [start]

/-- The machine decides on a word as soon as it has to come as a value. -/
theorem step_of_start {t u : Token} (hstart : start stack t = some s) :
    step bare s u = advance bare s u := by
  cases s with
  | first name word raw rest => exact absurd hstart start_ne_first
  | _ => rfl

end State

/-! ## The first token of a value -/

/-- The token may be the first one of a value. -/
def Token.Starts : Token → Prop
  | closeRound | closeSquare | closeCurly | comma | colon | hash | bang => False
  | _ => True

/-- The tokens may be those of a value: the first one can start it, and if that is a word, then no
    colon comes after it. -/
def OpensValue (tokens : List Token) : Prop :=
  ∃ t rest, tokens = t :: rest ∧ t.Starts ∧
    ∀ name raw, t = .word name raw → rest.head? ≠ some .colon

theorem OpensValue.append {tokens : List Token} (hopens : OpensValue tokens) {t : Token}
    (ht : t ≠ .colon) (rest : List Token) : OpensValue (tokens ++ t :: rest) := by
  obtain ⟨u, back, rfl, hstarts, hword⟩ := hopens
  refine ⟨u, back ++ t :: rest, rfl, hstarts, fun name raw hu => ?_⟩
  have hback := hword name raw hu
  cases back with
  | nil => simpa using ht
  | cons _ _ => simpa using hback

/-- Parentheses with or without a name in front open a value. -/
theorem opensValue_round {front : List Token} {name : Option String} (hname : SpellsName front name)
    (rest : List Token) : OpensValue (front ++ .openRound :: rest) := by
  cases hname with
  | none => exact ⟨_, _, rfl, trivial, by simp⟩
  | some _ => exact ⟨_, _, rfl, trivial, by simp⟩

theorem opensValue_of_spells {tokens : List Token} {v : Value} (hspells : SpellsValue tokens v) :
    OpensValue tokens := by
  cases hspells with
  | emptyTuple hname => exact opensValue_round hname _
  | tuple hname =>
    simpa only [List.append_assoc, List.cons_append] using opensValue_round hname _
  | record hname =>
    simpa only [List.append_assoc, List.cons_append] using opensValue_round hname _
  | _ => exact ⟨_, _, rfl, trivial, by simp⟩

namespace State

variable {bare : Bool} {stack : List Frame}

theorem step_item {t : Token} (hstarts : t.Starts) (done : List Value) :
    step bare (item done stack) t = start (.list done :: stack) t := by
  cases t with
  | closeSquare => exact absurd hstarts id
  | _ => rfl

theorem step_place {t : Token} (hstarts : t.Starts) (name : Option String) (done : List Value) :
    step bare (place name done stack) t = start (.tuple name done :: stack) t := by
  cases t with
  | closeRound => exact absurd hstarts id
  | _ => rfl

theorem step_entry {t : Token} (hstarts : t.Starts) (done : List (Value × Value)) :
    step bare (entry done stack) t = start (.key done :: stack) t := by
  cases t with
  | closeCurly => exact absurd hstarts id
  | _ => rfl

/-- Where a value may come right after a parenthesis, its first word is not decided at once. Since
    no colon comes after the word, the machine ends up where it would without waiting. -/
theorem run_opened {tokens : List Token} (hopens : OpensValue tokens) (name : Option String)
    {t : Token} (ht : t ≠ .colon) (rest : List Token) :
    run bare (opened name stack) (tokens ++ t :: rest) =
      run bare (place name [] stack) (tokens ++ t :: rest) := by
  obtain ⟨u, back, htokens, hstarts, hword⟩ := hopens.append ht rest
  rw [htokens, run_cons, run_cons, step_place hstarts]
  cases u with
  | word w raw =>
    have hback := hword w raw rfl
    cases back with
    | nil =>
      -- The value has a token of its own in front of `t`.
      have := congrArg List.length htokens
      obtain ⟨_, _, rfl, -, -⟩ := hopens
      simp at this
    | cons b back =>
      have hcolon : b ≠ .colon := by simpa using hback
      change (step bare (first name w raw stack) b).bind _ = _
      have hfirst : step bare (first name w raw stack) b =
          (start (.tuple name [] :: stack) (.word w raw)).bind fun s => advance bare s b := by
        cases b with
        | colon => exact absurd rfl hcolon
        | _ => rfl
      rw [hfirst, Option.bind_assoc]
      refine Option.bind_congr fun s hs => ?_
      rw [run_cons, step_of_start hs]
      rfl
  | closeRound => exact absurd hstarts id
  | _ => rfl

end State

/-! ## Containers -/

namespace State

/-- How the machine passes through a container: `next` waits for another part, `mid` has just
    completed one, and `close` ends the container, whose value is `wrap` of the parts. -/
structure Passes {α : Type} (bare : Bool) (stack : List Frame) (close : Token)
    (next : List α → State) (mid : List α → α → State) (wrap : List α → Value) : Prop where
  comma : ∀ done a, step bare (mid done a) .comma = some (next (a :: done))
  close_mid : ∀ done a,
    step bare (mid done a) close = some (complete (wrap (a :: done).reverse) stack)
  close_next : ∀ done, step bare (next done) close = some (complete (wrap done.reverse) stack)

namespace Passes

variable {α : Type} {bare : Bool} {stack : List Frame} {close : Token} {next : List α → State}
  {mid : List α → α → State} {wrap : List α → Value}

/-- The last part, with or without a comma after it. -/
theorem run_last (hpasses : Passes bare stack close next mid wrap) {done : List α} {a : α}
    {tokens comma : List Token} (hpart : run bare (next done) tokens = some (mid done a))
    (hcomma : IsOptionalComma comma) :
    run bare (next done) (tokens ++ (comma ++ [close])) =
      some (complete (wrap (done.reverse ++ [a])) stack) := by
  rw [run_append, hpart, Option.bind_some]
  rcases hcomma with rfl | rfl
  · rw [List.nil_append, run_cons, hpasses.close_mid, Option.bind_some, run_nil,
      List.reverse_cons]
  · rw [List.singleton_append, run_cons, hpasses.comma, Option.bind_some, run_cons,
      hpasses.close_next, Option.bind_some, run_nil, List.reverse_cons]

/-- A part with more parts after it. -/
theorem run_more (hpasses : Passes bare stack close next mid wrap) {done : List α} {a : α}
    {tokens : List Token} (hpart : run bare (next done) tokens = some (mid done a))
    (rest : List Token) :
    run bare (next done) (tokens ++ .comma :: rest) = run bare (next (a :: done)) rest := by
  rw [run_append, hpart, Option.bind_some, run_cons, hpasses.comma, Option.bind_some]

end Passes

variable {bare : Bool} {stack : List Frame}

theorem passes_list : Passes bare stack .closeSquare (item · stack)
    (fun done v => complete v (.list done :: stack)) Value.list :=
  ⟨fun _ v => by cases v <;> rfl, fun _ v => by cases v <;> rfl, fun _ => rfl⟩

theorem passes_tuple (name : Option String) : Passes bare stack .closeRound (place name · stack)
    (fun done v => complete v (.tuple name done :: stack)) (Value.tuple name) :=
  ⟨fun _ v => by cases v <;> rfl, fun _ v => by cases v <;> rfl, fun _ => rfl⟩

theorem passes_record (name : Option String) : Passes bare stack .closeRound (field name · stack)
    (fun done fv => complete fv.2 (.record name done fv.1 :: stack)) (Value.record name) :=
  ⟨fun _ fv => by cases fv with | mk f v => cases v <;> rfl,
    fun _ fv => by cases fv with | mk f v => cases v <;> rfl, fun _ => rfl⟩

theorem passes_map : Passes bare stack .closeCurly (entry · stack)
    (fun done kv => complete kv.2 (.entry done kv.1 :: stack)) Value.map :=
  ⟨fun _ kv => by cases kv with | mk k v => cases v <;> rfl,
    fun _ kv => by cases kv with | mk k v => cases v <;> rfl, fun _ => rfl⟩

/-- Where another part may come, the tokens of a value do what they do where it has to. -/
theorem run_of_opens {s : State} {tokens : List Token} (hopens : OpensValue tokens)
    (hstep : ∀ t : Token, t.Starts → step bare s t = start stack t) :
    run bare s tokens = run bare (value stack) tokens := by
  obtain ⟨t, rest, rfl, hstarts, -⟩ := hopens
  rw [run_cons, run_cons, hstep t hstarts]
  rfl

/-- A parenthesis opens a tuple or record, with the name in front of it. -/
theorem run_name {front : List Token} {name : Option String} (hname : SpellsName front name)
    (rest : List Token) :
    run bare (value stack) (front ++ .openRound :: rest) = run bare (opened name stack) rest := by
  cases hname with
  | none => rfl
  | some hfree =>
    rw [List.singleton_append, run_cons, step_value, start_word hfree]
    rfl

/-- Items right after a parenthesis are read as they are after a comma. -/
theorem run_opened_items {tokens comma : List Token} {items : List Value}
    (hitems : SpellsItems tokens items) (hcomma : IsOptionalComma comma) (name : Option String) :
    run bare (opened name stack) (tokens ++ (comma ++ [.closeRound])) =
      run bare (place name [] stack) (tokens ++ (comma ++ [.closeRound])) := by
  cases hitems with
  | last hv =>
    rcases hcomma with rfl | rfl
    · exact run_opened (opensValue_of_spells hv) name (by simp) _
    · exact run_opened (opensValue_of_spells hv) name (by simp) _
  | more hv =>
    rw [List.append_assoc]
    exact run_opened (opensValue_of_spells hv) name (by simp) _

/-- Fields right after a parenthesis are read as they are after a comma. -/
theorem run_opened_fields {tokens : List Token} {fields : List (String × Value)}
    (hfields : SpellsFields tokens fields) (name : Option String) (rest : List Token) :
    run bare (opened name stack) (tokens ++ rest) =
      run bare (field name [] stack) (tokens ++ rest) := by
  cases hfields with
  | last => rfl
  | more => rfl

/-- The tokens of an entry are those of its key, a colon, and those of its value. -/
theorem run_entry {key tokens : List Token} {k v : Value} {done : List (Value × Value)}
    (hopens : OpensValue key)
    (hkey : run bare (value (.key done :: stack)) key = some (complete k (.key done :: stack)))
    (hvalue : run bare (value (.entry done k :: stack)) tokens =
      some (complete v (.entry done k :: stack))) :
    run bare (entry done stack) (key ++ .colon :: tokens) =
      some (complete v (.entry done k :: stack)) := by
  have hcolon : step bare (complete k (.key done :: stack)) .colon =
      some (value (.entry done k :: stack)) := by
    cases k <;> rfl
  rw [run_append, run_of_opens hopens fun t ht => step_entry ht done, hkey, Option.bind_some,
    run_cons, hcolon, Option.bind_some, hvalue]

/-! ## Values -/

mutual

/-- The tokens of a value complete the value. -/
theorem run_of_spells {bare : Bool} {tokens : List Token} {v : Value} :
    SpellsValue tokens v → ∀ stack, run bare (value stack) tokens = some (complete v stack)
  | .unit | .truth | .falsehood | .number | .infinity | .notANumber | .char | .text | .nothing
  | .emptyList | .emptyMap => fun _ => rfl
  | .word hfree => fun stack => by
    rw [run_cons, step_value, start_word hfree]
    rfl
  | .namedUnit hfree => fun stack => by
    rw [run_cons, step_value, start_word hfree]
    rfl
  | .just (v := v) hv hcomma => fun stack => by
    simp only [List.cons_append, List.append_assoc]
    change run bare (value (.just :: stack)) _ = _
    rw [run_append, run_of_spells hv]
    rcases hcomma with rfl | rfl <;> cases v <;> rfl
  | .list hitems hcomma => fun stack => by
    simp only [List.cons_append, List.append_assoc]
    exact run_of_items hitems hcomma passes_list (fun _ ht done => step_item ht done) []
  | .emptyTuple hname => fun stack => run_name hname _
  | .tuple hname hitems hcomma => fun stack => by
    simp only [List.cons_append, List.append_assoc]
    rw [run_name hname, run_opened_items hitems hcomma]
    exact run_of_items hitems hcomma (passes_tuple _) (fun _ ht done => step_place ht _ done) []
  | .record hname hfields hcomma => fun stack => by
    simp only [List.cons_append, List.append_assoc]
    rw [run_name hname, run_opened_fields hfields]
    exact run_of_fields hfields hcomma _ stack []
  | .map hentries hcomma => fun stack => by
    simp only [List.cons_append, List.append_assoc]
    exact run_of_entries hentries hcomma stack []

/-- Items with their closing complete the list or tuple they are in. -/
theorem run_of_items {bare : Bool} {tokens comma : List Token} {items : List Value} :
    SpellsItems tokens items → IsOptionalComma comma →
    ∀ {stack : List Frame} {close : Token} {next : List Value → State}
      {frame : List Value → Frame} {wrap : List Value → Value},
      Passes bare stack close next (fun done v => complete v (frame done :: stack)) wrap →
      (∀ t : Token, t.Starts → ∀ done, step bare (next done) t = start (frame done :: stack) t) →
      ∀ done, run bare (next done) (tokens ++ (comma ++ [close])) =
        some (complete (wrap (done.reverse ++ items)) stack)
  | .last hv, hcomma, _, _, _, _, _, hpasses, hstarts, done => by
    have hopens := run_of_opens (opensValue_of_spells hv) fun t ht => hstarts t ht done
    exact hpasses.run_last (hopens.trans (run_of_spells hv _)) hcomma
  | .more hv hitems, hcomma, _, _, _, _, _, hpasses, hstarts, done => by
    have hopens := run_of_opens (opensValue_of_spells hv) fun t ht => hstarts t ht done
    rw [List.append_assoc, List.cons_append, hpasses.run_more (hopens.trans (run_of_spells hv _)),
      run_of_items hitems hcomma hpasses hstarts]
    simp

/-- Fields with their closing complete the record they are in. -/
theorem run_of_fields {bare : Bool} {tokens comma : List Token} {fields : List (String × Value)} :
    SpellsFields tokens fields → IsOptionalComma comma →
    ∀ name stack done, run bare (field name done stack) (tokens ++ (comma ++ [.closeRound])) =
      some (complete (.record name (done.reverse ++ fields)) stack)
  | .last hv, hcomma, name, _, _ =>
    (passes_record name).run_last (run_of_spells hv _) hcomma
  | @SpellsFields.more tokens rest f raw v _ hv hfields, hcomma, name, stack, done => by
    have hpart : run bare (field name done stack) (.word f raw :: .colon :: tokens) =
        some (complete v (.record name done f :: stack)) := run_of_spells hv _
    have hmore :=
      (passes_record name).run_more (a := (f, v)) hpart (rest ++ (comma ++ [.closeRound]))
    simp only [List.cons_append, List.append_assoc] at hmore ⊢
    rw [hmore, run_of_fields hfields hcomma]
    simp

/-- Entries with their closing complete the map they are in. -/
theorem run_of_entries {bare : Bool} {tokens comma : List Token} {entries : List (Value × Value)} :
    SpellsEntries tokens entries → IsOptionalComma comma →
    ∀ stack done, run bare (entry done stack) (tokens ++ (comma ++ [.closeCurly])) =
      some (complete (.map (done.reverse ++ entries)) stack)
  | .last (k := k) (v := v) hk hv, hcomma, stack, done =>
    passes_map.run_last (a := (k, v))
      (run_entry (opensValue_of_spells hk) (run_of_spells hk _) (run_of_spells hv _)) hcomma
  | .more (k := k) (v := v) hk hv hentries, hcomma, stack, done => by
    have hkey : run bare _ _ = _ := run_of_spells hk (.key done :: stack)
    have hpart := run_entry (opensValue_of_spells hk) hkey (run_of_spells hv _)
    rw [List.append_assoc, List.cons_append, passes_map.run_more (a := (k, v)) hpart,
      run_of_entries hentries hcomma]
    simp

end

end State

/-! ## Headers and files -/

/-- The names of extensions end the header they are in. -/
theorem dropHeaders_of_extensions {names comma : List Token} (hnames : SpellsExtensions names)
    (hcomma : IsOptionalComma comma) (bare : Bool) (rest : List Token) :
    ∃ b, dropHeaders bare true (names ++ (comma ++ .closeRound :: .closeSquare :: rest)) =
      dropHeaders b false rest := by
  induction hnames generalizing bare with
  | @last e raw hmem =>
    refine ⟨bare || e == bareSome, ?_⟩
    rcases hcomma with rfl | rfl
    · exact (dropHeaders.eq_def ..).trans (if_pos hmem)
    · exact (dropHeaders.eq_def ..).trans (if_pos hmem)
  | @more e raw names hmem hnames ih =>
    obtain ⟨b, hb⟩ := ih (bare || e == bareSome)
    refine ⟨b, hb ▸ ?_⟩
    cases hnames with
    | last => exact (dropHeaders.eq_def ..).trans (if_pos hmem)
    | more => exact (dropHeaders.eq_def ..).trans (if_pos hmem)

/-- Headers are dropped from the front of a value. -/
theorem dropHeaders_of_spells {headers tokens : List Token} (hheaders : SpellsHeaders headers)
    (hopens : OpensValue tokens) (bare : Bool) :
    ∃ b, dropHeaders bare false (headers ++ tokens) = some (b, tokens) := by
  induction hheaders generalizing bare with
  | none =>
    obtain ⟨t, rest, rfl, hstarts, -⟩ := hopens
    refine ⟨bare, ?_⟩
    cases t with
    | hash => exact absurd hstarts id
    | _ => exact dropHeaders.eq_def ..
  | more hnames hcomma _ ih =>
    obtain ⟨b, hb⟩ := dropHeaders_of_extensions hnames hcomma bare (_ ++ tokens)
    obtain ⟨c, hc⟩ := ih b
    refine ⟨c, ?_⟩
    simp only [List.cons_append, List.append_assoc]
    rw [dropHeaders]
    rw [hb, hc]

namespace Value

/-- Tokens that are read as a value are taken by the machine, and it has that result then. -/
theorem exists_run_of_ofTokens? {bare : Bool} {tokens : List Token} {v : Value}
    (hread : ofTokens? bare tokens = some v) :
    ∃ s, State.run bare (.value []) tokens = some s ∧ s.result? = some v := by
  rw [ofTokens?] at hread
  split at hread
  · rename_i s hrun
    exact ⟨s, hrun, (Option.filter_eq_some_iff.1 hread).1⟩
  · simp at hread

/-- A file that spells a value is read as that value, unless the value nests too deep. -/
theorem read?_of_spells {file : List UInt8} {v : Value} (hspells : SpellsFile file v) :
    read? file = if v.depth ≤ depthLimit then some v else none := by
  obtain ⟨headers, tokens, htokens, hheaders, hv⟩ := hspells
  obtain ⟨bare, hdrop⟩ := dropHeaders_of_spells hheaders (opensValue_of_spells hv) false
  have hrun : tokens.foldlM (State.step bare) (.value []) = some (.complete v []) :=
    State.run_of_spells hv []
  have hresult : (State.complete v []).result? = some v := rfl
  simp only [read?, scan_of_spells htokens, hdrop, ofTokens?, hrun, hresult, Option.filter,
    fits_iff]

end Value

end TypeLint.Snapshot
