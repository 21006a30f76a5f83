import TypeLint.Proofs.Snapshot.Machine

/-!
# Brackets are balanced

The machine completes a value only when it has closed as many containers as it has opened. The
tokens of a value never close more than they have opened before, so only all of them together are
balanced.

## Main definitions

- `balance` — how many more containers tokens open than they close
- `State.height` — how many containers are open
- `Nested` — tokens that close what they open, and nothing else

## Main statements

- `State.height_run` — a run changes the height by the balance of its tokens
- `ofTokens?_of_unbalanced` — tokens that are not balanced spell nothing
- `nested_of_spells` — the tokens of a value are nested
-/

namespace TypeLint.Snapshot

/-- How many more containers are open after a token than before it. -/
def Token.turn : Token → Int
  | openRound | openSquare | openCurly => 1
  | closeRound | closeSquare | closeCurly => -1
  | unit | comma | colon | hash | bang | word .. | number _ | char _ | text _ => 0

/-- How many more containers tokens open than they close. -/
def balance : List Token → Int
  | [] => 0
  | t :: tokens => t.turn + balance tokens

@[simp] theorem balance_nil : balance [] = 0 := rfl

@[simp] theorem balance_cons (t : Token) (tokens : List Token) :
    balance (t :: tokens) = t.turn + balance tokens := rfl

/-- The balance of tokens adds up. -/
@[simp] theorem balance_append (front back : List Token) :
    balance (front ++ back) = balance front + balance back := by
  induction front with
  | nil => exact (Int.zero_add _).symm
  | cons t front ih => rw [List.cons_append, balance_cons, balance_cons, ih, Int.add_assoc]

/-! ## Open containers -/

/-- How many containers a frame stands for. A `Some` without parentheses is none. -/
def Frame.height : Frame → Int
  | bare => 0
  | list _ | tuple .. | record .. | key _ | entry .. | just => 1

/-- How many containers are open on a stack. -/
def stackHeight : List Frame → Int
  | [] => 0
  | frame :: stack => frame.height + stackHeight stack

@[simp] theorem stackHeight_nil : stackHeight [] = 0 := rfl

@[simp] theorem stackHeight_cons (frame : Frame) (stack : List Frame) :
    stackHeight (frame :: stack) = frame.height + stackHeight stack := rfl

namespace State

/-- How many containers are open. -/
def height : State → Int
  | value stack | content stack | complete _ stack => stackHeight stack
  | item _ stack | opened _ stack | first _ _ _ stack | place _ _ stack | field _ _ stack
  | colon _ _ _ stack | entry _ stack | closing _ stack => 1 + stackHeight stack

variable {bare : Bool} {s s' : State} {stack : List Frame} {t : Token}

theorem height_startWord (stack : List Frame) (name : String) (raw : Bool) :
    (startWord stack name raw).height = stackHeight stack := by
  simp only [startWord]
  split
  all_goals rfl

/-- The token that starts a value changes the height by its turn. -/
theorem height_start (hstart : start stack t = some s) :
    s.height = stackHeight stack + t.turn := by
  cases t with
  | word name raw =>
    obtain rfl := Option.some.inj hstart
    exact (height_startWord stack name raw).trans (Int.add_zero _).symm
  | openSquare | openRound | openCurly =>
    obtain rfl := Option.some.inj hstart
    exact Int.add_comm _ _
  | number | char | text | unit =>
    obtain rfl := Option.some.inj hstart
    exact (Int.add_zero _).symm
  | _ => simp [start] at hstart

theorem stackHeight_settle (v : Value) (stack : List Frame) :
    stackHeight (settle v stack).2 = stackHeight stack := by
  fun_induction settle v stack with
  | case1 v stack ih => simp [ih, Frame.height]
  | case2 => rfl

theorem height_finish {v : Value} (hfinish : finish v stack t = some s) :
    s.height = stackHeight stack + t.turn := by
  unfold finish at hfinish
  split at hfinish
  case h_12 => simp at hfinish
  all_goals
    obtain rfl := Option.some.inj hfinish
    simp only [height, stackHeight_cons, Frame.height, Token.turn]
    omega

/-- Whatever the machine is waiting for, a token changes the height by its turn. -/
theorem height_advance (hadvance : advance bare s t = some s') :
    s'.height = s.height + t.turn := by
  unfold advance at hadvance
  split at hadvance
  -- The machine has no use for the token.
  case h_3 | h_21 => simp at hadvance
  -- A value has been completed before the token.
  case h_20 => rw [height_finish hadvance, stackHeight_settle, height]
  -- A value starts as the content of a bare `Some`.
  case h_4 =>
    have hstart := height_start (Option.ite_none_right_eq_some.1 hadvance).2
    simp only [height, stackHeight_cons, Frame.height] at hstart ⊢
    omega
  -- A value starts in a container, or as the whole.
  case h_1 | h_6 | h_9 | h_11 | h_16 =>
    have hstart := height_start hadvance
    simp only [height, stackHeight_cons, Frame.height] at hstart ⊢
    omega
  -- The next state is given at once.
  all_goals
    obtain rfl := Option.some.inj hadvance
    simp only [height, stackHeight_cons, Frame.height, Token.turn]
    omega

/-- A token changes the number of open containers by its turn. -/
theorem height_step (hstep : step bare s t = some s') : s'.height = s.height + t.turn := by
  unfold step at hstep
  split at hstep
  · obtain rfl := Option.some.inj hstep
    simp only [height, stackHeight_cons, Frame.height, Token.turn]
    omega
  · -- The word that was undecided is the first item of a tuple.
    obtain ⟨mid, hstart, hadvance⟩ := Option.bind_eq_some_iff.1 hstep
    have hmid := height_start hstart
    simp only [stackHeight_cons, Frame.height, Token.turn, Int.add_zero] at hmid
    rw [height_advance hadvance, hmid, height]
  · exact height_advance hstep

/-- A run changes the number of open containers by the balance of its tokens. -/
theorem height_run {tokens : List Token} (hrun : run bare s tokens = some s') :
    s'.height = s.height + balance tokens := by
  induction tokens generalizing s with
  | nil =>
    obtain rfl := Option.some.inj hrun
    simp
  | cons t tokens ih =>
    rw [run_cons, Option.bind_eq_some_iff] at hrun
    obtain ⟨next, hstep, hrun⟩ := hrun
    rw [ih hrun, height_step hstep, balance_cons, Int.add_assoc]

/-- No container is open when the machine has a result. -/
theorem height_of_result {v : Value} (hresult : s.result? = some v) : s.height = 0 := by
  cases s with
  | complete w stack =>
    have hsettle := stackHeight_settle w stack
    simp only [result?] at hresult
    split at hresult
    · rename_i heq
      rw [heq] at hsettle
      exact hsettle.symm
    · simp at hresult
  | _ => simp [result?] at hresult

end State

/-- Tokens that are not balanced spell nothing. -/
theorem ofTokens?_of_unbalanced {tokens : List Token} (hbalance : balance tokens ≠ 0)
    (bare : Bool) : Value.ofTokens? bare tokens = none := by
  rw [Option.eq_none_iff_forall_ne_some]
  intro v hv
  obtain ⟨s, hrun, hresult⟩ := Value.exists_run_of_ofTokens? hv
  have hheight := State.height_run hrun
  rw [State.height_of_result hresult] at hheight
  exact hbalance (by simpa [State.height] using hheight.symm)

/-! ## Nested tokens -/

/-- Tokens that close what they open, and nothing else. -/
structure Nested (tokens : List Token) : Prop where
  balance_eq : balance tokens = 0
  balance_front : ∀ front, front <+: tokens → 0 ≤ balance front

theorem nested_nil : Nested [] :=
  ⟨rfl, fun front hfront => by simp [List.prefix_nil.1 hfront]⟩

/-- Tokens in front of nested ones that are no brackets. -/
theorem Nested.cons {t : Token} {tokens : List Token} (ht : t.turn = 0) (hnested : Nested tokens) :
    Nested (t :: tokens) := by
  refine ⟨by rw [balance_cons, ht, hnested.balance_eq]; rfl, fun front hfront => ?_⟩
  rcases List.prefix_cons_iff.1 hfront with rfl | ⟨rest, rfl, hrest⟩
  · exact Int.le_refl 0
  · have := hnested.balance_front rest hrest
    rw [balance_cons, ht]
    omega

/-- Nested tokens one after the other are nested. -/
theorem Nested.append {tokens more : List Token} (hnested : Nested tokens) (hmore : Nested more) :
    Nested (tokens ++ more) := by
  refine ⟨by rw [balance_append, hnested.balance_eq, hmore.balance_eq]; rfl, fun front hfront => ?_⟩
  rcases List.prefix_or_prefix_of_prefix hfront (List.prefix_append tokens more) with
    hfront' | ⟨back, rfl⟩
  · exact hnested.balance_front front hfront'
  · have hback := hmore.balance_front back ((List.prefix_append_right_inj tokens).1 hfront)
    rw [balance_append, hnested.balance_eq]
    omega

/-- Nested tokens in brackets. -/
theorem Nested.wrap {o c : Token} {tokens : List Token} (hnested : Nested tokens)
    (ho : o.turn = 1) (hc : c.turn = -1) : Nested (o :: tokens ++ [c]) := by
  refine ⟨by simp [hnested.balance_eq, ho, hc], fun front hfront => ?_⟩
  rcases List.prefix_concat_iff.1 hfront with rfl | hfront
  · simp [hnested.balance_eq, ho, hc]
  · rcases List.prefix_cons_iff.1 hfront with rfl | ⟨rest, rfl, hrest⟩
    · exact Int.le_refl 0
    · have := hnested.balance_front rest hrest
      rw [balance_cons, ho]
      omega

theorem nested_of_comma {comma : List Token} (hcomma : IsOptionalComma comma) : Nested comma := by
  rcases hcomma with rfl | rfl
  · exact nested_nil
  · exact .cons rfl nested_nil

/-- A name in front of nested tokens keeps them nested. -/
theorem Nested.behind_name {front tokens : List Token} {name : Option String}
    (hnested : Nested tokens) (hname : SpellsName front name) : Nested (front ++ tokens) := by
  cases hname with
  | none => exact hnested
  | some _ => exact .cons rfl hnested

mutual

/-- The tokens of a value are nested. -/
theorem nested_of_spells {tokens : List Token} {v : Value} : SpellsValue tokens v → Nested tokens
  | .unit | .truth | .falsehood | .number | .infinity | .notANumber | .char | .text | .word _
  | .nothing => .cons rfl nested_nil
  | .namedUnit _ => .cons rfl (.cons rfl nested_nil)
  | .emptyList => nested_nil.wrap rfl rfl
  | .emptyMap => nested_nil.wrap rfl rfl
  | .emptyTuple hname => (nested_nil.wrap rfl rfl).behind_name hname
  | .just hv hcomma => by
    have hinner := (nested_of_spells hv).append (nested_of_comma hcomma)
    exact .cons rfl (hinner.wrap rfl rfl)
  | .list hitems hcomma =>
    ((nested_of_items hitems).append (nested_of_comma hcomma)).wrap rfl rfl
  | .tuple hname hitems hcomma => by
    have hinner := (nested_of_items hitems).append (nested_of_comma hcomma)
    simpa using (hinner.wrap rfl rfl).behind_name hname
  | .record hname hfields hcomma => by
    have hinner := (nested_of_fields hfields).append (nested_of_comma hcomma)
    simpa using (hinner.wrap rfl rfl).behind_name hname
  | .map hentries hcomma =>
    ((nested_of_entries hentries).append (nested_of_comma hcomma)).wrap rfl rfl

theorem nested_of_items {tokens : List Token} {items : List Value} :
    SpellsItems tokens items → Nested tokens
  | .last hv => nested_of_spells hv
  | .more hv hitems => (nested_of_spells hv).append (.cons rfl (nested_of_items hitems))

theorem nested_of_fields {tokens : List Token} {fields : List (String × Value)} :
    SpellsFields tokens fields → Nested tokens
  | .last hv => .cons rfl (.cons rfl (nested_of_spells hv))
  | .more hv hfields =>
    .cons rfl (.cons rfl ((nested_of_spells hv).append (.cons rfl (nested_of_fields hfields))))

theorem nested_of_entries {tokens : List Token} {entries : List (Value × Value)} :
    SpellsEntries tokens entries → Nested tokens
  | .last hk hv => (nested_of_spells hk).append (.cons rfl (nested_of_spells hv))
  | .more hk hv hentries => by
    have hentry := (nested_of_spells hk).append (.cons (t := .colon) rfl (nested_of_spells hv))
    exact hentry.append (.cons rfl (nested_of_entries hentries))

end

/-- A list is in square brackets, and what is between them is nested. -/
theorem exists_inner_of_spells_list {tokens : List Token} {items : List Value}
    (hspells : SpellsValue tokens (.list items)) :
    ∃ inner, tokens = .openSquare :: inner ++ [.closeSquare] ∧ Nested inner := by
  cases hspells with
  | emptyList => exact ⟨[], rfl, nested_nil⟩
  | list hitems hcomma =>
    exact ⟨_, rfl, (nested_of_items hitems).append (nested_of_comma hcomma)⟩

end TypeLint.Snapshot
