import TypeLint.Json.Value

/-!
# The machine and the tokens of values

The tokens of a value take the machine from waiting for the value to its completion. In the other
direction a state determines the tokens that led to it, because the stack keeps everything that has
been read. So tokens are read as a value exactly when they are its tokens.

## Main definitions

- `State.consumed` — the tokens that lead to a state

## Main statements

- `State.run_tokens` — the tokens of a value complete the value
- `State.consumed_step` — a step consumes its token
- `Value.ofTokens?_eq_some_iff` — the two directions together
-/

namespace TypeLint.Json

namespace State

/-- What tokens do to the machine, one after the other. -/
def run (s : State) (tokens : List Token) : Option State :=
  tokens.foldlM step s

@[simp] theorem run_nil (s : State) : run s [] = some s := rfl

@[simp] theorem run_cons (s : State) (t : Token) (tokens : List Token) :
    run s (t :: tokens) = (step s t).bind fun s => run s tokens := rfl

/-- A run can be cut anywhere. -/
theorem run_append (s : State) (front back : List Token) :
    run s (front ++ back) = (run s front).bind fun s => run s back := by
  simp only [run, List.foldlM_append]
  rfl

/-! ## The tokens of a value are read -/

/-- No value starts with the token that closes an array. -/
theorem tokens_eq_cons (v : Value) : ∃ t rest, v.tokens = t :: rest ∧
    ∀ stack, step (opened stack) t = start (.array [] :: stack) t := by
  cases v with
  | array items => exact ⟨_, _, by rw [Value.tokens, List.cons_append], fun _ => rfl⟩
  | object fields => exact ⟨_, _, by rw [Value.tokens, List.cons_append], fun _ => rfl⟩
  | _ => exact ⟨_, _, by rw [Value.tokens], fun _ => rfl⟩

/-- The first item of an array is read like any other. -/
theorem run_opened (v : Value) (stack : List Frame) (rest : List Token) :
    run (opened stack) (v.tokens ++ rest) =
      run (value (.array [] :: stack)) (v.tokens ++ rest) := by
  obtain ⟨t, back, htokens, hstep⟩ := tokens_eq_cons v
  rw [htokens, List.cons_append, run_cons, run_cons, hstep]
  rfl

mutual

/-- The tokens of a value complete the value. -/
theorem run_tokens : (v : Value) → ∀ stack, run (value stack) v.tokens = some (complete v stack)
  | .null | .bool _ | .number _ | .string _ => fun _ => rfl
  | .array [] | .object [] => fun _ => rfl
  | .array (v :: items) => fun stack => by
    have hopened : run (opened stack) (Value.itemTokens (v :: items) ++ [.closeBracket]) =
        run (value (.array [] :: stack)) (Value.itemTokens (v :: items) ++ [.closeBracket]) := by
      cases items with
      | nil => exact run_opened v stack _
      | cons w items =>
        rw [Value.itemTokens, List.append_assoc]
        · exact run_opened v stack _
        · simp
    rw [Value.tokens, List.cons_append]
    exact hopened.trans (run_itemTokens (v :: items) (by simp) [] stack)
  | .object ((k, v) :: fields) => fun stack => by
    have hopened :
        run (openedObject stack) (Value.fieldTokens ((k, v) :: fields) ++ [.closeBrace]) =
          run (key [] stack) (Value.fieldTokens ((k, v) :: fields) ++ [.closeBrace]) := by
      cases fields <;> rfl
    rw [Value.tokens, List.cons_append]
    exact hopened.trans (run_fieldTokens ((k, v) :: fields) (by simp) [] stack)

/-- Items with the closing bracket complete the array they are in. -/
theorem run_itemTokens : (items : List Value) → items ≠ [] → ∀ done stack,
    run (value (.array done :: stack)) (Value.itemTokens items ++ [.closeBracket]) =
      some (complete (.array (done.reverse ++ items)) stack)
  | [], hne => absurd rfl hne
  | [v], _ => fun done stack => by
    rw [Value.itemTokens, run_append, run_tokens v]
    simp [step]
  | v :: w :: items, _ => fun done stack => by
    rw [Value.itemTokens, List.append_assoc, run_append, run_tokens v]
    · have ih := run_itemTokens (w :: items) (by simp) (v :: done) stack
      rw [List.reverse_cons, List.append_assoc] at ih
      exact ih
    · simp

/-- Fields with the closing brace complete the object they are in. -/
theorem run_fieldTokens : (fields : List (Option String × Value)) → fields ≠ [] → ∀ done stack,
    run (key done stack) (Value.fieldTokens fields ++ [.closeBrace]) =
      some (complete (.object (done.reverse ++ fields)) stack)
  | [], hne => absurd rfl hne
  | [(k, v)], _ => fun done stack => by
    change run (value (.object done k :: stack)) (v.tokens ++ _) = _
    rw [run_append, run_tokens v]
    simp [step]
  | (k, v) :: kw :: fields, _ => fun done stack => by
    have ih := run_fieldTokens (kw :: fields) (by simp) ((k, v) :: done) stack
    rw [List.reverse_cons, List.append_assoc] at ih
    rw [Value.fieldTokens, List.append_assoc]
    · change run (value (.object done k :: stack)) (v.tokens ++ _) = _
      rw [run_append, run_tokens v]
      exact ih
    · simp

end

end State

/-! ## What has been read -/

/-- The tokens of items, with a comma after each of them. The latest comes first in the list. -/
def listedItems (done : List Value) : List Token :=
  done.reverse.flatMap fun v => v.tokens ++ [.comma]

/-- The tokens of fields, with a comma after each of them. The latest comes first in the list. -/
def listedFields (done : List (Option String × Value)) : List Token :=
  done.reverse.flatMap fun kv => .string kv.1 :: .colon :: kv.2.tokens ++ [.comma]

/-- The tokens that have opened a container and filled it so far. -/
def Frame.consumed : Frame → List Token
  | array done => .openBracket :: listedItems done
  | object done k => .openBrace :: listedFields done ++ [.string k, .colon]

/-- The tokens that have led to a stack of open containers. -/
def consumedBy (stack : List Frame) : List Token :=
  stack.reverse.flatMap Frame.consumed

/-- The tokens that have led to a state. -/
def State.consumed : State → List Token
  | value stack => consumedBy stack
  | opened stack => consumedBy stack ++ [.openBracket]
  | openedObject stack => consumedBy stack ++ [.openBrace]
  | key done stack => consumedBy stack ++ .openBrace :: listedFields done
  | colon done k stack => consumedBy stack ++ .openBrace :: listedFields done ++ [.string k]
  | complete v stack => consumedBy stack ++ v.tokens

theorem listedItems_cons (v : Value) (done : List Value) :
    listedItems (v :: done) = listedItems done ++ (v.tokens ++ [.comma]) := by
  simp [listedItems]

theorem listedFields_cons (k : Option String) (v : Value) (done : List (Option String × Value)) :
    listedFields ((k, v) :: done) =
      listedFields done ++ (.string k :: .colon :: v.tokens ++ [.comma]) := by
  simp [listedFields]

/-- A stack has consumed what its outer frames have, and then what its top has. -/
theorem consumedBy_cons (f : Frame) (stack : List Frame) :
    consumedBy (f :: stack) = consumedBy stack ++ f.consumed := by
  simp [consumedBy]

theorem itemTokens_append_singleton (items : List Value) (v : Value) :
    Value.itemTokens (items ++ [v]) =
      (items.flatMap fun w => w.tokens ++ [.comma]) ++ v.tokens := by
  induction items with
  | nil => rfl
  | cons w items ih =>
    have hne : items ++ [v] ≠ [] := by simp
    rw [List.cons_append, Value.itemTokens, ih]
    · simp
    · exact hne

theorem fieldTokens_append_singleton (fields : List (Option String × Value)) (k : Option String)
    (v : Value) : Value.fieldTokens (fields ++ [(k, v)]) =
      (fields.flatMap fun kv => .string kv.1 :: .colon :: kv.2.tokens ++ [.comma]) ++
        .string k :: .colon :: v.tokens := by
  induction fields with
  | nil => rfl
  | cons kw fields ih =>
    have hne : fields ++ [(k, v)] ≠ [] := by simp
    rw [List.cons_append, Value.fieldTokens, ih]
    · simp
    · exact hne

/-- A container that is closed has the tokens that filled it. -/
theorem tokens_array_reverse (v : Value) (done : List Value) :
    (Value.array (v :: done).reverse).tokens =
      .openBracket :: listedItems done ++ v.tokens ++ [.closeBracket] := by
  rw [Value.tokens, List.reverse_cons, itemTokens_append_singleton]
  simp [listedItems]

theorem tokens_object_reverse (k : Option String) (v : Value)
    (done : List (Option String × Value)) :
    (Value.object ((k, v) :: done).reverse).tokens =
      .openBrace :: listedFields done ++ .string k :: .colon :: v.tokens ++ [.closeBrace] := by
  rw [Value.tokens, List.reverse_cons, fieldTokens_append_singleton]
  simp [listedFields]

namespace State

theorem consumed_start {stack : List Frame} {t : Token} {s : State}
    (hstart : start stack t = some s) : s.consumed = consumedBy stack ++ [t] := by
  simp only [start] at hstart
  split at hstart <;> cases hstart <;> simp [consumed, Value.tokens]

/-- A step consumes its token, and nothing that has been read is lost. -/
theorem consumed_step {s s' : State} {t : Token} (hstep : step s t = some s') :
    s'.consumed = s.consumed ++ [t] := by
  simp only [step] at hstep
  split at hstep
  · -- A value starts.
    exact consumed_start hstep
  · -- An array is closed right after it was opened.
    cases hstep
    simp [consumed, Value.tokens, Value.itemTokens]
  · -- The first item of an array starts.
    rw [consumed_start hstep, consumedBy_cons]
    simp [consumed, Frame.consumed, listedItems]
  · -- An object is closed right after it was opened.
    cases hstep
    simp [consumed, Value.tokens, Value.fieldTokens]
  · -- The first key of an object.
    cases hstep
    simp [consumed, listedFields]
  · -- Another key.
    cases hstep
    simp [consumed]
  · -- The colon after a key.
    cases hstep
    simp [consumed, consumedBy_cons, Frame.consumed]
  · -- The comma after an item.
    cases hstep
    simp [consumed, consumedBy_cons, Frame.consumed, listedItems_cons]
  · -- An array is closed after an item.
    cases hstep
    rw [consumed, tokens_array_reverse]
    simp [consumed, consumedBy_cons, Frame.consumed]
  · -- The comma after a field.
    cases hstep
    simp [consumed, consumedBy_cons, Frame.consumed, listedFields_cons]
  · -- An object is closed after a field.
    cases hstep
    rw [consumed, tokens_object_reverse]
    simp [consumed, consumedBy_cons, Frame.consumed]
  · -- No other token is taken.
    cases hstep

/-- A run consumes all of its tokens. -/
theorem consumed_run {s s' : State} {tokens : List Token} (hrun : run s tokens = some s') :
    s'.consumed = s.consumed ++ tokens := by
  induction tokens generalizing s with
  | nil =>
    cases hrun
    rw [List.append_nil]
  | cons t tokens ih =>
    obtain ⟨s₁, hstep, hrun⟩ := Option.bind_eq_some_iff.1 hrun
    rw [ih hrun, consumed_step hstep, List.append_assoc, List.singleton_append]

end State

/-- Tokens are read as a value exactly when they are the tokens of the value. -/
theorem Value.ofTokens?_eq_some_iff {tokens : List Token} {v : Value} :
    ofTokens? tokens = some v ↔ tokens = v.tokens := by
  constructor
  · intro h
    simp only [ofTokens?] at h
    split at h
    · rename_i s hrun
      have hconsumed := State.consumed_run hrun
      simp only [State.result?] at h
      split at h
      · cases h
        simpa [State.consumed, consumedBy] using hconsumed.symm
      · simp at h
    · simp at h
  · rintro rfl
    have hrun : v.tokens.foldlM State.step (.value []) = some (.complete v []) :=
      State.run_tokens v []
    rw [ofTokens?, hrun]
    rfl

end TypeLint.Json
