import Mathlib.Data.List.Perm.Basic
import TypeLint.RuleSet

/-!
# Runs of rule sets

A set runs its rules in order until one of them fails. The rules before that one leave their part of
the trace behind but none of their reports, and those after it are not run. So the outcome is that
of the first rule that fails, or all reports one after the other.

## Main definitions

- `Rule.failsOn`, `Rule.fields` — the verdict of a rule on a type
- `Rule.violations`, `Rule.account` — what a rule adds to the outcome and to the trace

## Main statements

- `RuleSet.runRules_append` — rules that do not fail, and whatever comes after them
- `RuleSet.validate_any_rules` — the outcome for rules of any kind
-/

namespace TypeLint

namespace Failure

/-- A failure is its chain of messages. -/
theorem chain_injective {f g : Failure} (h : f.chain = g.chain) : f = g := by
  cases f
  cases g
  simpa [chain] using h

end Failure

/-! ## One rule -/

namespace Rule

/-- Whether the rule fails on the type. -/
def failsOn (r : Rule) (t : Decl) : Bool :=
  !(r.check t).result.isOk

/-- The fields that the rule reports. There are none when it fails. -/
def fields (r : Rule) (t : Decl) : List String :=
  match (r.check t).result with
  | .ok fields => fields
  | .error _ => []

/-- The reports of the rule, one for each field. -/
def violations (r : Rule) (t : Decl) : List Violation :=
  (r.fields t).map (Violation.of r.name t)

/-- The part of the trace that a run of the rule leaves: its own events and, unless it fails, the
    number of its reports. -/
def account (r : Rule) (t : Decl) : List Event :=
  (r.check t).events ++
    if r.failsOn t then [] else [.validated r.name t.name (r.fields t).length]

variable {r : Rule} {t : Decl} {f : Failure}

/-- A rule fails on a type when its check ends with a failure. -/
theorem failsOn_eq_true_iff : r.failsOn t = true ↔ ∃ f, (r.check t).result = .error f := by
  rw [failsOn]
  cases (r.check t).result with
  | error f => simp [Except.isOk, Except.toBool]
  | ok fields => simp [Except.isOk, Except.toBool]

theorem result_of_passes (hpasses : r.failsOn t = false) :
    (r.check t).result = .ok (r.fields t) := by
  rw [fields]
  cases hresult : (r.check t).result with
  | error f =>
    have hfails := failsOn_eq_true_iff.2 ⟨f, hresult⟩
    rw [hpasses] at hfails
    exact absurd hfails (by decide)
  | ok fields => rfl

theorem account_of_passes (hpasses : r.failsOn t = false) :
    r.account t = (r.check t).events ++ [.validated r.name t.name (r.fields t).length] := by
  rw [account, hpasses, if_neg (by decide)]

theorem account_of_fails (hfails : r.failsOn t = true) : r.account t = (r.check t).events := by
  rw [account, if_pos hfails, List.append_nil]

end Rule

namespace RuleSet

variable {t : Decl} {r : Rule} {front back rs ss : List Rule} {f : Failure}

/-! ## Rules one after the other -/

/-- A rule that passes adds its events and its violations. -/
theorem runRules_cons_of_passes (hpasses : r.failsOn t = false) (rs : List Rule) :
    runRules t (r :: rs) =
      { events := r.account t ++ (runRules t rs).events
        result := (runRules t rs).result.map (r.violations t ++ ·) } := by
  simp only [runRules, Rule.result_of_passes hpasses, Rule.account_of_passes hpasses,
    Rule.violations, List.append_assoc, List.singleton_append]

/-- A rule that fails ends the run. -/
theorem runRules_cons_of_fails (hfails : (r.check t).result = .error f) (rs : List Rule) :
    runRules t (r :: rs) =
      { events := r.account t
        result := .error (f.within (failureContext r.name t.name)) } := by
  rw [Rule.account_of_fails (Rule.failsOn_eq_true_iff.2 ⟨f, hfails⟩)]
  simp only [runRules, hfails]

/-- Rules that do not fail put their parts in front of what the rules after them leave. -/
theorem runRules_append (hfront : ∀ r ∈ front, r.failsOn t = false) (back : List Rule) :
    runRules t (front ++ back) =
      { events := front.flatMap (·.account t) ++ (runRules t back).events
        result := (runRules t back).result.map (front.flatMap (·.violations t) ++ ·) } := by
  induction front with
  | nil =>
    cases hresult : (runRules t back).result with
    | error f => simp [Except.map, ← hresult]
    | ok vs => simp [Except.map, ← hresult]
  | cons r front ih =>
    obtain ⟨hr, hfront⟩ := List.forall_mem_cons.1 hfront
    rw [List.cons_append, runRules_cons_of_passes hr, ih hfront]
    cases (runRules t back).result with
    | error f => simp [Except.map]
    | ok vs => simp [Except.map]

/-- A run without failures gathers the events and the violations of every rule. -/
theorem runRules_of_passes (hpasses : ∀ r ∈ rs, r.failsOn t = false) :
    runRules t rs =
      { events := rs.flatMap (·.account t), result := .ok (rs.flatMap (·.violations t)) } := by
  have hrun := runRules_append hpasses []
  simpa [runRules, Except.map] using hrun

/-- The first rule that fails ends the run, whatever rules come after it. -/
theorem runRules_of_fails (hfront : ∀ r ∈ front, r.failsOn t = false)
    (hfails : (r.check t).result = .error f) (back : List Rule) :
    runRules t (front ++ r :: back) =
      { events := front.flatMap (·.account t) ++ r.account t
        result := .error (f.within (failureContext r.name t.name)) } := by
  rw [runRules_append hfront, runRules_cons_of_fails hfails]
  rfl

/-- Either no rule fails or there is a first one that does. -/
theorem passes_or_fails (t : Decl) (rs : List Rule) :
    (∀ r ∈ rs, r.failsOn t = false) ∨
      ∃ front r back f, rs = front ++ r :: back ∧ (∀ d ∈ front, d.failsOn t = false) ∧
        (r.check t).result = .error f := by
  cases hfind : rs.find? (·.failsOn t) with
  | none =>
    refine .inl fun r hr => ?_
    simpa using List.find?_eq_none.1 hfind r hr
  | some r =>
    obtain ⟨hr, front, back, hrs, hfront⟩ := List.find?_eq_some_iff_append.1 hfind
    obtain ⟨f, hfails⟩ := Rule.failsOn_eq_true_iff.1 hr
    exact .inr ⟨front, r, back, f, hrs, fun d hd => by simpa using hfront d hd, hfails⟩

/-! ## The outcome -/

theorem validate_of_passes (hpasses : ∀ r ∈ rs, r.failsOn t = false) :
    validate ⟨rs⟩ t = .ok (rs.flatMap (·.violations t)) := by
  rw [validate, run, runRules_of_passes hpasses]

/-- The first failure is the outcome. -/
theorem validate_of_fails (hfront : ∀ r ∈ front, r.failsOn t = false)
    (hfails : (r.check t).result = .error f) (back : List Rule) :
    validate ⟨front ++ r :: back⟩ t = .error (f.within (failureContext r.name t.name)) := by
  rw [validate, run, runRules_of_fails hfront hfails]

/-- There are reports exactly when no rule fails. -/
theorem validate_eq_ok_iff {vs : List Violation} :
    validate ⟨rs⟩ t = .ok vs ↔
      (∀ r ∈ rs, r.failsOn t = false) ∧ vs = rs.flatMap (·.violations t) := by
  rcases passes_or_fails t rs with hpasses | ⟨front, r, back, f, rfl, hfront, hfails⟩
  · rw [validate_of_passes hpasses, Except.ok.injEq, eq_comm]
    exact (and_iff_right hpasses).symm
  · rw [validate_of_fails hfront hfails]
    refine iff_of_false (by simp) fun h => ?_
    have hr := h.1 r (by simp)
    rw [Rule.failsOn_eq_true_iff.2 ⟨f, hfails⟩] at hr
    exact absurd hr (by decide)

/-- There is a failure exactly when some rule fails, and it is that of the first one. -/
theorem validate_eq_error_iff {g : Failure} :
    validate ⟨rs⟩ t = .error g ↔
      ∃ front r back f, rs = front ++ r :: back ∧ (∀ d ∈ front, d.failsOn t = false) ∧
        (r.check t).result = .error f ∧ g.chain = failureContext r.name t.name :: f.chain := by
  constructor
  · intro h
    rcases passes_or_fails t rs with hpasses | ⟨front, r, back, f, rfl, hfront, hfails⟩
    · rw [validate_of_passes hpasses] at h
      exact absurd h (by simp)
    · rw [validate_of_fails hfront hfails, Except.error.injEq] at h
      exact ⟨front, r, back, f, rfl, hfront, hfails, by rw [← h, Failure.chain_within]⟩
  · rintro ⟨front, r, back, f, rfl, hfront, hfails, hchain⟩
    rw [validate_of_fails hfront hfails, Except.error.injEq]
    exact Failure.chain_injective (by rw [Failure.chain_within, hchain])

/-- A check of all rules fails exactly when one of them does. -/
theorem exists_error_iff :
    (∃ g, validate ⟨rs⟩ t = .error g) ↔ ∃ r ∈ rs, r.failsOn t = true := by
  constructor
  · rintro ⟨g, h⟩
    obtain ⟨front, r, back, f, rfl, -, hfails, -⟩ := validate_eq_error_iff.1 h
    exact ⟨r, by simp, Rule.failsOn_eq_true_iff.2 ⟨f, hfails⟩⟩
  · rintro ⟨r, hr, hfails⟩
    rcases passes_or_fails t rs with hpasses | ⟨front, r, back, f, rfl, hfront, hfails⟩
    · rw [hpasses r hr] at hfails
      exact absurd hfails (by decide)
    · exact ⟨_, validate_of_fails hfront hfails back⟩

/-! ## Sets made of others -/

/-- Rules behind others are run only when none of those fails. -/
theorem validate_append (rs ss : List Rule) (t : Decl) :
    validate ⟨rs ++ ss⟩ t =
      (validate ⟨rs⟩ t).bind fun vs => (validate ⟨ss⟩ t).map (vs ++ ·) := by
  rcases passes_or_fails t rs with hpasses | ⟨front, r, back, f, rfl, hfront, hfails⟩
  · rw [validate_of_passes hpasses, validate, run, runRules_append hpasses]
    rfl
  · rw [List.append_assoc, List.cons_append, validate_of_fails hfront hfails,
      validate_of_fails hfront hfails]
    rfl

/-- Whether there is a failure does not depend on the order of the rules, nor does how often a
    report is made. -/
theorem validate_perm (hperm : rs.Perm ss) :
    ((∃ g, validate ⟨rs⟩ t = .error g) ↔ ∃ g, validate ⟨ss⟩ t = .error g) ∧
      ∀ vs, validate ⟨rs⟩ t = .ok vs → ∃ ws, validate ⟨ss⟩ t = .ok ws ∧ vs.Perm ws := by
  constructor
  · rw [exists_error_iff, exists_error_iff]
    simp only [hperm.mem_iff]
  · intro vs hvs
    obtain ⟨hpasses, rfl⟩ := validate_eq_ok_iff.1 hvs
    exact ⟨_, validate_of_passes fun r hr => hpasses r (hperm.mem_iff.2 hr),
      hperm.flatMap_right _⟩

/-- Rules of any kind report what each of them does, in order, unless one fails. Then the outcome is
    the failure of the first one that does, with the rule and the type in front of its own chain. A
    set in two parts runs the second one behind the first, and in another order the rules fail on
    the same types and make the same reports. -/
theorem validate_any_rules (rs : List Rule) (t : Decl) :
    (∀ vs, validate ⟨rs⟩ t = .ok vs ↔
      (∀ r ∈ rs, r.failsOn t = false) ∧
        vs = rs.flatMap fun r => (r.fields t).map fun field =>
          ⟨r.name, t.name.package, t.name.short, field⟩) ∧
    (∀ g, validate ⟨rs⟩ t = .error g ↔
      ∃ front r back f, rs = front ++ r :: back ∧ (∀ d ∈ front, d.failsOn t = false) ∧
        (r.check t).result = .error f ∧
        g.chain = ("Rule '" ++ r.name ++ "' failed to validate " ++ t.name.canonical) :: f.chain) ∧
    (∀ ss, validate ⟨rs ++ ss⟩ t =
      (validate ⟨rs⟩ t).bind fun vs => (validate ⟨ss⟩ t).map (vs ++ ·)) ∧
    ∀ ss, rs.Perm ss →
      ((∃ g, validate ⟨rs⟩ t = .error g) ↔ ∃ g, validate ⟨ss⟩ t = .error g) ∧
        ∀ vs, validate ⟨rs⟩ t = .ok vs → ∃ ws, validate ⟨ss⟩ t = .ok ws ∧ vs.Perm ws :=
  ⟨fun _ => validate_eq_ok_iff, fun _ => validate_eq_error_iff,
    fun ss => validate_append rs ss t, fun _ => validate_perm⟩

end RuleSet

end TypeLint
