import Mathlib.Algebra.GroupWithZero.Nat
import Mathlib.Data.List.SplitLengths
import TypeLint.Proofs.Rule.Run
import TypeLint.Proofs.Rule.Verdict

/-!
# The trace and the outcome

The trace of a validation tells which rules were run on the type and how much each of them reported.
When no rule adds such events of its own, the trace and the outcome can be matched: there is one
event for each rule that did not fail, and the numbers in these events cut the list of all reports
into the reports of each rule.

## Main definitions

- `Event.shown` — what a printed trace shows of an event
- `Rule.IsSilent` — rules without events of their own

## Main statements

- `RuleSet.trace_eq_flatMap` — the trace, rule by rule
- `RuleSet.filter_trace` — the events of the rules that did not fail
- `RuleSet.trace_agrees_with_outcome` — the trace beside the outcome
-/

namespace TypeLint

namespace Event

/-- What is shown of an event: its level, its message and its fields. -/
def shown (e : Event) : Level × String × List (String × FieldValue) :=
  (e.level, e.message, e.fields)

/-- Whether the event says that a rule has looked at a type without failing. -/
def isValidated : Event → Bool
  | validated .. => true
  | _ => false

/-- The number of reports that such an event gives. -/
def count? : Event → Option Nat
  | validated _ _ n => some n
  | _ => none

theorem filterMap_count?_filter (events : List Event) :
    (events.filter isValidated).filterMap count? = events.filterMap count? := by
  rw [List.filterMap_filter]
  refine congrArg (List.filterMap · events) (funext fun e => ?_)
  cases e <;> rfl

end Event

/-! ## The events of a rule -/

namespace Rule

/-- The rule leaves no trace of its own. -/
def IsSilent (r : Rule) : Prop :=
  ∀ t, (r.check t).events = []

variable {r : Rule} {t : Decl}

/-- A rule made from a verdict emits nothing. -/
theorem isSilent_silent (name : String) (verdict : Decl → Except Failure (List String)) :
    (silent name verdict).IsSilent :=
  fun _ => rfl

/-- A silent rule stays so when it is limited to a kind. -/
theorem IsSilent.onlyFor (hsilent : r.IsSilent) (kind : Kind) : (onlyFor kind r).IsSilent := by
  intro t
  simp only [Rule.onlyFor]
  split
  · exact hsilent t
  · rfl

/-- Types other than structs are passed over, which leaves one event and no report. -/
theorem embeddedMetadata_of_not_struct (hkind : t.kind ≠ .struct) :
    (embeddedMetadata.check t).events = [.skipped t.name t.kind] ∧
      embeddedMetadata.fields t = [] := by
  simp [fields, embeddedMetadata, hkind]

/-- On a struct there is one event for each reported member, in order. -/
theorem embeddedMetadata_of_struct (hkind : t.kind = .struct) :
    (embeddedMetadata.check t).events =
        t.misnamedMembers.map (fun m => .misnamed metadataRuleName t.name m.name m.type) ∧
      embeddedMetadata.fields t = t.misnamedMembers.map Member.name := by
  simp [fields, embeddedMetadata, hkind]

theorem canonical_mem_of_misnamed {m : Member} (hm : m ∈ t.misnamedMembers) :
    m.type.canonical ∈ metadataTypes := by
  have hkeeps := (List.mem_filter.1 hm).2
  rw [Bool.not_eq_true', ← Bool.not_eq_true, keepsName_iff, not_or, not_not] at hkeeps
  exact hkeeps.1.2

/-- Neither the rule on embedded metadata nor a silent rule says of a rule that it did not fail. -/
theorem filter_events_of_known (hknown : r = embeddedMetadata ∨ r.IsSilent) :
    (r.check t).events.filter Event.isValidated = [] := by
  rcases hknown with rfl | hsilent
  · rw [List.filter_eq_nil_iff]
    intro e he
    by_cases hkind : t.kind = .struct
    · rw [(embeddedMetadata_of_struct hkind).1] at he
      obtain ⟨m, -, rfl⟩ := List.mem_map.1 he
      simp [Event.isValidated]
    · rw [(embeddedMetadata_of_not_struct hkind).1, List.mem_singleton] at he
      simp [he, Event.isValidated]
  · rw [hsilent t, List.filter_nil]

theorem map_shown_account (r : Rule) (t : Decl) :
    (r.account t).map Event.shown =
      (r.check t).events.map Event.shown ++
        if r.failsOn t then [] else
          [(.debug, "validated type", [("rule", .text r.name),
            ("type_name", .text t.name.canonical),
            ("violations", .number (r.fields t).length)])] := by
  rw [account, List.map_append]
  split
  · rfl
  · rfl

end Rule

/-! ## The events of a set -/

namespace RuleSet

variable {t : Decl} {r : Rule} {front back rs : List Rule} {f : Failure}

/-- The first rule that fails is found behind those that pass. -/
theorem findIdx_of_fails (hfront : ∀ r ∈ front, r.failsOn t = false)
    (hfails : (r.check t).result = .error f) (back : List Rule) :
    (front ++ r :: back).findIdx (·.failsOn t) = front.length := by
  have hr := Rule.failsOn_eq_true_iff.2 ⟨f, hfails⟩
  rw [List.findIdx_append, List.findIdx_eq_length.2 hfront, if_neg (Nat.lt_irrefl _),
    List.findIdx_cons, hr, cond_true, Nat.zero_add]

/-- The trace has the part of each rule up to the first one that fails. -/
theorem trace_eq_flatMap (rs : List Rule) (t : Decl) :
    trace ⟨rs⟩ t = (rs.take (rs.findIdx (·.failsOn t) + 1)).flatMap (·.account t) := by
  rw [trace, run]
  rcases passes_or_fails t rs with hpasses | ⟨front, r, back, f, rfl, hfront, hfails⟩
  · rw [runRules_of_passes hpasses, List.findIdx_eq_length.2 hpasses,
      List.take_of_length_le (Nat.le_succ _)]
  · rw [runRules_of_fails hfront hfails, findIdx_of_fails hfront hfails,
      List.take_length_add_append]
    simp

/-- A rule that passes is reported as validated once. -/
theorem filter_account_of_passes (hpasses : r.failsOn t = false)
    (hquiet : (r.check t).events.filter Event.isValidated = []) :
    (r.account t).filter Event.isValidated =
      [.validated r.name t.name (r.fields t).length] := by
  rw [Rule.account_of_passes hpasses, List.filter_append, hquiet]
  rfl

theorem filter_flatMap_account (hpasses : ∀ r ∈ rs, r.failsOn t = false)
    (hquiet : ∀ r ∈ rs, (r.check t).events.filter Event.isValidated = []) :
    (rs.flatMap (·.account t)).filter Event.isValidated =
      rs.map fun r => .validated r.name t.name (r.fields t).length := by
  induction rs with
  | nil => rfl
  | cons r rs ih =>
    obtain ⟨hr, hpasses⟩ := List.forall_mem_cons.1 hpasses
    obtain ⟨hown, hquiet⟩ := List.forall_mem_cons.1 hquiet
    rw [List.flatMap_cons, List.filter_append, filter_account_of_passes hr hown, ih hpasses hquiet]
    rfl

/-- Each rule before the first one that fails has an event that says that it did not. -/
theorem filter_trace (hquiet : ∀ r ∈ rs, (r.check t).events.filter Event.isValidated = []) :
    (trace ⟨rs⟩ t).filter Event.isValidated =
      (rs.take (rs.findIdx (·.failsOn t))).map fun r =>
        .validated r.name t.name (r.fields t).length := by
  rw [trace, run]
  rcases passes_or_fails t rs with hpasses | ⟨front, r, back, f, rfl, hfront, hfails⟩
  · rw [runRules_of_passes hpasses, List.findIdx_eq_length.2 hpasses, List.take_length,
      filter_flatMap_account hpasses hquiet]
  · obtain ⟨hquiet, hback⟩ := List.forall_mem_append.1 hquiet
    have hr := Rule.failsOn_eq_true_iff.2 ⟨f, hfails⟩
    rw [runRules_of_fails hfront hfails, findIdx_of_fails hfront hfails, List.take_left,
      List.filter_append, filter_flatMap_account hfront hquiet, Rule.account_of_fails hr,
      (List.forall_mem_cons.1 hback).1, List.append_nil]

/-! ## The numbers of reports -/

/-- The lengths of some lists cut what they make up into these lists again. -/
theorem splitLengths_flatMap {α β : Type} (g : α → List β) (xs : List α) :
    (xs.map fun x => (g x).length).splitLengths (xs.flatMap g) = xs.map g := by
  induction xs with
  | nil => rfl
  | cons x xs ih =>
    rw [List.map_cons, List.flatMap_cons, List.splitLengths, List.splitAt_eq]
    simp [ih]

/-- When no rule fails, the numbers in the trace are those of the reports of each rule. -/
theorem filterMap_count?_trace
    (hquiet : ∀ r ∈ rs, (r.check t).events.filter Event.isValidated = [])
    (hpasses : ∀ r ∈ rs, r.failsOn t = false) :
    (trace ⟨rs⟩ t).filterMap Event.count? = rs.map fun r => (r.violations t).length := by
  rw [← Event.filterMap_count?_filter, filter_trace hquiet, List.findIdx_eq_length.2 hpasses,
    List.take_length, List.filterMap_map]
  simp [Function.comp_def, Event.count?, Rule.violations]

/-- The trace of rules that are silent or the one on embedded metadata has the events of each rule
    up to the first one that fails. When none fails, the events that say so are those of all rules
    in order, and their numbers cut the reports into those of each rule. When one fails, there are
    as many such events as rules before it. -/
theorem trace_agrees_with_outcome {rs : List Rule}
    (hrules : ∀ r ∈ rs, r = .embeddedMetadata ∨ r.IsSilent) (t : Decl) :
    ((trace ⟨rs⟩ t).map Event.shown =
      (rs.take (rs.findIdx (·.failsOn t) + 1)).flatMap fun r =>
        (r.check t).events.map Event.shown ++
          if r.failsOn t then [] else
            [(.debug, "validated type", [("rule", .text r.name),
              ("type_name", .text t.name.canonical),
              ("violations", .number (r.fields t).length)])]) ∧
    (t.kind ≠ .struct → (Rule.embeddedMetadata.check t).events.map Event.shown =
      [(.trace, "skipping non-struct type", [("type_name", .text t.name.canonical),
        ("kind", .text t.kind.label)])]) ∧
    (t.kind = .struct → ∃ ms : List Member, ms.Sublist t.members ∧
      Rule.embeddedMetadata.fields t = ms.map Member.name ∧
      (Rule.embeddedMetadata.check t).events.map Event.shown = (ms.map fun m =>
        (.debug, "embedded metadata is not serialized as \"metadata\"",
          [("rule", .text "naming_convention"), ("type_name", .text t.name.canonical),
            ("field", .text m.name), ("embedded_type", .text m.type.canonical)])) ∧
      ∀ m ∈ ms, m.type.canonical ∈ metadataTypes) ∧
    (∀ vs, validate ⟨rs⟩ t = .ok vs →
      ((trace ⟨rs⟩ t).filter Event.isValidated =
        rs.map fun r => .validated r.name t.name (r.fields t).length) ∧
      ((trace ⟨rs⟩ t).filterMap Event.count?).sum = vs.length ∧
      ((trace ⟨rs⟩ t).filterMap Event.count?).splitLengths vs =
        rs.map fun r => (r.fields t).map (Violation.of r.name t)) ∧
    ∀ g, validate ⟨rs⟩ t = .error g →
      rs.findIdx (·.failsOn t) < rs.length ∧
        ((trace ⟨rs⟩ t).filter Event.isValidated).length = rs.findIdx (·.failsOn t) := by
  have hquiet : ∀ r ∈ rs, (r.check t).events.filter Event.isValidated = [] := fun r hr =>
    Rule.filter_events_of_known (hrules r hr)
  refine ⟨?_, fun hkind => ?_, fun hkind => ?_, fun vs hvs => ?_, fun g hg => ?_⟩
  · rw [trace_eq_flatMap, List.map_flatMap]
    exact congrArg (List.flatMap · _) (funext fun r => Rule.map_shown_account r t)
  · rw [(Rule.embeddedMetadata_of_not_struct hkind).1]
    rfl
  · obtain ⟨hevents, hfields⟩ := Rule.embeddedMetadata_of_struct hkind
    refine ⟨t.misnamedMembers, List.filter_sublist, hfields, ?_, fun m hm =>
      Rule.canonical_mem_of_misnamed hm⟩
    rw [hevents, List.map_map]
    rfl
  · obtain ⟨hpasses, rfl⟩ := validate_eq_ok_iff.1 hvs
    refine ⟨?_, ?_, ?_⟩
    · rw [filter_trace hquiet, List.findIdx_eq_length.2 hpasses, List.take_length]
    · rw [filterMap_count?_trace hquiet hpasses, List.length_flatMap]
    · rw [filterMap_count?_trace hquiet hpasses, splitLengths_flatMap]
      rfl
  · obtain ⟨front, r, back, f, rfl, hfront, hfails, -⟩ := validate_eq_error_iff.1 hg
    rw [filter_trace hquiet, findIdx_of_fails hfront hfails, List.take_left]
    simp

/-- A rule that fails behind the rule on embedded metadata, given twice, and one that reports the
    type as a whole. -/
theorem trace_agrees_with_outcome_before_failure :
    let front : List Rule :=
      [.embeddedMetadata, .constant "whole" (.ok ["", "a"]), .embeddedMetadata]
    let rules := front ++ .constant "broken" (.error ⟨"no answer", []⟩) :: [.noEmptyStructs]
    let t : Decl := .struct ⟨"p", "T"⟩
      [.embedding ⟨"k8s.io/apimachinery/pkg/apis/meta/v1", "ListMeta"⟩ "json:\"list\""]
    (∀ r ∈ rules, r = .embeddedMetadata ∨ r.IsSilent) ∧
      ((trace ⟨rules⟩ t).filter Event.isValidated).length = 3 := by
  intro front rules t
  have hfront : ∀ r ∈ front, r.failsOn t = false := by
    simp only [front, List.forall_mem_cons]
    exact ⟨rfl, rfl, rfl, List.forall_mem_nil _⟩
  have hrules : ∀ r ∈ rules, r = .embeddedMetadata ∨ r.IsSilent := by
    simp only [rules, front, List.cons_append, List.nil_append, List.forall_mem_cons]
    exact ⟨.inl trivial, .inr (Rule.isSilent_silent _ _), .inl trivial,
      .inr (Rule.isSilent_silent _ _), .inr ((Rule.isSilent_silent _ _).onlyFor _),
      List.forall_mem_nil _⟩
  refine ⟨hrules, ?_⟩
  have hfails := validate_of_fails (t := t) (r := .constant "broken" (.error ⟨"no answer", []⟩))
    hfront rfl [.noEmptyStructs]
  rw [((trace_agrees_with_outcome hrules t).2.2.2.2 _ hfails).2]
  exact findIdx_of_fails hfront rfl _

end RuleSet

end TypeLint
