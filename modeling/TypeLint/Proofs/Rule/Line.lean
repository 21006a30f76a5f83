import Mathlib.Data.List.Basic
import TypeLint.Proofs.Rule.Run

/-!
# Reading report lines back

The line of a violation joins four texts with commas and escapes nothing. When the rule, the package
and the type have no comma of their own, the first three commas of the line are those that join,
and all that stands behind them is the field. So each line is the line of one such violation only,
and the lines of a run tell what was reported.

## Main definitions

- `Violation.IsPlain`, `Universe.IsPlain` — no comma in what stands in front of the field
- `Violation.ofLine?` — the violation that a line is about
- `RuleSet.violations`, `RuleSet.lines` — the reports on all types of a universe

## Main statements

- `Violation.ofLine?_eq_some_iff` — a line is read as the plain violation it is the line of
- `RuleSet.map_ofLine?_lines` — the lines of a run are read back as its reports
- `RuleSet.lines_determine_violations` — nothing else has the same lines
-/

namespace TypeLint

/-! ## One line -/

namespace Violation

/-- The rule, the package and the type have no comma. The field may be any text. -/
structure IsPlain (v : Violation) : Prop where
  rule : ',' ∉ v.rule.toList
  package : ',' ∉ v.package.toList
  type : ',' ∉ v.type.toList

/-- What every line starts with. -/
def heading : String :=
  "API rule violation: "

/-- A text cut at its first comma. -/
def cutAtComma? : List Char → Option (List Char × List Char)
  | [] => none
  | c :: text =>
    if c = ',' then some ([], text)
    else (cutAtComma? text).map fun (front, rest) => (c :: front, rest)

/-- The violation that a line is about. The first three commas end the rule, the package and the
    type. -/
def ofLine? (line : String) : Option Violation := do
  let text ← heading.toList.isPrefixOf? line.toList
  let (rule, text) ← cutAtComma? text
  let (package, text) ← cutAtComma? text
  let (type, field) ← cutAtComma? text
  return ⟨String.ofList rule, String.ofList package, String.ofList type, String.ofList field⟩

/-- A text is cut at its first comma. -/
theorem cutAtComma?_eq_some_iff {text front rest : List Char} :
    cutAtComma? text = some (front, rest) ↔ ',' ∉ front ∧ text = front ++ ',' :: rest := by
  induction text generalizing front with
  | nil => simp [cutAtComma?]
  | cons c text ih =>
    rw [cutAtComma?]
    by_cases hc : c = ','
    · rw [if_pos hc, hc]
      cases front with
      | nil => simp
      | cons d front => simp +contextual [eq_comm]
    · rw [if_neg hc]
      simp only [Option.map_eq_some_iff, Prod.exists, Prod.mk.injEq]
      constructor
      · rintro ⟨front, rest, hcut, rfl, rfl⟩
        obtain ⟨hfront, rfl⟩ := ih.1 hcut
        exact ⟨by simp [hfront, Ne.symm hc], rfl⟩
      · rintro ⟨hfront, htext⟩
        cases front with
        | nil => exact absurd (List.cons.inj htext).1 hc
        | cons d front =>
          obtain ⟨rfl, rfl⟩ := List.cons.inj htext
          have htail : ',' ∉ front := fun hmem => hfront (List.mem_cons_of_mem _ hmem)
          exact ⟨front, rest, ih.2 ⟨htail, rfl⟩, rfl, rfl⟩

/-- A part without a comma is what is cut off in front of one. -/
theorem cutAtComma?_append {front : List Char} (hfront : ',' ∉ front) (rest : List Char) :
    cutAtComma? (front ++ ',' :: rest) = some (front, rest) :=
  cutAtComma?_eq_some_iff.2 ⟨hfront, rfl⟩

/-- A line is the heading and four parts with commas between them. -/
theorem toList_line (v : Violation) :
    v.line.toList = heading.toList ++ (v.rule.toList ++ ',' :: (v.package.toList ++
      ',' :: (v.type.toList ++ ',' :: v.field.toList))) := by
  have hline : v.line =
      heading ++ v.rule ++ "," ++ v.package ++ "," ++ v.type ++ "," ++ v.field := rfl
  have hcomma : ",".toList = [','] := rfl
  simp only [hline, String.toList_append, hcomma, List.append_assoc, List.cons_append,
    List.nil_append]

/-- A line is read as a violation just when it is the line of that violation, and the first three
    parts of the violation have no comma. -/
theorem ofLine?_eq_some_iff {s : String} {v : Violation} :
    ofLine? s = some v ↔ v.IsPlain ∧ v.line = s := by
  constructor
  · intro hread
    simp only [ofLine?, Option.bind_eq_bind, Option.bind_eq_some_iff, Prod.exists,
      cutAtComma?_eq_some_iff, List.isPrefixOf?_eq_some_iff_append_eq, Option.pure_def,
      Option.some.injEq] at hread
    obtain ⟨_, hline, rule, _, ⟨hrule, rfl⟩, package, _, ⟨hpackage, rfl⟩, type, field, ⟨htype, rfl⟩,
      rfl⟩ := hread
    refine ⟨⟨?_, ?_, ?_⟩, ?_⟩
    · rwa [String.toList_ofList]
    · rwa [String.toList_ofList]
    · rwa [String.toList_ofList]
    · rw [← String.toList_inj, toList_line, ← hline]
      simp only [String.toList_ofList]
  · rintro ⟨hv, rfl⟩
    have hheading := List.isPrefixOf?_eq_some_iff_append_eq.2 v.toList_line.symm
    simp only [ofLine?, hheading, Option.bind_eq_bind, Option.bind_some,
      cutAtComma?_append hv.rule, cutAtComma?_append hv.package, cutAtComma?_append hv.type,
      String.ofList_toList, Option.pure_def]

/-- Plain violations with the same line are the same. -/
theorem eq_of_line_eq {v w : Violation} (hv : v.IsPlain) (hw : w.IsPlain)
    (hline : v.line = w.line) : v = w := by
  have hread : ofLine? v.line = some v := ofLine?_eq_some_iff.2 ⟨hv, rfl⟩
  rw [hline, ofLine?_eq_some_iff.2 ⟨hw, rfl⟩] at hread
  exact (Option.some.inj hread).symm

end Violation

/-! ## All lines -/

/-- No package and no short name of a type has a comma. -/
def Universe.IsPlain (u : Universe) : Prop :=
  ∀ t ∈ u.types, ',' ∉ t.name.package.toList ∧ ',' ∉ t.name.short.toList

instance (u : Universe) : Decidable u.IsPlain :=
  List.decidableBAll _ u.types

namespace RuleSet

/-- The violations of all types, in order. A type on which a rule fails has none. -/
def violations (s : RuleSet) (u : Universe) : List Violation :=
  u.types.flatMap fun t =>
    match s.validate t with
    | .ok violations => violations
    | .error _ => []

/-- The printed violations of all types, in order. A type on which a rule fails has no lines. -/
def lines (s : RuleSet) (u : Universe) : List String :=
  u.types.flatMap fun t =>
    match s.validate t with
    | .ok violations => violations.map Violation.line
    | .error _ => []

variable {s : RuleSet} {u : Universe} {v : Violation}

/-- The lines of a run are those of its violations. -/
theorem lines_eq_map (s : RuleSet) (u : Universe) :
    s.lines u = (s.violations u).map Violation.line := by
  rw [lines, violations, List.map_flatMap]
  refine congrArg u.types.flatMap (funext fun t => ?_)
  cases s.validate t with
  | error f => rfl
  | ok violations => rfl

theorem report_eq_lines (u : Universe) : u.report = standard.lines u := rfl

/-- Each violation carries the name of a rule of the set and that of a type of the universe. -/
theorem exists_of_mem_violations (hv : v ∈ s.violations u) :
    ∃ t ∈ u.types, ∃ r ∈ s.rules, ∃ field, v = .of r.name t field := by
  obtain ⟨t, ht, hv⟩ := List.mem_flatMap.1 hv
  refine ⟨t, ht, ?_⟩
  cases hresult : s.validate t with
  | error f => simp [hresult] at hv
  | ok violations =>
    rw [hresult] at hv
    obtain ⟨-, rfl⟩ := validate_eq_ok_iff.1 hresult
    obtain ⟨r, hr, hv⟩ := List.mem_flatMap.1 hv
    obtain ⟨field, -, rfl⟩ := List.mem_map.1 hv
    exact ⟨r, hr, field, rfl⟩

theorem isPlain_of_mem_violations (hu : u.IsPlain) (hv : v ∈ s.violations u)
    (hrule : ',' ∉ v.rule.toList) : v.IsPlain := by
  obtain ⟨t, ht, r, -, field, rfl⟩ := exists_of_mem_violations hv
  exact ⟨hrule, (hu t ht).1, (hu t ht).2⟩

/-- The lines of a run are read back as what was reported. -/
theorem map_ofLine?_lines (hu : u.IsPlain) (hrules : ∀ v ∈ s.violations u, ',' ∉ v.rule.toList) :
    (s.lines u).map Violation.ofLine? = (s.violations u).map some := by
  rw [lines_eq_map, List.map_map]
  refine List.map_congr_left fun v hv => ?_
  exact Violation.ofLine?_eq_some_iff.2 ⟨isPlain_of_mem_violations hu hv (hrules v hv), rfl⟩

/-- The lines of a run tell its violations. -/
theorem violations_eq_of_lines_eq {s' : RuleSet} {u' : Universe} (hu : u.IsPlain) (hu' : u'.IsPlain)
    (hrules : ∀ v ∈ s.violations u, ',' ∉ v.rule.toList)
    (hrules' : ∀ v ∈ s'.violations u', ',' ∉ v.rule.toList) (hlines : s.lines u = s'.lines u') :
    s.violations u = s'.violations u' := by
  have hread := map_ofLine?_lines hu hrules
  rw [hlines, map_ofLine?_lines hu' hrules'] at hread
  exact ((List.map_inj_right fun _ _ => Option.some.inj).1 hread).symm

/-- The rules of this library have no comma in their names. -/
theorem comma_notMem_rule_of_standard (hv : v ∈ standard.violations u) : ',' ∉ v.rule.toList := by
  obtain ⟨t, -, r, hr, field, rfl⟩ := exists_of_mem_violations hv
  obtain rfl := List.mem_singleton.1 hr
  have hname : ',' ∉ metadataRuleName.toList := by decide
  exact hname

/-- Two violations with the same line are the same if neither has a comma in front of its field.
    So the lines of a run over types without commas in their names determine all reports: those of
    rules of any kind, as long as the rules that report have no comma in their names, and those of
    the standard rules. -/
theorem lines_determine_violations :
    (∀ v w : Violation, v.IsPlain → w.IsPlain → v.line = w.line → v = w) ∧
    (∀ (s s' : RuleSet) (u u' : Universe), u.IsPlain → u'.IsPlain →
      (∀ v ∈ s.violations u, ',' ∉ v.rule.toList) →
      (∀ v ∈ s'.violations u', ',' ∉ v.rule.toList) →
      s.lines u = s'.lines u' → s.violations u = s'.violations u') ∧
    ∀ u u' : Universe, u.IsPlain → u'.IsPlain → u.report = u'.report →
      standard.violations u = standard.violations u' := by
  refine ⟨fun v w => Violation.eq_of_line_eq, ?_, ?_⟩
  · intro s s' u u' hu hu' hrules hrules' hlines
    exact violations_eq_of_lines_eq hu hu' hrules hrules' hlines
  · intro u u' hu hu' hreport
    rw [report_eq_lines, report_eq_lines] at hreport
    exact violations_eq_of_lines_eq hu hu' (fun _ => comma_notMem_rule_of_standard)
      (fun _ => comma_notMem_rule_of_standard) hreport

/-- Fields with a comma and without a name, which one rule reports on a builtin type or two rules of
    one name, and a metadata field in two universes. -/
theorem lines_determine_violations_two_runs :
    let once : RuleSet := ⟨[.constant "r" (.ok ["a,b", ""])]⟩
    let twice : RuleSet := ⟨[.constant "r" (.ok ["a,b"]), .constant "r" (.ok [""])]⟩
    let t : Decl := .ofKind (.builtin "t") .map
    let list : Decl := .struct ⟨"p.q", "L"⟩
      [.embedding ⟨"k8s.io/apimachinery/pkg/apis/meta/v1", "ListMeta"⟩ ""]
    (once.lines ⟨[t]⟩ = ["API rule violation: r,,t,a,b", "API rule violation: r,,t,"] ∧
      once.violations ⟨[t]⟩ = twice.violations ⟨[t]⟩) ∧
    Universe.report ⟨[list]⟩ = ["API rule violation: naming_convention,p.q,L,ListMeta"] ∧
      standard.violations ⟨[list]⟩ = standard.violations ⟨[t, list]⟩ := by
  intro once twice t list
  have hruns := lines_determine_violations.2.1 once twice ⟨[t]⟩ ⟨[t]⟩ (by decide) (by decide)
    (by decide) (by decide) (by decide)
  have hreports := lines_determine_violations.2.2 ⟨[list]⟩ ⟨[t, list]⟩ (by decide) (by decide)
    (by decide +kernel)
  exact ⟨⟨by decide, hruns⟩, by decide +kernel, hreports⟩

end RuleSet

end TypeLint
