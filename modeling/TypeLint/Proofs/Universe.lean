import Mathlib.Data.List.Find
import Mathlib.Data.List.Induction
import Mathlib.Order.Nat
import TypeLint.Proofs.Name
import TypeLint.Proofs.Session

/-!
# Looking types up

A universe has the types with which it was begun for the last time and those pushed since. A look-up
gives the earliest of them that fits. A type that has a name also answers its canonical form, so the
look-up by canonical form finds that type or an earlier one. The two look-ups agree when no short
name has a dot in it.

## Main definitions

- `IsEarliest` — the earliest type with a property, and its position
- `Session.Inserts` — the types that a run of edits leaves in the universe

## Main statements

- `Universe.find?_eq_some_iff`, `Universe.get?_eq_some_iff` — the answers
- `Session.exists_inserts`, `Session.types_of_inserts` — the universe after some edits
- `Session.lookups_after_edits` — the answers after any history
-/

namespace TypeLint

/-! ## The earliest type -/

/-- The type stands at the position, and no type before it has the property too. -/
def IsEarliest (P : Decl → Prop) (types : List Decl) (i : Nat) (t : Decl) : Prop :=
  types[i]? = some t ∧ P t ∧ ∀ j < i, ∀ d, types[j]? = some d → ¬ P d

variable {P : Decl → Prop} {types : List Decl} {i : Nat} {t : Decl}

/-- Where one type has a property, the earliest one is there or before. -/
theorem exists_isEarliest (ht : types[i]? = some t) (hP : P t) :
    ∃ j ≤ i, ∃ a, IsEarliest P types j a := by
  classical
  have hex : ∃ j a, types[j]? = some a ∧ P a := ⟨i, t, ht, hP⟩
  obtain ⟨a, ha, hPa⟩ := Nat.find_spec hex
  refine ⟨Nat.find hex, Nat.find_min' hex ⟨t, ht, hP⟩, a, ha, hPa, fun j hj d hd hPd => ?_⟩
  exact Nat.find_min hex hj ⟨d, hd, hPd⟩

/-- A search through a list finds the earliest item with the property. -/
theorem find?_eq_some_iff_isEarliest {p : Decl → Bool} (hp : ∀ d, p d = true ↔ P d) :
    types.find? p = some t ↔ ∃ i, IsEarliest P types i t := by
  rw [List.find?_eq_some_iff_getElem]
  constructor
  · rintro ⟨ht, i, hi, rfl, hbefore⟩
    refine ⟨i, List.getElem?_eq_getElem hi, (hp _).1 ht, fun j hj d hd hPd => ?_⟩
    have hnot := hbefore j hj
    rw [(List.getElem?_eq_some_iff.1 hd).2, (hp d).2 hPd] at hnot
    exact absurd hnot (by decide)
  · rintro ⟨i, hi, hPt, hbefore⟩
    obtain ⟨hlt, rfl⟩ := List.getElem?_eq_some_iff.1 hi
    refine ⟨(hp _).2 hPt, i, hlt, rfl, fun j hj => ?_⟩
    have hnot := hbefore j hj _ (List.getElem?_eq_getElem (Nat.lt_trans hj hlt))
    rw [Bool.not_eq_true', ← Bool.not_eq_true, hp]
    exact hnot

/-! ## Answers of a universe -/

namespace Universe

variable {u : Universe} {n : Name} {canonical : String}

/-- A look-up by canonical form finds the earliest type of that form. -/
theorem find?_eq_some_iff :
    u.find? canonical = some t ↔ ∃ i, IsEarliest (·.name.canonical = canonical) u.types i t :=
  find?_eq_some_iff_isEarliest fun _ => Name.answersTo_iff

/-- A look-up by name finds the earliest type with that name. -/
theorem get?_eq_some_iff :
    u.get? n = some t ↔
      ∃ i, IsEarliest (fun d => d.name.package = n.package ∧ d.name.short = n.short) u.types i t :=
  find?_eq_some_iff_isEarliest fun d => by rw [decide_eq_true_iff, Name.eq_iff]

/-- The type that has a name, or one before it, answers the canonical form of the name. -/
theorem exists_find?_of_isEarliest
    (h : IsEarliest (fun d => d.name.package = n.package ∧ d.name.short = n.short) u.types i t) :
    ∃ j ≤ i, ∃ a, IsEarliest (·.name.canonical = n.canonical) u.types j a ∧
      u.find? n.canonical = some a := by
  obtain ⟨ht, hname, -⟩ := h
  have hform : t.name.canonical = n.canonical := by rw [Name.eq_iff.2 hname]
  obtain ⟨j, hj, a, ha⟩ := exists_isEarliest (P := (·.name.canonical = n.canonical)) ht hform
  exact ⟨j, hj, a, ha, find?_eq_some_iff.2 ⟨j, ha⟩⟩

/-- Without dots in short names the two look-ups agree. -/
theorem find?_canonical_eq_get? (htypes : ∀ d ∈ u.types, '.' ∉ d.name.short.toList)
    (hn : '.' ∉ n.short.toList) : u.find? n.canonical = u.get? n := by
  refine List.find?_congr fun d hd => ?_
  rw [Bool.eq_iff_iff, Name.answersTo_iff, decide_eq_true_iff]
  constructor
  · exact Name.eq_of_canonical_eq (htypes d hd) hn
  · intro hname
    rw [hname]

end Universe

/-! ## Histories -/

/-- The types with which a step begins the universe anew. -/
def Step.begins? : Step → Option (List Decl)
  | clear => some []
  | collect types => some types
  | _ => none

/-- The steps that make a universe of given types: to begin it anew, and to push a type. -/
inductive Step.IsEdit : Step → Prop
  | clear : IsEdit .clear
  | push (type : Decl) : IsEdit (.push type)
  | collect (types : List Decl) : IsEdit (.collect types)

namespace Session

/-- The types that the steps insert, oldest first: those with which the universe was begun for the
    last time, and those pushed since. At the start it is begun without any. -/
def Inserts (steps : List Step) (types : List Decl) : Prop :=
  ∃ front x begun pushed, .clear :: steps = front ++ x :: pushed.map .push ∧
    x.begins? = some begun ∧ types = begun ++ pushed

variable {s : Session} {x : Step} {steps : List Step} {begun types : List Decl}

/-- A step that starts over leaves just the types it starts with. -/
theorem types_step_of_begins (hbegins : x.begins? = some begun) :
    (s.step x).1.current.types = begun := by
  cases x with
  | clear =>
    obtain rfl := Option.some.inj hbegins
    rfl
  | collect types =>
    obtain rfl := Option.some.inj hbegins
    rfl
  | _ => simp [Step.begins?] at hbegins

/-- Types that are added stand behind the others, in order. -/
theorem types_after_push (s : Session) (pushed : List Decl) :
    (s.after (pushed.map .push)).current.types = s.current.types ++ pushed := by
  induction pushed generalizing s with
  | nil => simp
  | cons t pushed ih =>
    rw [List.map_cons, after_cons, ih]
    simp [step, continueWith]

/-- The universe has the types that the steps insert. -/
theorem types_of_inserts (hinserts : Inserts steps types) :
    (start.after steps).current.types = types := by
  obtain ⟨front, x, begun, pushed, hsteps, hbegins, rfl⟩ := hinserts
  have hstart : start.after steps = start.after (.clear :: steps) := rfl
  rw [hstart, hsteps, after_append, after_cons, types_after_push, types_step_of_begins hbegins]

/-- Any run of edits inserts some types: the last edit begins the universe anew, or it is one more
    push. -/
theorem exists_inserts (hedits : ∀ x ∈ steps, x.IsEdit) : ∃ types, Inserts steps types := by
  induction steps using List.reverseRecOn with
  | nil => exact ⟨[], [], .clear, [], [], rfl, rfl, rfl⟩
  | append_singleton steps x ih =>
    obtain ⟨hsteps, hx⟩ := List.forall_mem_append.1 hedits
    cases List.forall_mem_singleton.1 hx with
    | clear => exact ⟨[], .clear :: steps, .clear, [], [], rfl, rfl, rfl⟩
    | collect types => exact ⟨_, .clear :: steps, .collect types, types, [], rfl, rfl, rfl⟩
    | push t =>
      obtain ⟨_, front, y, begun, pushed, hwhole, hbegins, rfl⟩ := ih hsteps
      refine ⟨_, front, y, begun, pushed ++ [t], ?_, hbegins, rfl⟩
      rw [← List.cons_append, hwhole]
      simp

/-- After any edits the look-ups answer with the earliest type inserted that has the canonical form
    or the name asked for, and an answer stays what it is when more types are pushed. Where there is
    a type with a name, one at the same position or before it has the canonical form of the name,
    and when no short name has a dot, both look-ups give the same. -/
theorem lookups_after_edits {steps : List Step} (hedits : ∀ x ∈ steps, x.IsEdit) :
    ∃ types, Inserts steps types ∧ (start.after steps).current.types = types ∧
      (∀ (canonical : String) (t : Decl), (start.after steps).current.find? canonical = some t ↔
        ∃ i, IsEarliest (·.name.canonical = canonical) types i t) ∧
      (∀ (n : Name) (t : Decl), (start.after steps).current.get? n = some t ↔
        ∃ i, IsEarliest (fun d => d.name.package = n.package ∧ d.name.short = n.short) types i t) ∧
      (∀ (canonical : String) (t : Decl) (pushed : List Decl),
        (start.after steps).current.find? canonical = some t →
        (start.after (steps ++ pushed.map .push)).current.find? canonical = some t) ∧
      (∀ (n : Name) (t : Decl) (pushed : List Decl), (start.after steps).current.get? n = some t →
        (start.after (steps ++ pushed.map .push)).current.get? n = some t) ∧
      (∀ (n : Name) (i : Nat) (t : Decl),
        IsEarliest (fun d => d.name.package = n.package ∧ d.name.short = n.short) types i t →
        ∃ j ≤ i, ∃ a, IsEarliest (·.name.canonical = n.canonical) types j a ∧
          (start.after steps).current.find? n.canonical = some a) ∧
      ((∀ d ∈ types, '.' ∉ d.name.short.toList) → ∀ n : Name, '.' ∉ n.short.toList →
        (start.after steps).current.find? n.canonical = (start.after steps).current.get? n) := by
  obtain ⟨types, hinserts⟩ := exists_inserts hedits
  refine ⟨types, hinserts, ?_⟩
  obtain rfl := types_of_inserts hinserts
  have hmore (pushed : List Decl) : (start.after steps).current.types <+:
      (start.after (steps ++ pushed.map .push)).current.types := by
    rw [after_append, types_after_push]
    exact List.prefix_append _ _
  refine ⟨rfl, fun _ _ => Universe.find?_eq_some_iff, fun _ _ => Universe.get?_eq_some_iff,
    fun _ _ pushed hfind => (hmore pushed).find?_eq_some hfind,
    fun _ _ pushed hget => (hmore pushed).find?_eq_some hget,
    fun _ _ _ => Universe.exists_find?_of_isEarliest,
    fun htypes _ hn => Universe.find?_canonical_eq_get? htypes hn⟩

/-- Two names with one canonical form, and a type that was there before the universe was begun. -/
theorem lookups_after_edits_same_form :
    let first : Decl := .ofKind ⟨"a.b", "c"⟩ .map
    let second : Decl := .ofKind ⟨"a", "b.c"⟩ .map
    let steps : List Step := [.push second, .collect [], .push first, .push second]
    (∀ x ∈ steps, x.IsEdit) ∧
      ∀ pushed : List Decl,
        (start.after (steps ++ pushed.map .push)).current.find? second.name.canonical = some first ∧
          (start.after (steps ++ pushed.map .push)).current.get? second.name = some second := by
  intro first second steps
  have hedits : ∀ x ∈ steps, x.IsEdit := by
    simp only [steps, List.forall_mem_cons, List.not_mem_nil, IsEmpty.forall_iff, implies_true,
      and_true]
    exact ⟨.push _, .collect _, .push _, .push _⟩
  obtain ⟨types, -, -, -, -, hfind, hget, -⟩ := lookups_after_edits hedits
  refine ⟨hedits, fun pushed => ⟨hfind _ _ pushed ?_, hget _ _ pushed ?_⟩⟩
  · decide
  · decide

end Session

end TypeLint
