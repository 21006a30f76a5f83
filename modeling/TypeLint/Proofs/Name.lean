import Mathlib.Data.List.Basic
import TypeLint.Name
import TypeLint.Proofs.Text.Run

/-!
# Comparison with a canonical form

Stripping the package and the dot off a string and comparing the rest with the short name is the
same as comparing the string with the canonical form. Different names can have one canonical form,
but not when their short names have no dot: then the last dot of the form is the one behind the
package.

## Main statements

- `canonical_eq_iff` — the names with a given canonical form
- `eq_of_canonical_eq` — names without a dot in their short names
- `answersTo_iff_parts` — which strings a name answers, and which names a string
-/

namespace TypeLint

namespace Name

/-- A string answers a name exactly when it is the canonical form. -/
theorem answersTo_iff {n : Name} {s : String} : n.answersTo s = true ↔ n.canonical = s := by
  unfold answersTo canonical
  by_cases hbuiltin : n.package = ""
  · simp [hbuiltin]
  · rw [if_neg hbuiltin, if_neg hbuiltin]
    have hform : n.package ++ "." ++ n.short = s ↔
        s.toList = n.package.toList ++ '.' :: n.short.toList := by
      rw [← String.toList_inj, eq_comm]
      simp
    rw [hform]
    constructor
    · intro h
      split at h
      · rename_i rest hstrip
        rw [← List.isPrefixOf?_eq_some_iff_append_eq.1 hstrip, beq_iff_eq.1 h]
      · simp at h
    · intro hs
      rw [List.isPrefixOf?_eq_some_iff_append_eq.2 hs.symm]
      simp

theorem eq_iff {m n : Name} : m = n ↔ m.package = n.package ∧ m.short = n.short := by
  cases m
  cases n
  simp

/-- A name without a package is written by its short name alone. -/
theorem canonical_of_builtin {n : Name} (hbuiltin : n.package = "") : n.canonical = n.short :=
  if_pos hbuiltin

/-- A name with a package is written with a dot between its parts. -/
theorem toList_canonical {n : Name} (hpackage : n.package ≠ "") :
    n.canonical.toList = n.package.toList ++ '.' :: n.short.toList := by
  rw [canonical, if_neg hpackage]
  simp

theorem dot_mem_canonical {n : Name} (hpackage : n.package ≠ "") : '.' ∈ n.canonical.toList := by
  rw [toList_canonical hpackage]
  simp

/-- Names without a dot in their short names are told apart by their canonical forms. -/
theorem eq_of_canonical_eq {m n : Name} (hm : '.' ∉ m.short.toList) (hn : '.' ∉ n.short.toList)
    (h : m.canonical = n.canonical) : m = n := by
  by_cases hp : m.package = ""
  · by_cases hq : n.package = ""
    · rw [canonical_of_builtin hp, canonical_of_builtin hq] at h
      exact eq_iff.2 ⟨hp.trans hq.symm, h⟩
    · -- Only one of the two forms has a dot.
      have hdot := dot_mem_canonical hq
      rw [← h, canonical_of_builtin hp] at hdot
      exact absurd hdot hm
  · by_cases hq : n.package = ""
    · have hdot := dot_mem_canonical hp
      rw [h, canonical_of_builtin hq] at hdot
      exact absurd hdot hn
    · have hlist := congrArg String.toList h
      rw [toList_canonical hp, toList_canonical hq] at hlist
      obtain ⟨hpackage, hshort⟩ := Text.append_cons_inj_of_last hm hn hlist
      exact eq_iff.2 ⟨String.toList_inj.1 hpackage, String.toList_inj.1 hshort⟩

/-- The names with a given canonical form: the builtin, and one for each dot behind at least one
    character. -/
theorem canonical_eq_iff {n : Name} {s : String} :
    n.canonical = s ↔
      n = builtin s ∨ ∃ package short, package ≠ "" ∧ s = package ++ "." ++ short ∧
        n = ⟨package, short⟩ := by
  constructor
  · rintro rfl
    by_cases hbuiltin : n.package = ""
    · exact .inl (eq_iff.2 ⟨hbuiltin, (canonical_of_builtin hbuiltin).symm⟩)
    · exact .inr ⟨n.package, n.short, hbuiltin, if_neg hbuiltin, rfl⟩
  · rintro (rfl | ⟨package, short, hpackage, rfl, rfl⟩)
    · exact canonical_of_builtin rfl
    · exact if_neg hpackage

/-- Two names that answer the same strings have the same canonical form, which both answer. -/
theorem answersTo_congr_iff {m n : Name} :
    (∀ s, m.answersTo s = n.answersTo s) ↔ m.canonical = n.canonical := by
  constructor
  · intro h
    exact answersTo_iff.1 ((h n.canonical).trans (answersTo_iff.2 rfl))
  · intro h s
    rw [Bool.eq_iff_iff, answersTo_iff, answersTo_iff, h]

/-- A name answers its canonical form and nothing else. So a string is answered by the builtin of
    this name and by one name for each dot behind a package, names that answer the same strings are
    those with one canonical form, and this form tells names apart whose short names have no dot. -/
theorem answersTo_iff_parts :
    (∀ (n : Name) (s : String), n.answersTo s = true ↔ n.canonical = s) ∧
    (∀ (n : Name) (s : String), n.answersTo s = true ↔
      n = builtin s ∨ ∃ package short, package ≠ "" ∧ s = package ++ "." ++ short ∧
        n = ⟨package, short⟩) ∧
    (∀ m n : Name, (∀ s, m.answersTo s = n.answersTo s) ↔ m.canonical = n.canonical) ∧
    ∀ m n : Name, '.' ∉ m.short.toList → '.' ∉ n.short.toList →
      (m.canonical = n.canonical ↔ m = n) := by
  refine ⟨fun n s => answersTo_iff, fun n s => answersTo_iff.trans canonical_eq_iff,
    fun m n => answersTo_congr_iff, fun m n hm hn => ⟨eq_of_canonical_eq hm hn, ?_⟩⟩
  rintro rfl
  rfl

/-- Packages with and without a dot at their end. -/
theorem answersTo_iff_parts_adjacent_dots :
    let n : Name := ⟨"a.", "b"⟩
    let m : Name := ⟨"a", "b"⟩
    '.' ∉ n.short.toList ∧ '.' ∉ m.short.toList ∧ (n.canonical = m.canonical ↔ n = m) ∧
      ∀ s, n.answersTo s = answersTo ⟨"a", ".b"⟩ s := by
  intro n m
  have hn : '.' ∉ n.short.toList := by decide
  have hm : '.' ∉ m.short.toList := by decide
  obtain ⟨-, -, hsame, hform⟩ := answersTo_iff_parts
  exact ⟨hn, hm, hform n m hn hm, (hsame n ⟨"a", ".b"⟩).2 (by decide)⟩

end Name

end TypeLint
