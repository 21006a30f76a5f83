import TypeLint.Proofs.Tag.Entry
import TypeLint.Proofs.Tag.Splitting

/-!
# Literals that a scan finds

Reading a literal lets a bare quote between its quotes pass, and relies on the scan of entries to
end the literal there. On what a scan finds the two are in step: where the literal can be read, each
of its units is passed over by the scan as a whole. So every quote and every backslash between the
quotes belongs to an escape, and a reader that refuses bare quotes itself gives the same.

## Main definitions

- `StandsAt` — a unit of a body with what stands before and after it

## Main statements

- `strictBodyText?_eq_some_iff` — what the strict reader accepts
- `IsSplitting.quote`, `IsSplitting.backslash` — where quotes and backslashes stand
- `read_in_step_of_mem_entries` — the readers of a literal that a scan finds
-/

namespace TypeLint.Tag

open Text

variable {spelling body text front back : List Char} {c : Char} {units : List (List Char × Char)}

/-! ## The strict reader -/

/-- The strict reader accepts what the scan for the closing quote passes over, and reads it as the
    lenient one does. -/
theorem strictBodyText?_eq_some_iff :
    strictBodyText? body = some text ↔ IsBody body ∧ bodyText? body = some text := by
  have hcons {rest : List Char} (e : Char) {text : List Char}
      (hrest : ∀ {tail},
        strictBodyText? rest = some tail ↔ IsBody rest ∧ bodyText? rest = some tail) :
      (strictBodyText? rest).map (e :: ·) = some text ↔
        IsBody rest ∧ (bodyText? rest).map (e :: ·) = some text := by
    simp only [Option.map_eq_some_iff, hrest, and_assoc, exists_and_left]
  fun_induction strictBodyText? body generalizing text with
  | case1 => simp [bodyText?, IsBody.nil]
  | case2 c body hrefused =>
    simp only [reduceCtorEq, false_iff, not_and]
    rcases hrefused with rfl | rfl
    · simp [bodyText?]
    · intro hbody
      exact absurd rfl ((isBody_cons_iff (by decide)).1 hbody).1
  | case3 body hread => simp [bodyText?_of_readEscape_eq_none hread]
  | case4 body e rest hread _ ih =>
    obtain ⟨spelling, rfl, hunit⟩ := readEscape_eq_some_iff.1 hread
    have hbody : IsBody ('\\' :: spelling ++ rest) ↔ IsBody rest := by
      rw [hunit.isBody_append_iff]
      simp
    rw [hcons e ih, bodyText?_escape hread, ← hbody, List.cons_append]
  | case5 c body hrefused hslash ih =>
    obtain ⟨hfeed, hquote⟩ := not_or.1 hrefused
    rw [hcons c ih, bodyText?_plain hslash hfeed, isBody_cons_iff hslash, and_iff_right hquote]

/-- On the body of a literal, the strict reader agrees with the lenient one. -/
theorem strictBodyText?_eq (hbody : IsBody body) : strictBodyText? body = bodyText? body := by
  refine Option.ext fun text => ?_
  rw [strictBodyText?_eq_some_iff, and_iff_right hbody]

theorem strictLiteralText?_quoted (body : List Char) :
    strictLiteralText? ('"' :: body ++ ['"']) = strictBodyText? body := by
  rw [List.cons_append, strictLiteralText?, if_pos (by simp), List.dropLast_concat]

/-! ## Positions -/

/-- The unit stands between two parts of a body that consist of whole units. -/
def StandsAt (units : List (List Char × Char)) (front : List Char) (unit : List Char × Char)
    (back : List Char) : Prop :=
  ∃ us vs, units = us ++ unit :: vs ∧ front = us.flatMap Prod.fst ∧ back = vs.flatMap Prod.fst

theorem StandsAt.mem {unit : List Char × Char} (h : StandsAt units front unit back) :
    unit ∈ units := by
  obtain ⟨us, vs, rfl, -, -⟩ := h
  simp

/-- A unit moves on when another one is put in front. -/
theorem StandsAt.cons {unit : List Char × Char} (h : StandsAt units front unit back)
    (u : List Char × Char) : StandsAt (u :: units) (u.1 ++ front) unit back := by
  obtain ⟨us, vs, rfl, rfl, rfl⟩ := h
  exact ⟨u :: us, vs, rfl, rfl, rfl⟩

/-- Each character of a body belongs to a unit. -/
theorem exists_standsAt (h : units.flatMap Prod.fst = front ++ c :: back) :
    ∃ unit before pre post after, StandsAt units before unit after ∧ unit.1 = pre ++ c :: post ∧
      front = before ++ pre ∧ back = post ++ after := by
  induction units generalizing front with
  | nil => simp at h
  | cons u units ih =>
    have hrest {inner : List Char} (hinner : units.flatMap Prod.fst = inner ++ c :: back)
        (hfront : front = u.1 ++ inner) :
        ∃ unit before pre post after, StandsAt (u :: units) before unit after ∧
          unit.1 = pre ++ c :: post ∧ front = before ++ pre ∧ back = post ++ after := by
      obtain ⟨unit, before, pre, post, after, hstands, hunit, rfl, hback⟩ := ih hinner
      refine ⟨unit, u.1 ++ before, pre, post, after, hstands.cons u, hunit, ?_, hback⟩
      rw [hfront, List.append_assoc]
    rw [List.flatMap_cons, List.append_eq_append_iff] at h
    rcases h with ⟨inner, hfront, hinner⟩ | ⟨inner, hu, hinner⟩
    · exact hrest hinner hfront
    · cases inner with
      | nil =>
        have hinner' : units.flatMap Prod.fst = [] ++ c :: back := hinner.symm
        exact hrest hinner' (by rw [hu, List.append_nil, List.append_nil])
      | cons d post =>
        obtain ⟨rfl, rfl⟩ := List.cons.inj hinner
        exact ⟨u, [], front, post, _, ⟨[], units, rfl, rfl, rfl⟩, hu, rfl, rfl⟩

/-- A character that is no digit is the first one of its unit, or the second one of a short
    escape. -/
theorem IsUnit.first_or_second {pre post : List Char} {x : Char} (hunit : IsUnit spelling c)
    (hx : ¬ digitValue x < 36) (h : spelling = pre ++ x :: post) :
    pre = [] ∨ pre = ['\\'] ∧ post = [] ∧ (x, c) ∈ shortEscapes := by
  cases pre with
  | nil => exact .inl rfl
  | cons p pre =>
    right
    rcases hunit.shape with ⟨-, rfl⟩ | ⟨e, hmem, rfl⟩ | ⟨e, digits, rfl, hdigits⟩
    · simp at h
    · obtain ⟨hslash, htail⟩ := List.cons.inj h
      rcases List.append_eq_singleton_iff.1 htail.symm with ⟨rfl, hsecond⟩ | ⟨-, hsecond⟩
      · obtain ⟨rfl, rfl⟩ := List.cons.inj hsecond
        exact ⟨by rw [hslash], rfl, hmem⟩
      · simp at hsecond
    · obtain ⟨-, htail⟩ := List.cons.inj h
      exact absurd (hdigits x (by simp [htail])) hx

/-- A character of a body that is no digit is the first one of a unit, or the second one of its own
    escape. -/
theorem IsSplitting.first_or_second {x : Char} (hsplit : IsSplitting body units)
    (hx : ¬ digitValue x < 36) (h : body = front ++ x :: back) :
    (∃ post c after, back = post ++ after ∧ StandsAt units front (x :: post, c) after) ∨
      ∃ before, front = before ++ ['\\'] ∧ StandsAt units before (['\\', x], x) back := by
  obtain ⟨⟨spelling, c⟩, before, pre, post, after, hstands, hspelling, rfl, rfl⟩ :=
    exists_standsAt (hsplit.1.symm.trans h)
  have hunit : IsUnit spelling c := hsplit.2 _ hstands.mem
  obtain rfl : spelling = pre ++ x :: post := hspelling
  rcases hunit.first_or_second hx rfl with rfl | ⟨rfl, rfl, hmem⟩
  · left
    rw [List.append_nil]
    exact ⟨post, c, after, rfl, hstands⟩
  · -- Only letters have short escapes for other characters.
    right
    have hself : ∀ p ∈ shortEscapes, ¬ digitValue p.1 < 36 → p.1 = p.2 := by decide
    obtain rfl : x = c := hself _ hmem hx
    exact ⟨before, rfl, hstands⟩

/-- A quote of a body that the scan passes over is escaped. -/
theorem IsSplitting.quote (hsplit : IsSplitting body units) (hbody : IsBody body)
    (h : body = front ++ '"' :: back) :
    ∃ before, front = before ++ ['\\'] ∧ StandsAt units before (['\\', '"'], '"') back := by
  rcases hsplit.first_or_second (by decide) h with ⟨post, c, after, -, hstands⟩ | hescaped
  · -- A unit that starts with a quote is a bare one.
    have hbare := hsplit.isBody_iff.1 hbody _ hstands.mem
    rcases (hsplit.2 _ hstands.mem).plain_or_escape with ⟨-, hplain⟩ | ⟨e, tail, hescape⟩
    · obtain ⟨rfl, rfl⟩ := List.cons.inj hplain
      exact absurd rfl hbare
    · exact absurd (List.cons.inj hescape).1 (by decide)
  · exact hescaped

/-- A backslash of a body starts an escape, with the character that it escapes in the same unit, or
    it is escaped itself. -/
theorem IsSplitting.backslash (hsplit : IsSplitting body units) (h : body = front ++ '\\' :: back) :
    (∃ e tail c after,
      back = e :: tail ++ after ∧ StandsAt units front ('\\' :: e :: tail, c) after) ∨
      ∃ before, front = before ++ ['\\'] ∧ StandsAt units before (['\\', '\\'], '\\') back := by
  rcases hsplit.first_or_second (by decide) h with ⟨post, c, after, hback, hstands⟩ | hescaped
  · left
    rcases (hsplit.2 _ hstands.mem).plain_or_escape with ⟨hslash, hplain⟩ | ⟨e, tail, hescape⟩
    · obtain ⟨rfl, -⟩ := List.cons.inj hplain
      exact absurd rfl hslash
    · obtain ⟨-, rfl⟩ := List.cons.inj hescape
      exact ⟨e, tail, c, after, hback, hstands⟩
  · exact .inr hescaped

/-! ## Entries -/

/-- Reading alone lets a bare quote pass, but the literals that a scan finds have none. What can be
    read of them has each quote as the second character of its own escape, and no backslash without
    the character that it escapes; what is read is what the strict reader gives. -/
theorem read_in_step_of_mem_entries (tag : List Char) :
    (∀ body, bodyText? ('"' :: body) = (bodyText? body).map ('"' :: ·) ∧
      strictBodyText? ('"' :: body) = none) ∧
    ∀ e ∈ entries tag,
      literalText? e.literal = strictLiteralText? e.literal ∧
      ∃ body, e.literal = '"' :: body ++ ['"'] ∧ IsBody body ∧
        ∀ text, literalText? e.literal = some text →
          ∃ units, IsSplitting body units ∧ text = units.map Prod.snd ∧
            (∀ front back, body = front ++ '"' :: back →
              ∃ before, front = before ++ ['\\'] ∧
                StandsAt units before (['\\', '"'], '"') back) ∧
            ∀ front back, body = front ++ '\\' :: back →
              (∃ d tail c after, back = d :: tail ++ after ∧
                StandsAt units front ('\\' :: d :: tail, c) after) ∨
              ∃ before, front = before ++ ['\\'] ∧
                StandsAt units before (['\\', '\\'], '\\') back := by
  refine ⟨fun body => ⟨bodyText?_plain (by decide) (by decide) body, ?_⟩, fun e he => ?_⟩
  · rw [strictBodyText?, if_pos (.inr rfl)]
  · obtain ⟨body, hbody, hliteral⟩ := (wellFormed_of_mem_entries he).literal
    rw [hliteral, literalText?_quoted, strictLiteralText?_quoted, strictBodyText?_eq hbody]
    refine ⟨rfl, body, rfl, hbody, fun text htext => ?_⟩
    obtain ⟨units, hsplit, rfl⟩ := bodyText?_eq_some_iff.1 htext
    exact ⟨units, hsplit, rfl, fun front back => hsplit.quote hbody, fun front back =>
      hsplit.backslash⟩

/-- Escaped backslashes before an escaped quote and before the end of the literal. -/
theorem read_in_step_of_mem_entries_run_of_backslashes :
    let tag := " a:\"\\\\\\\"x\\\\\" b:\"\\q\"".toList
    let e : Entry := ⟨['a'], "\"\\\\\\\"x\\\\\"".toList⟩
    let body := "\\\\\\\"x\\\\".toList
    e ∈ entries tag ∧ literalText? e.literal = some "\\\"x\\".toList ∧
      strictLiteralText? e.literal = some "\\\"x\\".toList ∧
      body = ['\\', '\\', '\\'] ++ '"' :: ['x', '\\', '\\'] ∧
      ∃ units, IsSplitting body units ∧
        StandsAt units ['\\', '\\'] (['\\', '"'], '"') ['x', '\\', '\\'] := by
  intro tag e body
  have hscan : Entry.scan tag = some (e, " b:\"\\q\"".toList) := by decide
  have he : e ∈ entries tag := by
    rw [entries_of_scan hscan]
    exact List.mem_cons_self
  have htext : literalText? e.literal = some "\\\"x\\".toList := by decide +kernel
  have hquote : body = ['\\', '\\', '\\'] ++ '"' :: ['x', '\\', '\\'] := by decide
  obtain ⟨hstrict, body', hliteral, -, hread⟩ := (read_in_step_of_mem_entries tag).2 e he
  obtain rfl : body = body' := List.append_cancel_right (List.cons.inj hliteral).2
  obtain ⟨units, hsplit, -, hquotes, -⟩ := hread _ htext
  obtain ⟨before, hfront, hstands⟩ := hquotes _ _ hquote
  obtain rfl : ['\\', '\\'] = before := List.append_cancel_right hfront
  exact ⟨he, htext, hstrict ▸ htext, hquote, units, hsplit, hstands⟩

end TypeLint.Tag
