/-!
# Longest runs

A scanner that takes a longest run of some class off the front of a text stops exactly where a run
is followed by nothing or by something outside of the class. A run that stops inside a text stops
there whatever comes after the text. Read backwards, what stands behind the last mark of a text is
such a run.
-/

namespace TypeLint.Text

variable {α : Type} {p : α → Bool} {run rest text : List α}

/-- A run ends where what follows it does not go on with it. -/
theorem takeWhile_run (hrun : ∀ x ∈ run, p x) (hrest : ∀ x ∈ rest.head?, ¬ p x) :
    (run ++ rest).takeWhile p = run := by
  rw [List.takeWhile_append_of_pos hrun]
  cases rest with
  | nil => simp
  | cons x rest =>
    have hx : ¬ p x := hrest x rfl
    simp [hx]

/-- What follows a run is left when the run is dropped. -/
theorem dropWhile_run (hrun : ∀ x ∈ run, p x) (hrest : ∀ x ∈ rest.head?, ¬ p x) :
    (run ++ rest).dropWhile p = rest := by
  rw [List.dropWhile_append_of_pos hrun]
  cases rest with
  | nil => rfl
  | cons x rest =>
    have hx : ¬ p x := hrest x rfl
    simp [hx]

/-- What is left when a run is dropped starts after as many places as the run has. -/
theorem drop_length_takeWhile (text : List α) :
    text.drop (text.takeWhile p).length = text.dropWhile p := by
  have hdrop : (text.takeWhile p ++ text.dropWhile p).drop (text.takeWhile p).length =
      text.dropWhile p := List.drop_left
  rwa [List.takeWhile_append_dropWhile] at hdrop

/-- A run that ends inside a text is not longer when the text goes on. -/
theorem takeWhile_append_of_ends (hends : text.dropWhile p ≠ []) (more : List α) :
    (text ++ more).takeWhile p = text.takeWhile p := by
  rw [List.takeWhile_append, if_neg]
  intro hall
  rw [← drop_length_takeWhile, hall, List.drop_length] at hends
  exact hends rfl

/-- What is left behind such a run goes on with the text. -/
theorem dropWhile_append_of_ends (hends : text.dropWhile p ≠ []) (more : List α) :
    (text ++ more).dropWhile p = text.dropWhile p ++ more := by
  rw [List.dropWhile_append, if_neg]
  rwa [List.isEmpty_iff]

/-- A mark that is not in the first part of a text is in the rest of it. -/
theorem exists_append_of_notMem {mark : α} {xs ys before after : List α} (hxs : mark ∉ xs)
    (h : xs ++ ys = before ++ mark :: after) :
    ∃ more, before = xs ++ more ∧ ys = more ++ mark :: after := by
  rcases List.append_eq_append_iff.1 h with ⟨more, rfl, hys⟩ | ⟨more, rfl, hmore⟩
  · exact ⟨more, rfl, hys⟩
  · cases more with
    | nil => exact ⟨[], by simp, hmore.symm⟩
    | cons m more =>
      obtain rfl := (List.cons.inj hmore).1
      exact absurd (by simp) hxs

/-- Two texts with a mark after which it does not occur any more have the same parts. -/
theorem append_cons_inj_of_last [DecidableEq α] {mark : α} {xs ys us vs : List α}
    (hys : mark ∉ ys) (hvs : mark ∉ vs) (h : xs ++ mark :: ys = us ++ mark :: vs) :
    xs = us ∧ ys = vs := by
  have hreverse : ys.reverse ++ mark :: xs.reverse = vs.reverse ++ mark :: us.reverse := by
    simpa using congrArg List.reverse h
  have hrun {zs : List α} (hzs : mark ∉ zs) : ∀ z ∈ zs.reverse, (z != mark) = true := by
    intro z hz
    rw [bne_iff_ne]
    rintro rfl
    exact hzs (List.mem_reverse.1 hz)
  have hends (zs : List α) : ∀ z ∈ (mark :: zs).head?, ¬ (z != mark) = true := by simp
  -- Read backwards, the part behind the mark is the longest run without the mark.
  have htail := congrArg (List.takeWhile (· != mark)) hreverse
  rw [takeWhile_run (hrun hys) (hends _), takeWhile_run (hrun hvs) (hends _),
    List.reverse_inj] at htail
  have hhead := congrArg (List.dropWhile (· != mark)) hreverse
  rw [dropWhile_run (hrun hys) (hends _), dropWhile_run (hrun hvs) (hends _),
    List.cons.injEq, List.reverse_inj] at hhead
  exact ⟨hhead.2, htail⟩

end TypeLint.Text
