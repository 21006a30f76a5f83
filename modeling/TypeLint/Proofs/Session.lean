import TypeLint.Proofs.Disk
import TypeLint.Proofs.Snapshot.RoundTrip
import TypeLint.Session

/-!
# Storing and loading in a session

A step that fails leaves everything as it was. A universe that has been stored is loaded as it was
then, whatever the file held before and whatever has been done since, as long as the file has not
been written again.

## Main definitions

- `Session.Fails` — why a step fails
- `Session.Leaves` — steps that do not write a file

## Main statements

- `Session.failed_iff_fails` — a step fails for one of these reasons and for no other
- `Session.find?_after` — a file stays what it is while it is left alone
- `Session.run_stores_and_loads` — failures and loads at all places of a run
-/

namespace TypeLint

open Text

/-- The file that a step writes. -/
def Step.target? : Step → Option String
  | store file | write file _ => some file
  | _ => none

namespace Session

/-- The session after some steps. -/
def after (s : Session) (steps : List Step) : Session :=
  (s.run steps).1

/-- None of the steps writes the file with success. -/
def Leaves (s : Session) (file : String) (steps : List Step) : Prop :=
  ∀ front x back, steps = front ++ x :: back → x.target? = some file →
    ((s.after front).step x).2 ≠ .done

/-- Why a step of a session fails. -/
inductive Fails (s : Session) : Step → StoreError → Prop
  /-- The text is no list of declared types. -/
  | malformed {text : String} : Universe.ofJsonList? text = none → Fails s (.parse text) .notJson
  /-- There is nothing under the name of the file. -/
  | missing {file : String} : s.disk.find? file = none → Fails s (.load file) (.notFound file)
  /-- There is a folder under the name of the file. -/
  | folder {file : String} :
      s.disk.find? file = some .folder → Fails s (.load file) (.notSnapshot file)
  /-- The file is no snapshot. -/
  | other {file : String} {content : List UInt8} :
      s.disk.find? file = some (.file content) → Universe.ofSnapshot? content = none →
      Fails s (.load file) (.notSnapshot file)
  /-- The name of the file that is to be written leads nowhere or to a folder. -/
  | taken {x : Step} {file : String} :
      x.target? = some file → s.disk.locate file = none ∨ s.disk.find? file = some .folder →
      Fails s x (.notWritable file)

variable {s : Session} {x : Step} {file : String} {e : StoreError} {content : List UInt8}

/-! ## Runs -/

@[simp] theorem after_nil : s.after [] = s := rfl

@[simp] theorem after_cons (x : Step) (steps : List Step) :
    s.after (x :: steps) = (s.step x).1.after steps := rfl

/-- A run can be cut anywhere. -/
theorem after_append (front back : List Step) :
    s.after (front ++ back) = (s.after front).after back := by
  induction front generalizing s with
  | nil => rfl
  | cons x front ih => exact ih

theorem Leaves.head {steps : List Step} (hleaves : s.Leaves file (x :: steps)) :
    x.target? = some file → (s.step x).2 ≠ .done :=
  hleaves [] x steps rfl

/-- A file that is left alone by a run is left alone by the rest of it. -/
theorem Leaves.tail {steps : List Step} (hleaves : s.Leaves file (x :: steps)) :
    (s.step x).1.Leaves file steps :=
  fun front y back hsteps => hleaves (x :: front) y back (congrArg (x :: ·) hsteps)

/-- Steps that write other files leave a file alone. -/
theorem leaves_of_targets {steps : List Step} (htargets : ∀ x ∈ steps, x.target? ≠ some file) :
    s.Leaves file steps := by
  rintro front x back rfl htarget
  exact absurd htarget (htargets x (by simp))

/-! ## Failures -/

/-- A step that writes a file is done if the file can be written, and fails otherwise. -/
theorem step_of_target (s : Session) (htarget : x.target? = some file) :
    ∃ bytes, s.step x = match s.disk.write? file bytes with
      | some d => ({ s with disk := d }, .done)
      | none => (s, .failed (.notWritable file)) := by
  cases x with
  | store f =>
    obtain rfl := Option.some.inj htarget
    refine ⟨utf8 s.current.toSnapshot, ?_⟩
    rw [step, Universe.store]
    cases s.disk.write? f (utf8 s.current.toSnapshot) with
    | none => rfl
    | some d => rfl
  | write f content =>
    obtain rfl := Option.some.inj htarget
    exact ⟨content, rfl⟩
  | _ => simp [Step.target?] at htarget

/-- A step that fails has a reason to. -/
theorem fails_of_failed (hfailed : (s.step x).2 = .failed e) : s.Fails x e := by
  cases htarget : x.target? with
  | some file =>
    obtain ⟨bytes, hstep⟩ := s.step_of_target htarget
    rw [hstep] at hfailed
    split at hfailed
    · simp at hfailed
    · rename_i hnone
      obtain rfl := Reply.failed.inj hfailed
      exact .taken htarget (Disk.write?_eq_none_iff.1 hnone)
  | none =>
    cases x with
    | load file =>
      cases hfind : s.disk.find? file with
      | none =>
        obtain rfl : .notFound file = e := by simpa [step, Universe.load, hfind] using hfailed
        exact .missing hfind
      | some node =>
        cases node with
        | folder =>
          obtain rfl : .notSnapshot file = e := by
            simpa [step, Universe.load, hfind] using hfailed
          exact .folder hfind
        | file content =>
          cases hread : Universe.ofSnapshot? content with
          | none =>
            obtain rfl : .notSnapshot file = e := by
              simpa [step, Universe.load, hfind, hread] using hfailed
            exact .other hfind hread
          | some u => simp [step, Universe.load, hfind, hread, continueWith] at hfailed
    | parse text =>
      cases hread : Universe.ofJsonList? text with
      | none =>
        obtain rfl : .notJson = e := by simpa [step, Universe.parse, hread] using hfailed
        exact .malformed hread
      | some u => simp [step, Universe.parse, hread, continueWith] at hfailed
    | store | write => simp [Step.target?] at htarget
    | display f =>
      simp only [step] at hfailed
      split at hfailed
      · simp at hfailed
      · simp at hfailed
    | _ => simp [step, continueWith] at hfailed

/-- A step with a reason to fail does so, and leaves the session as it was. -/
theorem failed_of_fails (hfails : s.Fails x e) : s.step x = (s, .failed e) := by
  cases hfails with
  | malformed hnone => simp [step, Universe.parse, hnone]
  | missing hfind => simp [step, Universe.load, hfind]
  | folder hfind => simp [step, Universe.load, hfind]
  | other hfind hnone => simp [step, Universe.load, hfind, hnone]
  | taken htarget htaken =>
    obtain ⟨bytes, hstep⟩ := s.step_of_target htarget
    rw [hstep, Disk.write?_eq_none_iff.2 htaken]

/-- A step fails for one of the reasons there are and for no other. -/
theorem failed_iff_fails : (s.step x).2 = .failed e ↔ s.Fails x e :=
  ⟨fails_of_failed, fun hfails => congrArg Prod.snd (failed_of_fails hfails)⟩

/-! ## Files -/

/-- A step that writes another file, or fails, leaves a file as it is. -/
theorem find?_step_of_target (hfile : IsSingle file) (hsingle : ∀ f ∈ x.target?, IsSingle f)
    {target : String} (htarget : x.target? = some target)
    (hleft : x.target? = some file → (s.step x).2 ≠ .done)
    (hfind : s.disk.find? file = some (.file content)) :
    (s.step x).1.disk.find? file = some (.file content) := by
  obtain ⟨bytes, hstep⟩ := s.step_of_target htarget
  cases hwrite : s.disk.write? target bytes with
  | none => rwa [hstep, hwrite]
  | some d =>
    rw [hwrite] at hstep
    have hne : file ≠ target := by
      rintro rfl
      exact hleft htarget (congrArg Prod.snd hstep)
    rw [hstep, Disk.find?_of_write? hfile (hsingle target htarget) hwrite, if_neg hne, hfind]

/-- A step leaves a file as it is unless it writes the file. -/
theorem find?_step (hfile : IsSingle file) (hsingle : ∀ f ∈ x.target?, IsSingle f)
    (hleft : x.target? = some file → (s.step x).2 ≠ .done)
    (hfind : s.disk.find? file = some (.file content)) :
    (s.step x).1.disk.find? file = some (.file content) := by
  cases htarget : x.target? with
  | some target => exact find?_step_of_target hfile hsingle htarget hleft hfind
  | none =>
    cases x with
    | makeFolder folder => exact Disk.find?_makeFolder hfile hfind folder
    | store | write => simp [Step.target?] at htarget
    | load | parse | display =>
      simp only [step]
      split
      · exact hfind
      · exact hfind
    | _ => exact hfind

/-- A file stays what it is while it is left alone. -/
theorem find?_after {steps : List Step} (hfile : IsSingle file)
    (hsingle : ∀ x ∈ steps, ∀ f ∈ x.target?, IsSingle f) (hleaves : s.Leaves file steps)
    (hfind : s.disk.find? file = some (.file content)) :
    (s.after steps).disk.find? file = some (.file content) := by
  induction steps generalizing s with
  | nil => exact hfind
  | cons x steps ih =>
    obtain ⟨hx, hsteps⟩ := List.forall_mem_cons.1 hsingle
    exact ih hsteps hleaves.tail (find?_step hfile hx hleaves.head hfind)

/-- A load replaces the universe by the one in the file, and nothing else. -/
theorem step_load_of_file {u : Universe} (hfind : s.disk.find? file = some (.file content))
    (hread : Universe.ofSnapshot? content = some u) :
    s.step (.load file) =
      ({ current := u, marked := s.marked, disk := s.disk }, .size u.types.length) := by
  simp only [step, Universe.load, hfind, hread, continueWith, Universe.size]

/-- A stored universe is loaded as it was, if its file has been left alone since. -/
theorem step_load_of_stored {steps : List Step} (hfile : IsSingle file)
    (hsingle : ∀ x ∈ steps, ∀ f ∈ x.target?, IsSingle f)
    (hstored : (s.step (.store file)).2 = .done)
    (hleaves : (s.step (.store file)).1.Leaves file steps) :
    let t := (s.step (.store file)).1.after steps
    t.step (.load file) = ({ current := s.current, marked := t.marked, disk := t.disk },
      .size s.current.types.length) := by
  cases hwrite : s.disk.write? file (utf8 s.current.toSnapshot) with
  | none => simp [step, Universe.store, hwrite] at hstored
  | some d =>
    have hstep : s.step (.store file) = ({ s with disk := d }, .done) := by
      simp [step, Universe.store, hwrite]
    rw [hstep] at hleaves ⊢
    have hfind : d.find? file = some (.file (utf8 s.current.toSnapshot)) := by
      rw [Disk.find?_of_write? hfile hfile hwrite, if_pos rfl]
    have hread : Universe.ofSnapshot? (utf8 s.current.toSnapshot) = some s.current :=
      Snapshot.ofSnapshot?_of_laysOut (Snapshot.laysOut_spelling Text.isInvisible _)
    exact step_load_of_file (find?_after hfile hsingle hleaves hfind) hread

/-- At any place of a run whose written files have names of a single part, a step fails just for the
    reasons there are and then changes nothing, and a load gives the universe that was stored in the
    file when that was last written. -/
theorem run_stores_and_loads (s : Session) (steps : List Step)
    (hsingle : ∀ x ∈ steps, ∀ file ∈ x.target?, IsSingle file) :
    (∀ front x back e, steps = front ++ x :: back →
      (((s.after front).step x).2 = .failed e ↔ (s.after front).Fails x e) ∧
        ((s.after front).Fails x e → s.after (front ++ [x]) = s.after front)) ∧
    (∀ front file between back, steps = front ++ .store file :: (between ++ .load file :: back) →
      ((s.after front).step (.store file)).2 = .done →
      (s.after (front ++ [.store file])).Leaves file between →
      let t := s.after (front ++ .store file :: between)
      t.step (.load file) =
        ({ current := (s.after front).current, marked := t.marked, disk := t.disk },
          .size (s.after front).current.types.length)) := by
  constructor
  · intro front x back e _
    refine ⟨failed_iff_fails, fun hfails => ?_⟩
    rw [after_append, after_cons, after_nil, failed_of_fails hfails]
  · intro front file between back hsteps hstored hleaves
    have hsteps' : ∀ x ∈ .store file :: (between ++ .load file :: back),
        ∀ f ∈ x.target?, IsSingle f := fun x hx =>
      hsingle x (hsteps ▸ List.mem_append_right front hx)
    obtain ⟨hfile, hrest⟩ := List.forall_mem_cons.1 hsteps'
    have hbetween := (List.forall_mem_append.1 hrest).1
    rw [after_append, after_cons, after_nil] at hleaves
    rw [after_append, after_cons]
    exact step_load_of_stored (hfile file rfl) hbetween hstored hleaves

/-- A store over something else, and a load after failures of all kinds. -/
theorem run_stores_and_loads_among_failures :
    let t : Decl := .ofKind ⟨"", "T"⟩ .map
    let stored :=
      start.after [.write "f" (utf8 "[[["), .push t, .store "f", .makeFolder "d", .clear]
    let failed := stored.after [.store "d", .parse "[", .load "d", .load "e"]
    stored.after [.store "d"] = stored ∧
      failed.step (.load "f") =
        ({ current := ⟨[t]⟩, marked := failed.marked, disk := failed.disk }, .size 1) := by
  intro t stored failed
  let front : List Step := [.write "f" (utf8 "[[["), .push t]
  let between : List Step :=
    [.makeFolder "d", .clear, .store "d", .parse "[", .load "d", .load "e"]
  have hrun := run_stores_and_loads start (front ++ .store "f" :: (between ++ [.load "f"]))
    (by decide)
  constructor
  · have hfails : stored.Fails (.store "d") (.notWritable "d") := .taken rfl (.inr rfl)
    exact (hrun.1 (front ++ .store "f" :: between.take 2) (.store "d") _ _ rfl).2 hfails
  · exact hrun.2 front "f" between [] rfl rfl (leaves_of_targets (by decide))

end Session

end TypeLint
