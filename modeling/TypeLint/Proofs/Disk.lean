import TypeLint.Disk

/-!
# Files with names of a single part

A name without slashes leads to the same place on every disk, and no two such names lead to one
file. So writing a file changes what its own name leads to and nothing else, and making folders
changes nothing that is there.

## Main statements

- `Disk.find?_of_write?` — what names lead to after a file has been written
- `Disk.find?_makeFolder` — what is there stays when folders are made
-/

namespace TypeLint

/-- The name has a single part. -/
def IsSingle (name : String) : Prop :=
  '/' ∉ name.toList

instance (name : String) : Decidable (IsSingle name) :=
  inferInstanceAs (Decidable (_ ∉ _))

theorem splitAtSlash_of_single {text : List Char} (htext : '/' ∉ text) :
    splitAtSlash text = [text] := by
  induction text with
  | nil => rfl
  | cons c text ih =>
    rw [List.mem_cons, not_or] at htext
    rw [splitAtSlash, ih htext.2]
    exact if_neg (Ne.symm htext.1)

namespace Disk

variable {d e : Disk} {name file : String} {content : List UInt8} {p : Path} {n : Node}

/-! ## Paths -/

/-- A name of a single part is entered from the home folder. -/
theorem locate_of_single (hname : IsSingle name) (d : Disk) :
    d.locate name = if name.utf8ByteSize ≤ longestName ∧ '\x00' ∉ name.toList then
      d.enter? .home name else none := by
  have hsplit : (splitAtSlash name.toList).map String.ofList = [name] := by
    rw [splitAtSlash_of_single hname]
    simp
  rw [locate, parts?, hsplit]
  by_cases hfits : name.utf8ByteSize ≤ longestName ∧ '\x00' ∉ name.toList
  · rw [if_pos hfits, if_pos hfits]
    simp
  · rw [if_neg hfits, if_neg hfits]

/-- The path of a name of a single part does not depend on the disk. -/
theorem locate_eq (hname : IsSingle name) (d e : Disk) : d.locate name = e.locate name := by
  rw [locate_of_single hname, locate_of_single hname]
  rfl

/-- Below the home folder, a name of a single part leads nowhere but to the file of the name. -/
theorem eq_child_of_locate (hname : IsSingle name) (hlocate : d.locate name = some p)
    (hbelow : p.down ≠ []) : p = Path.home.child name := by
  rw [locate_of_single hname, Option.ite_none_right_eq_some] at hlocate
  have henter := hlocate.2
  simp only [enter?] at henter
  split at henter
  · simp at henter
  · split at henter
    · obtain rfl := Option.some.inj henter
      exact absurd rfl hbelow
    · split at henter
      · obtain rfl := Option.some.inj henter
        exact absurd rfl hbelow
      · exact (Option.some.inj (Option.ite_none_right_eq_some.1 henter).2).symm

/-- No two names of a single part lead to one file. -/
theorem eq_of_locate (hname : IsSingle name) (hfile : IsSingle file)
    (hlocate : d.locate name = some p) (hother : e.locate file = some p) (hbelow : p.down ≠ []) :
    name = file := by
  have hchild := eq_child_of_locate hname hlocate hbelow
  rw [eq_child_of_locate hfile hother hbelow] at hchild
  simpa [Path.child, Path.home] using hchild.symm

theorem below_of_file (hfile : d.node? p = some (.file content)) : p.down ≠ [] := by
  intro hdown
  simp [node?, hdown] at hfile

/-! ## Writing -/

/-- No file is written where a name leads nowhere or to a folder, and only there. -/
theorem write?_eq_none_iff :
    d.write? name content = none ↔ d.locate name = none ∨ d.find? name = some .folder := by
  rw [write?, find?]
  cases d.locate name with
  | none => simp
  | some p => simp

/-- A written file is found under its name, and what other names lead to has not changed. -/
theorem find?_of_write? (hname : IsSingle name) (hfile : IsSingle file)
    (hwrite : d.write? file content = some e) :
    e.find? name = if name = file then some (.file content) else d.find? name := by
  obtain ⟨p, hlocate, hnodes⟩ := node?_write? hwrite
  have hbelow : p.down ≠ [] := below_of_file (by rw [hnodes, if_pos rfl])
  rw [find?, find?, locate_eq hname e d]
  split
  · rename_i q hq
    rw [hnodes]
    by_cases hsame : name = file
    · subst hsame
      rw [hlocate] at hq
      rw [if_pos (Option.some.inj hq).symm, if_pos rfl]
    · have hne : q ≠ p := by
        rintro rfl
        exact hsame (eq_of_locate hname hfile hq hlocate hbelow)
      rw [if_neg hne, if_neg hsame]
  · rename_i hnone
    rw [if_neg]
    rintro rfl
    simp [hnone] at hlocate

/-! ## Folders -/

/-- New folders leave the nodes that are there. -/
theorem node?_makeFolders (hnode : d.node? p = some n) (q : Path) (parts : List String) :
    (d.makeFolders q parts).node? p = some n := by
  induction parts generalizing d q with
  | nil => exact hnode
  | cons part parts ih =>
    rw [makeFolders]
    split
    · rename_i r _
      split
      · rename_i hfree
        refine ih ?_ r
        have hbelow : r.down ≠ [] := by
          intro hdown
          simp [node?, hdown] at hfree
        rw [node?_put hbelow, if_neg]
        · exact hnode
        · rintro rfl
          simp [hfree] at hnode
      · exact ih hnode r
    · exact hnode

/-- What a name leads to stays when folders are made. -/
theorem find?_makeFolder (hname : IsSingle name) (hfind : d.find? name = some n)
    (folder : String) : (d.makeFolder folder).find? name = some n := by
  rw [makeFolder]
  split
  · rename_i parts _
    rw [find?] at hfind
    rw [find?, locate_eq hname _ d]
    split at hfind
    · exact node?_makeFolders hfind .home parts
    · simp at hfind
  · exact hfind

end Disk

end TypeLint
