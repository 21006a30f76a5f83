/-!
# Files in memory

A disk holds files and folders by their path from the home folder. A name is a sequence of parts
with slashes between them and leads from the home folder to a path. Each part but the last has to
lead to a folder, and so does the last one when a slash is after it. Writing a file replaces all
that it held before.

## Main definitions

- `Path` — a way from the home folder
- `Disk.node?` — what is at a path
- `Disk.locate` — the path to which a name leads
- `Disk.find?` — what a name leads to
- `Disk.write?` — a disk with a file written
- `Disk.makeFolder` — a disk with a folder made

## Design notes

A disk does not know what the folders above the home folder are called, nor how many they are. So a
name may lead up as far as it likes, but none leads from above back into the home folder, and each
place has one path.
-/

namespace TypeLint

/-- What a path leads to. -/
inductive Node where
  | file (content : List UInt8)
  | folder
  deriving DecidableEq, Repr

/-- A way from the home folder: up by a number of folders, and then down along the parts. -/
structure Path where
  up : Nat
  down : List String
  deriving DecidableEq, Repr

namespace Path

/-- The folder in which names start. -/
def home : Path :=
  { up := 0, down := [] }

/-- The path one part further down. -/
def child (p : Path) (part : String) : Path :=
  { p with down := p.down ++ [part] }

/-- The path one folder up. -/
def parent (p : Path) : Path :=
  if p.down = [] then { p with up := p.up + 1 } else { p with down := p.down.dropLast }

end Path

/-- Splits a text at its slashes. -/
def splitAtSlash : List Char → List (List Char)
  | [] => [[]]
  | c :: text =>
    match splitAtSlash text with
    | part :: parts => if c = '/' then [] :: part :: parts else (c :: part) :: parts
    | [] => []

/-- Files and folders by path. Of two nodes at one path the first counts. -/
structure Disk where
  nodes : List (Path × Node)
  deriving DecidableEq, Repr

namespace Disk

/-- The disk with nothing but the home folder and the folders above it. -/
def empty : Disk :=
  { nodes := [] }

/-- What is at a path. The home folder and the folders above it are always there. -/
def node? (d : Disk) (p : Path) : Option Node :=
  if p.down = [] then some .folder else d.nodes.lookup p

/-- The disk with a node put at a path. -/
def put (d : Disk) (p : Path) (n : Node) : Disk :=
  { nodes := (p, n) :: d.nodes }

/-- The greatest length of a part of a name, in bytes. -/
def longestPart : Nat := 255

/-- The greatest length of a name, in bytes. With the way to the home folder in front of it, it
    stays below 4096 bytes. -/
def longestName : Nat := 4064

/-- The path to which one part of a name leads from a folder. An empty part and a single dot stay,
    two dots lead up, and any other part leads down. -/
def enter? (d : Disk) (p : Path) (part : String) : Option Path :=
  if d.node? p ≠ some .folder then none
  else if part = "" ∨ part = "." then some p
  else if part = ".." then some p.parent
  else if part.utf8ByteSize ≤ longestPart then some (p.child part)
  else none

/-- The parts of a name. A name must not be too long or have a null character in it. -/
def parts? (name : String) : Option (List String) :=
  if name.utf8ByteSize ≤ longestName ∧ '\x00' ∉ name.toList then
    some ((splitAtSlash name.toList).map String.ofList)
  else none

/-- The path to which a name leads. Nothing needs to be there, but the rest of the way has to be. -/
def locate (d : Disk) (name : String) : Option Path :=
  match parts? name with
  | some parts => parts.foldlM d.enter? .home
  | none => none

/-- What a name leads to. -/
def find? (d : Disk) (name : String) : Option Node :=
  match d.locate name with
  | some p => d.node? p
  | none => none

/-- The disk with a file written. There is none if the name leads nowhere or to a folder. -/
def write? (d : Disk) (name : String) (content : List UInt8) : Option Disk :=
  match d.locate name with
  | some p => if d.node? p = some .folder then none else some (d.put p (.file content))
  | none => none

/-- The disk with folders made where the parts lead to nothing, as far as they lead on. -/
def makeFolders (d : Disk) (p : Path) : List String → Disk
  | [] => d
  | part :: parts =>
    match d.enter? p part with
    | some q =>
      if d.node? q = none then makeFolders (d.put q .folder) q parts else makeFolders d q parts
    | none => d

/-- The disk with a folder made, and the folders on the way to it. Nothing that is there changes. -/
def makeFolder (d : Disk) (name : String) : Disk :=
  match parts? name with
  | some parts => d.makeFolders .home parts
  | none => d

/-- Putting a node changes what is at its own path only. -/
theorem node?_put {d : Disk} {p : Path} {n : Node} (h : p.down ≠ []) (q : Path) :
    (d.put p n).node? q = if q = p then some n else d.node? q := by
  by_cases same : q = p
  · subst same
    simp [node?, put, h]
  · have : (q == p) = false := by simpa using same
    simp [node?, put, List.lookup_cons, same, this]

/-- A written file is at the path to which its name leads, and nothing else changes. -/
theorem node?_write? {d e : Disk} {name : String} {content : List UInt8}
    (h : d.write? name content = some e) :
    ∃ p, d.locate name = some p ∧
      ∀ q, e.node? q = if q = p then some (.file content) else d.node? q := by
  unfold write? at h
  split at h
  · rename_i p located
    split at h
    · simp at h
    · rename_i free
      have below : p.down ≠ [] := fun none => free (by simp [node?, none])
      refine ⟨p, located, fun q => ?_⟩
      rw [← Option.some.inj h]
      exact node?_put below q
  · simp at h

end Disk

end TypeLint
