import TypeLint.Disk
import TypeLint.Json.Schema
import TypeLint.RuleSet
import TypeLint.Snapshot.Schema

/-!
# Sessions

A session works on one universe and can store it on a disk and load it again. It also keeps a marked
copy to compare with. A step that fails leaves everything as it was.

## Main definitions

- `StoreError` — why a universe could not be loaded or stored, with its message
- `Universe.load`, `Universe.store` — snapshots on a disk
- `Session.step` — one step of a session, with its reply
- `Session.run` — a sequence of steps
-/

namespace TypeLint

/-- Why a universe could not be loaded or stored. -/
inductive StoreError where
  /-- The text is no list of declared types. -/
  | notJson
  /-- There is nothing to read under the name of the file. -/
  | notFound (file : String)
  /-- What is under the name of the file is no snapshot. -/
  | notSnapshot (file : String)
  /-- No file can be written under the name. -/
  | notWritable (file : String)
  deriving DecidableEq, Repr

/-- The message of an error about files in the given folder. -/
def StoreError.message (folder : String) : StoreError → String
  | notJson => "Failed to parse types from JSON"
  | notFound file => "Failed to open file: " ++ folder ++ "/" ++ file
  | notSnapshot file => "Failed to parse types from: " ++ folder ++ "/" ++ file
  | notWritable file => "Failed to open file for writing: " ++ folder ++ "/" ++ file

namespace Universe

/-- The universe that a bare list of types declares. -/
def parse (text : String) : Except StoreError Universe :=
  match ofJsonList? text with
  | some u => .ok u
  | none => .error .notJson

/-- The universe of a snapshot on a disk. A folder can be opened, but it holds no snapshot. -/
def load (d : Disk) (file : String) : Except StoreError Universe :=
  match d.find? file with
  | none => .error (.notFound file)
  | some .folder => .error (.notSnapshot file)
  | some (.file content) =>
    match ofSnapshot? content with
    | some u => .ok u
    | none => .error (.notSnapshot file)

/-- The disk with the snapshot of the universe in a file. -/
def store (u : Universe) (d : Disk) (file : String) : Except StoreError Disk :=
  match d.write? file (Text.utf8 u.toSnapshot) with
  | some d => .ok d
  | none => .error (.notWritable file)

end Universe

/-- A universe, a marked copy of an earlier one, and a disk. -/
structure Session where
  current : Universe
  marked : Universe
  disk : Disk
  deriving DecidableEq, Repr

/-- What can be done in a session. -/
inductive Step where
  /-- Starts over with the empty universe. -/
  | clear
  /-- Adds a type. -/
  | push (type : Decl)
  /-- Starts over with the given types. -/
  | collect (types : List Decl)
  /-- Looks a type up by its canonical form. -/
  | find (canonical : String)
  /-- Looks a type up by its name. -/
  | get (name : Name)
  /-- Lists the types. -/
  | list
  /-- Reports the violations of the standard rules. -/
  | report
  /-- Marks the universe. -/
  | mark
  /-- Compares the universe with the marked one. -/
  | compare
  /-- Stores the universe in a file. -/
  | store (file : String)
  /-- Replaces the universe by the one in a file. -/
  | load (file : String)
  /-- Replaces the universe by the one in a JSON text. -/
  | parse (text : String)
  /-- Writes a file. -/
  | write (file : String) (content : List UInt8)
  /-- Makes a folder. -/
  | makeFolder (file : String)
  /-- Shows the text of a file. -/
  | display (file : String)
  deriving DecidableEq, Repr

/-- What a session replies to a step. -/
inductive Reply where
  | done
  | size (count : Nat)
  | found (type : Option Decl)
  | types (types : List Decl)
  | report (lines : List String)
  | same (answer : Bool)
  | text (content : Option String)
  | failed (error : StoreError)
  deriving DecidableEq, Repr

namespace Session

/-- A session with nothing in it. -/
def start : Session :=
  { current := .empty, marked := .empty, disk := .empty }

/-- The session with another universe; the reply is its size. -/
def continueWith (s : Session) (u : Universe) : Session × Reply :=
  ({ s with current := u }, .size u.size)

/-- One step of a session. -/
def step (s : Session) : Step → Session × Reply
  | .clear => s.continueWith .empty
  | .push t => s.continueWith (s.current.push t)
  | .collect types => s.continueWith { types := types }
  | .find canonical => (s, .found (s.current.find? canonical))
  | .get name => (s, .found (s.current.get? name))
  | .list => (s, .types s.current.types)
  | .report => (s, .report s.current.report)
  | .mark => ({ s with marked := s.current }, .size s.current.size)
  | .compare => (s, .same (s.current = s.marked))
  | .store file =>
    match s.current.store s.disk file with
    | .ok d => ({ s with disk := d }, .done)
    | .error e => (s, .failed e)
  | .load file =>
    match Universe.load s.disk file with
    | .ok u => s.continueWith u
    | .error e => (s, .failed e)
  | .parse text =>
    match Universe.parse text with
    | .ok u => s.continueWith u
    | .error e => (s, .failed e)
  | .write file content =>
    match s.disk.write? file content with
    | some d => ({ s with disk := d }, .done)
    | none => (s, .failed (.notWritable file))
  | .makeFolder file => ({ s with disk := s.disk.makeFolder file }, .done)
  | .display file =>
    match s.disk.find? file with
    | some (.file content) => (s, .text (Text.ofUtf8? content))
    | _ => (s, .text none)

/-- A sequence of steps, with the reply to each. -/
def run (s : Session) : List Step → Session × List Reply
  | [] => (s, [])
  | x :: steps =>
    let (s, reply) := s.step x
    let (s, replies) := run s steps
    (s, reply :: replies)

end Session

end TypeLint
