import CpkProvenance.Failure
import CpkProvenance.Path

/-!
# File trees

A tree of files and directories with a working directory. A path is walked step
by step, and every step but the last needs a directory to be taken in. Paths and
names are limited in length. A file is either written in place, or replaced by
way of a temporary file, which takes the file's place only when it is complete.

The device may fail at any stage of a replacement, but a temporary file can always
be removed. Reading and writing in place do not fail in such a way here, and there
are no links, permissions or times.
-/

namespace CpkProvenance

/-- A place in a tree: the names from the root down. -/
abbrev Location := List String

inductive FileNode
  | file (content : Bytes)
  | directory
  deriving DecidableEq, Repr

structure FileTree where
  nodes : List (Location × FileNode)
  workingDirectory : Location
  deriving DecidableEq, Repr

/-- Where a step leads. The root is above itself. -/
def Location.move (place : Location) : Path.Step → Location
  | .stay => place
  | .up => place.dropLast
  | .down name => place ++ [name]

namespace FileTree

/-- What stands at a place. The working directory is always there, with all that it
lies in up to the root. -/
def node? (t : FileTree) (place : Location) : Option FileNode :=
  if place.isPrefixOf t.workingDirectory then some .directory else t.nodes.lookup place

def insert (t : FileTree) (place : Location) (node : FileNode) : FileTree :=
  { t with nodes := (place, node) :: t.nodes.filter (·.1 ≠ place) }

def erase (t : FileTree) (place : Location) : FileTree :=
  { t with nodes := t.nodes.filter (·.1 ≠ place) }

/-- Fails unless a directory stands at a place. -/
def enter (t : FileTree) (place : Location) : Except FileError Location :=
  match t.node? place with
  | none => .error .notFound
  | some (.file _) => .error .notDirectory
  | some .directory => .ok place

/-- Takes a step in a directory. A name that is too long leads nowhere. -/
def step (t : FileTree) (place : Location) (s : Path.Step) : Except FileError Location :=
  match t.enter place with
  | .error e => .error e
  | .ok directory =>
      match s with
      | .down name =>
          if Path.longestName < Path.size name then .error .nameTooLong
          else .ok (directory ++ [name])
      | _ => .ok (directory.move s)

/-- Where some steps lead. Nothing needs to stand at the end. -/
def walk (t : FileTree) (place : Location) : List Path.Step → Except FileError Location
  | [] => .ok place
  | s :: rest =>
      match t.step place s with
      | .error e => .error e
      | .ok next => t.walk next rest

/-- Fails for a path that is refused whatever the tree looks like. -/
def checkPath (path : String) : Except FileError Unit :=
  if path.toList.any (·.toNat == 0) then .error .nulInPath
  else if Path.longestPath < Path.size path then .error .nameTooLong
  else if path = "" then .error .notFound
  else .ok ()

def start (t : FileTree) (path : String) : Location :=
  if Path.isAbsolute path then [] else t.workingDirectory

/-- Where a path leads. Nothing needs to stand there. -/
def locate (t : FileTree) (path : String) : Except FileError Location :=
  match checkPath path with
  | .error e => .error e
  | .ok _ => t.walk (t.start path) (Path.steps path)

def lookup (t : FileTree) (path : String) : Except FileError FileNode :=
  match t.locate path with
  | .error e => .error e
  | .ok place =>
      match t.node? place with
      | none => .error .notFound
      | some node => .ok node

def read (t : FileTree) (path : String) : Except FileError Bytes :=
  match t.lookup path with
  | .error e => .error e
  | .ok .directory => .error .isDirectory
  | .ok (.file content) => .ok content

def isDirectory (t : FileTree) (path : String) : Bool :=
  match t.lookup path with
  | .ok .directory => true
  | _ => false

/-- The place of the file that a path names, which need not be there, in a
directory that must be. A path that ends in a slash asks for a directory instead,
which fails as told. -/
def target (t : FileTree) (path : String) (whenDirectory : FileError) :
    Except FileError Location :=
  match checkPath path with
  | .error e => .error e
  | .ok _ =>
      let steps := Path.steps (Path.dropSlashes path)
      match t.walk (t.start path) steps.dropLast, steps.getLast? with
      | .error e, _ => .error e
      | .ok place, some (.down name) =>
          if Path.dropSlashes path ≠ path then (t.enter place).bind fun _ => .error whenDirectory
          else t.step place (.down name)
      | .ok place, _ => (t.enter place).bind fun _ => .error .isDirectory

def write (t : FileTree) (path : String) (content : Bytes) : Except FileError FileTree :=
  match t.target path .isDirectory with
  | .error e => .error e
  | .ok place =>
      match t.node? place with
      | some .directory => .error .isDirectory
      | _ => .ok (t.insert place (.file content))

/-- A name that is longer than every name in the tree. -/
def freshName (t : FileTree) : String :=
  let names := t.workingDirectory ++ t.nodes.flatMap (·.1)
  let longest := names.foldl (fun n name => max n name.length) 0
  String.ofList ('.' :: List.replicate longest 't')

/-- Moves a file over what stands at another place, unless that is a
directory. -/
def rename (t : FileTree) (source destination : Location) : Except FileError FileTree :=
  match t.node? destination with
  | some .directory => .error .isDirectory
  | _ =>
      match t.node? source with
      | none => .error .notFound
      | some node => .ok ((t.erase source).insert destination node)

def temporaryNameSize : Nat := 10

/-- The number of bytes in the path from the root to a temporary file in a
directory. -/
def temporaryPathSize (t : FileTree) (directory : String) : Nat :=
  let above := if Path.isAbsolute directory then 0
    else (t.workingDirectory.map fun name => Path.size name + 1).foldl (· + ·) 1
  above + Path.size directory + 1 + temporaryNameSize

/-- The directory that a temporary file is made in, which must be there. -/
def temporaryDirectory (t : FileTree) (path : String) : Except FileError Location :=
  let directory := Path.directory path
  if Path.longestPath < t.temporaryPathSize directory then .error .nameTooLong
  else
    match t.locate directory with
    | .error e => .error e
    | .ok place => t.enter place

/-- The stages of replacing a file: the temporary file is made, written, flushed,
synchronized with the device, and moved. -/
inductive Stage
  | make
  | write
  | flush
  | sync
  | move
  deriving DecidableEq, Repr

/-- What the device does to a replacement: which stages it fails, and how many bytes
are written before it fails the writing. -/
structure Faults where
  reason? : Stage → Option FileError
  written : Nat

structure ReplaceError where
  stage : Stage
  reason : FileError
  deriving DecidableEq, Repr

def Faults.none : Faults := ⟨fun _ => Option.none, 0⟩

def Faults.pass (faults : Faults) (stage : Stage) : Except ReplaceError Unit :=
  match faults.reason? stage with
  | some reason => .error ⟨stage, reason⟩
  | .none => .ok ()

def makeTemporary (t : FileTree) (faults : Faults) (path : String) :
    Except ReplaceError Location := do
  faults.pass .make
  let directory ← (t.temporaryDirectory path).mapError (⟨.make, ·⟩)
  return directory ++ [t.freshName]

def moveTemporary (t : FileTree) (temporary : Location) (path : String) :
    Except FileError FileTree := do
  let place ← t.target path .notDirectory
  t.rename temporary place

/-- The stages after a temporary file was written. -/
def settleTemporary (t : FileTree) (faults : Faults) (temporary : Location) (path : String) :
    Except ReplaceError FileTree := do
  faults.pass .flush
  faults.pass .sync
  faults.pass .move
  (t.moveTemporary temporary path).mapError (⟨.move, ·⟩)

/-- Writes a temporary file and moves it to where a path leads. If a stage fails, the
temporary file is left there, as far as it was written. -/
def fillTemporary (t : FileTree) (faults : Faults) (temporary : Location) (path : String)
    (content : Bytes) : Except ReplaceError Unit × FileTree :=
  match faults.pass .write with
  | .error e => (.error e, t.insert temporary (.file (content.take faults.written)))
  | .ok _ =>
      let filled := t.insert temporary (.file content)
      match filled.settleTemporary faults temporary path with
      | .error e => (.error e, filled)
      | .ok rest => (.ok (), rest)

/-- Replaces a file: its new content is written to a temporary file in its
directory, which is then moved over it. If that fails, the temporary file is
removed. -/
def replace (t : FileTree) (faults : Faults) (path : String) (content : Bytes) :
    Except ReplaceError Unit × FileTree :=
  match t.makeTemporary faults path with
  | .error e => (.error e, t)
  | .ok temporary =>
      match (t.insert temporary (.file [])).fillTemporary faults temporary path content with
      | (.error e, left) => (.error e, left.erase temporary)
      | (.ok _, rest) => (.ok (), rest)

def makeDirectories (t : FileTree) (place : Location) : List Path.Step → FileTree
  | [] => t
  | step :: rest =>
      let next := place.move step
      match t.node? next with
      | some _ => t.makeDirectories next rest
      | none => (t.insert next .directory).makeDirectories next rest

/-- All that stands below the working directory, with the paths from there. -/
def contents (t : FileTree) : List (String × FileNode) :=
  t.nodes.filterMap fun (place, node) =>
    let depth := t.workingDirectory.length
    if place.take depth = t.workingDirectory ∧ depth < place.length then
      some ("/".intercalate (place.drop depth), node)
    else none

end FileTree

end CpkProvenance
