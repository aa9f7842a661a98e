import CpkProvenance.CommandLine.Run

/-!
# The program

Looks up the files that a command names, runs the command on that picture of the
file system, on a device without faults, and carries out what it changed.
-/

namespace CpkProvenance.CommandLine

def Command.inputs : Command → List String
  | .generate localPaths remotePaths _ _ => localPaths ++ remotePaths
  | .constraints libraries _ _ => libraries
  | .inspect document => [document]
  | .signers jar => [jar]
  | .companionPom _ _ _ _ _ _ => []

def Command.outputs : Command → List String
  | .generate _ _ _ output => [output, Path.join output Document.dependenciesFileName]
  | .constraints _ _ output => [output, Path.join output Document.constraintsFileName]
  | .companionPom _ _ _ _ _ output => [output]
  | _ => []

/-- Whether a command writes in place rather than by way of a temporary file. -/
def Command.writesInPlace : Command → Bool
  | .companionPom _ _ _ _ _ _ => true
  | _ => false

def diskPath (place : Location) : String :=
  "/" ++ "/".intercalate place

/-- Adds what stands at a place on the disk. The content of a file is read if it
is wanted. -/
def observe (files : FileTree) (place : Location) (wanted : Bool) : IO FileTree := do
  if (files.node? place).isSome && !wanted then return files
  let path := (← IO.currentDir) / diskPath place
  if ← path.isDir then return files.insert place .directory
  if ← path.pathExists then
    if wanted then
      let content ← IO.FS.readBinFile path
      return files.insert place (.file content.toList)
    return files.insert place (.file [])
  return files

/-- Adds what stands on the way along some steps, and at their end. -/
def observeSteps (files : FileTree) (place : Location) (wanted : Bool) :
    List Path.Step → IO FileTree
  | [] => observe files place wanted
  | step :: rest => do
      let files ← observe files place false
      observeSteps files (place.move step) wanted rest

def store (inPlace : Bool) (place : Location) (content temporaryName : String) : IO Unit := do
  if inPlace then IO.FS.writeFile (diskPath place) content
  else
    let temporary := diskPath (place.dropLast ++ [temporaryName])
    IO.FS.writeFile temporary content
    IO.FS.rename temporary (diskPath place)

def commit (inPlace : Bool) (before after : FileTree) : IO Unit := do
  for (place, node) in after.nodes do
    if before.node? place != some node then
      match node with
      | .file content =>
          store inPlace place ((Utf8.decode? content).getD "") before.freshName
      | .directory => pure ()

/-- The log lines that are shown. -/
def shownLine? (line : LogLine) : Option String :=
  match line.level with
  | .debug => none
  | .info => some (" INFO " ++ line.message)
  | .warn => some (" WARN " ++ line.message)
  | .error => some ("ERROR " ++ line.message)

def picture (command : Command) : IO FileTree := do
  let current := (Path.steps (← IO.currentDir).toString).filterMap fun
    | .down name => some name
    | _ => none
  let mut files : FileTree := ⟨[], current⟩
  for path in command.outputs do
    files ← observeSteps files (files.start path) false (Path.steps path)
  for path in command.inputs do
    files ← observeSteps files (files.start path) true (Path.steps path)
  return files

end CpkProvenance.CommandLine

open CpkProvenance CommandLine in
def main (words : List String) : IO UInt32 := do
  let environment : Environment :=
    ((← IO.getEnv algorithmVariable).map fun v => (algorithmVariable, v)).toList
  let command? := (Command.parse environment words).toOption
  let before ← match command? with
    | some command => picture command
    | none => pure ⟨[], []⟩
  let exit := run environment words .none before
  for line in exit.log.filterMap shownLine? do
    IO.eprintln line
  commit (command?.any Command.writesInPlace) before exit.files
  IO.print exit.output
  IO.eprint exit.report
  return exit.status.toUInt32
