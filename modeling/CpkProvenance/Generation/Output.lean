import CpkProvenance.Document.Writer
import CpkProvenance.Generation.Constraints
import CpkProvenance.Generation.Dependencies
import CpkProvenance.Maven.Pom

/-!
# Written documents

Writes a generated document to a file, or under its usual name into a directory.
A companion POM is written to exactly the given path.
-/

namespace CpkProvenance

namespace Document

def dependenciesFileName : String := "CPKDependencies"

def constraintsFileName : String := "DependencyConstraints"

/-- The path that is written for an output: the output itself, or a file of the
given name in it. -/
def resolveOutput (files : FileTree) (output fileName : String) : String :=
  if files.isDirectory output then Path.join output fileName else output

/-- The failure of a replacement. A text that cannot be written is called by its root
element; otherwise the path is named. Why no temporary file is made is left out, as
that would be told with the name of the file. -/
def replaceFailure (path root : String) (e : FileTree.ReplaceError) : Failure :=
  match e.stage with
  | .make => .unwritable path none
  | .write => .unwritable ("<" ++ root ++ "> document") (some e.reason)
  | _ => .unwritable path (some e.reason)

/-- Replaces the file at a path by a text, and notes that in the log. -/
def replaceText (faults : FileTree.Faults) (path root text note : String) :
    Update FileTree String := fun files =>
  match files.replace faults path (Utf8.encode text.toList) with
  | (.error e, rest) => ⟨Traced.fail (replaceFailure path root e), rest⟩
  | (.ok _, rest) => ⟨⟨[⟨.debug, note⟩], 0, .ok path⟩, rest⟩

def Dependencies.write (faults : FileTree.Faults) (output : String) (d : Dependencies) :
    Update FileTree String := do
  let path ← Update.gets (resolveOutput · output dependenciesFileName)
  replaceText faults path "cpkDependencies" d.toXml
    ("Wrote " ++ toString d.dependencies.length ++ " CPK dependencies to " ++ path)

def Constraints.write (faults : FileTree.Faults) (output : String) (d : Constraints) :
    Update FileTree String := do
  let path ← Update.gets (resolveOutput · output constraintsFileName)
  replaceText faults path "dependencyConstraints" d.toXml
    ("Wrote " ++ toString d.constraints.length ++ " dependency constraints to " ++ path)

def Dependencies.run (faults : FileTree.Faults) (localPaths remotePaths : List String)
    (algorithm output : String) : Update FileTree String := do
  let document ← Update.reading fun files => generate files localPaths remotePaths algorithm
  document.write faults output

def Constraints.run (faults : FileTree.Faults) (paths : List String) (algorithm output : String) :
    Update FileTree String := do
  let document ← Update.reading fun files => generate files paths algorithm
  document.write faults output

end Document

namespace Maven.CompanionPom

def publish (pom : CompanionPom) (path : String) : Update FileTree String := fun files =>
  match files.write path (Utf8.encode pom.toXml.toList) with
  | .error reason => ⟨Traced.fail (.unwritable path (some reason)), files⟩
  | .ok rest =>
      ⟨⟨[⟨.info, "Companion POM " ++ pom.groupId ++ ":" ++ pom.artifactId ++ ":" ++ pom.version ++
        " written to " ++ path⟩], 0, .ok path⟩, rest⟩

end Maven.CompanionPom

end CpkProvenance
