import CpkProvenance.Archive.Jar
import CpkProvenance.Document.Graph
import CpkProvenance.FileTree

/-!
# Dependencies of a CPK

Collects the document of dependencies from JAR files: first those of the same
project, then those from elsewhere, each in the given order. The first archive
that fails ends the pass.
-/

namespace CpkProvenance

/-- Opens the JAR at a path. A directory can be opened, but is no archive. -/
def Jar.openFile (files : FileTree) (path : String) : Traced Jar :=
  match files.lookup path with
  | .error reason => Traced.fail (.unreadable (Path.label path) (some reason))
  | .ok .directory => Traced.fail (.invalidArchive (Path.label path) .notFile)
  | .ok (.file content) => Jar.ofBytes (Path.label path) content

namespace Document

namespace Graph

def addLocal (files : FileTree) (path : String) : Update Graph Unit := do
  let jar ← Update.lift (Jar.openFile files path)
  Update.lift (Traced.write .info ("Project CorDapp CPK dependency: " ++ path))
  appendLocal (jar.archive Jar.bufferSize)

def addRemote (files : FileTree) (path : String) : Update Graph Unit := do
  let jar ← Update.lift (Jar.openFile files path)
  Update.lift (Traced.write .info ("Remote CorDapp CPK dependency: " ++ path))
  appendRemote (jar.archive Jar.bufferSize)

/-- Adds the archives at some paths, until one fails. -/
def addAll (files : FileTree) (localPaths remotePaths : List String) : Update Graph Unit := do
  localPaths.forM (addLocal files)
  remotePaths.forM (addRemote files)

end Graph

def Dependencies.generate (files : FileTree) (localPaths remotePaths : List String)
    (algorithm : String) : Traced Dependencies := do
  let algorithm ← Traced.ofExcept (Digest.Algorithm.ofName algorithm)
  let outcome := Graph.addAll files localPaths remotePaths (Graph.empty algorithm)
  outcome.toTraced
  return outcome.state.finish

end Document

end CpkProvenance
