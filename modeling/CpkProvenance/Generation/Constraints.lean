import CpkProvenance.Document.Basic
import CpkProvenance.FileTree
import CpkProvenance.Traced

/-!
# Library constraints of a CPK

Pins library files by name and by the digest of the whole content, which is read
piece by piece. The first file that cannot be read ends the pass.
-/

namespace CpkProvenance.Document

def pieceSize : Nat := 8192

def Constraint.ofContent (algorithm : Digest.Algorithm) (fileName : String) (content : Bytes) :
    Constraint :=
  let hasher : Digest.Hasher algorithm :=
    (Bytes.pieces pieceSize content).foldl Digest.Stream.update Digest.Stream.empty
  ⟨fileName, algorithm.name, hasher.finish⟩

def Constraint.ofFile (files : FileTree) (algorithm : Digest.Algorithm) (path : String) :
    Traced Constraint := do
  match files.read path with
  | .error reason => Traced.fail (.unreadable (Path.label path) (some reason))
  | .ok content =>
      Traced.write .info ("CPK library dependency: " ++ path)
      return Constraint.ofContent algorithm (Path.label path) content

/-- The constraints on some files, in the given order. -/
def Constraint.ofFiles (files : FileTree) (algorithm : Digest.Algorithm) :
    List String → Traced (List Constraint)
  | [] => return []
  | path :: rest => do
      let first ← Constraint.ofFile files algorithm path
      let others ← Constraint.ofFiles files algorithm rest
      return first :: others

def Constraints.generate (files : FileTree) (paths : List String) (algorithm : String) :
    Traced Constraints := do
  let algorithm ← Traced.ofExcept (Digest.Algorithm.ofName algorithm)
  let constraints ← Constraint.ofFiles files algorithm paths
  return ⟨constraints⟩

end CpkProvenance.Document
