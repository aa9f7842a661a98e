import CpkProvenance.Bytes.Base64
import CpkProvenance.Document.Basic
import CpkProvenance.Json

/-!
# Dependencies as JSON

The form in which a document of dependencies is shown to people. Hashes are in
Base64, and a dependency without a type has no such member.
-/

namespace CpkProvenance.Document

def HashValue.toJson (h : HashValue) : Json :=
  .object [("algorithm", .text h.algorithm), ("value", .text (Base64.encodeText h.value))]

def Signers.toJson : Signers → Json
  | .sameAsMe => .text "sameAsMe"
  | .publicKeyHashes hashes =>
      .object [("publicKeyHashes", .list (hashes.map HashValue.toJson))]

def Dependency.toJson (d : Dependency) : Json :=
  .object ([("name", .text d.name), ("version", .text d.version)] ++
    (d.type.map fun t => ("type", Json.text t)).toList ++ [("signers", d.signers.toJson)])

def Dependencies.toJson (d : Dependencies) : Json :=
  .object [("dependencies", .list (d.dependencies.map Dependency.toJson))]

end CpkProvenance.Document
