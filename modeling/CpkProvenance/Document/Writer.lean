import CpkProvenance.Bytes.Base64
import CpkProvenance.Document.Basic
import CpkProvenance.Xml.Layout

/-!
# Written documents

The XML form of both documents. Fields stand in a fixed order; an absent type is
left out, and an empty list of hashes is an empty element.
-/

namespace CpkProvenance.Document

open Xml (Item Tag)

def plainTag (name : String) : Tag := ⟨name, []⟩

def field (name text : String) : Item :=
  .leaf (plainTag name) text

def HashValue.item (name : String) (h : HashValue) : Item :=
  .leaf ⟨name, [⟨"algorithm", h.algorithm⟩]⟩ (Base64.encodeText h.value)

/-- The lines of a root element in the namespace of the documents. -/
def rooted (root : String) (items : List Item) : List Item :=
  .openTag ⟨root, [⟨"xmlns", xmlNamespace⟩]⟩ :: (items ++ [.closeTag root])

def Signers.items : Signers → List Item
  | .sameAsMe => [.openTag (plainTag "signers"), .emptyTag (plainTag "sameAsMe"),
      .closeTag "signers"]
  | .publicKeyHashes [] => [.emptyTag (plainTag "signers")]
  | .publicKeyHashes (h :: hashes) =>
      .openTag (plainTag "signers") ::
        ((h :: hashes).map (HashValue.item "signer") ++ [.closeTag "signers"])

def Dependency.items (d : Dependency) : List Item :=
  .openTag (plainTag "cpkDependency") ::
    ([field "name" d.name, field "version" d.version] ++
      (d.type.map (field "type")).toList ++ d.signers.items ++ [.closeTag "cpkDependency"])

def Dependencies.toXml (document : Dependencies) : String :=
  Xml.document (rooted "cpkDependencies" (document.dependencies.flatMap Dependency.items))

def Constraint.items (c : Constraint) : List Item :=
  [.openTag (plainTag "dependencyConstraint"), field "fileName" c.fileName,
    c.hash.item "hash", .closeTag "dependencyConstraint"]

def Constraints.toXml (document : Constraints) : String :=
  Xml.document (rooted "dependencyConstraints" (document.constraints.flatMap Constraint.items))

end CpkProvenance.Document
