import CpkProvenance.Maven.Coordinate
import CpkProvenance.Xml.Layout

/-!
# Companion POMs

A companion is an artifact of packaging `pom` that stands for a CPK. It depends
on the companions of the CPKs that this one uses, and on the libraries that the
platform provides.
-/

namespace CpkProvenance.Maven

open Xml (Item)

structure CompanionPom where
  groupId : String
  artifactId : String
  version : String
  cordapps : List Coordinate
  provided : List Coordinate
  deriving DecidableEq, Repr

def companionId (groupId artifactId : String) : String :=
  groupId ++ "." ++ artifactId ++ ".corda.cpk"

namespace CompanionPom

def ofArtifact (groupId artifactId version : String) (cordapps provided : List Coordinate) :
    CompanionPom :=
  ⟨groupId, companionId groupId artifactId, version, cordapps, provided⟩

def pomNamespace : String := "http://maven.apache.org/POM/4.0.0"

def schemaInstance : String := "http://www.w3.org/2001/XMLSchema-instance"

def schemaLocation : String :=
  "http://maven.apache.org/POM/4.0.0 https://maven.apache.org/xsd/maven-4.0.0.xsd"

def textItem (name text : String) : Item :=
  .leaf ⟨name, []⟩ text

/-- The lines of a dependency on a coordinate under the given artifact id. -/
def dependencyItems (artifactId : String) (c : Coordinate) : List Item :=
  [.openTag ⟨"dependency", []⟩, textItem "groupId" c.groupId,
    textItem "artifactId" artifactId, textItem "version" c.version] ++
  (c.classifier.map (textItem "classifier")).toList ++
  (if c.type = defaultType then [] else [textItem "type" c.type]) ++
  [textItem "scope" "compile", .closeTag "dependency"]

def items (pom : CompanionPom) : List Item :=
  [.openTag ⟨"project", [⟨"xmlns", pomNamespace⟩, ⟨"xmlns:xsi", schemaInstance⟩,
      ⟨"xsi:schemaLocation", schemaLocation⟩]⟩,
    textItem "modelVersion" "4.0.0", textItem "groupId" pom.groupId,
    textItem "artifactId" pom.artifactId, textItem "version" pom.version,
    textItem "packaging" "pom", .openTag ⟨"dependencies", []⟩] ++
  pom.cordapps.flatMap (fun c => dependencyItems (companionId c.groupId c.artifactId) c) ++
  pom.provided.flatMap (fun c => dependencyItems c.artifactId c) ++
  [.closeTag "dependencies", .closeTag "project"]

def toXml (pom : CompanionPom) : String :=
  Xml.document pom.items

end CompanionPom

end CpkProvenance.Maven
