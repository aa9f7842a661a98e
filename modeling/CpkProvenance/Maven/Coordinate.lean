import CpkProvenance.Maven.PackageUrl

/-!
# Maven coordinates

The artifact that a package URL of type `maven` names.
-/

namespace CpkProvenance.Maven

structure Coordinate where
  groupId : String
  artifactId : String
  version : String
  classifier : Option String
  type : String
  deriving DecidableEq, Repr

/-- The type of an artifact whose coordinate gives none. -/
def defaultType : String := "jar"

namespace Coordinate

inductive Fault
  | url (fault : PackageUrl.Fault)
  | otherType (found : String)
  | missingGroup
  | missingVersion
  deriving DecidableEq, Repr

def Fault.message : Fault → String
  | .url fault => fault.message
  | .otherType found => s!"type must be 'maven', found '{found}'"
  | .missingGroup => "a group id namespace is required"
  | .missingVersion => "a version is required"

def ofPackageUrl (url : PackageUrl) : Except Fault Coordinate :=
  if url.type ≠ "maven" then .error (.otherType url.type)
  else
    match url.nameSpace with
    | none => .error .missingGroup
    | some groupId =>
        match url.version with
        | none => .error .missingVersion
        | some version =>
            .ok {
              groupId, version
              artifactId := url.name
              classifier := url.get? "classifier"
              type := (url.get? "type").getD defaultType }

def parse (text : String) : Except Fault Coordinate :=
  match PackageUrl.parse text with
  | .error fault => .error (.url fault)
  | .ok url => ofPackageUrl url

/-- Group, artifact and version, and the classifier if there is one. -/
def display (c : Coordinate) : String :=
  c.groupId ++ ":" ++ c.artifactId ++ ":" ++ c.version ++
    match c.classifier with
    | some classifier => ":" ++ classifier
    | none => ""

end Coordinate

end CpkProvenance.Maven
