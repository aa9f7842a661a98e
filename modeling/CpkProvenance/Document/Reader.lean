import CpkProvenance.Bytes.Base64
import CpkProvenance.Document.Basic
import CpkProvenance.Text.Blank
import CpkProvenance.Xml.Content

/-!
# Reading documents

The readers are strict: an element they do not know, text where none belongs, a
field twice or a field too few is a fault. Blank text is passed over, except
inside an element whose text is a value. Elements are told apart by their local
names, attributes by their full keys.
-/

namespace CpkProvenance.Document

open Xml (Content Ending Tag)

inductive Fault
  | malformed (fault : Xml.Fault)
  | unknownElement (tag : String)
  | unknownInside (child tag : String)
  | endedInside (tag : String)
  | unexpectedText (text tag : String)
  | textBefore (text root : String)
  | textAfter (text root : String)
  | endTagBefore
  | endTagAfter
  | missingRoot (root : String)
  | duplicateRoot (root : String)
  | foreignNamespace (found : String)
  | missingField (parent field : String)
  | emptyField (parent field : String)
  | duplicateField (field parent : String)
  | notAlone
  | noValue (tag : String)
  | invalidHash (tag text : String) (fault : Base64.Fault)
  deriving DecidableEq, Repr

def Fault.message : Fault → String
  | .malformed fault => fault.message
  | .unknownElement tag => s!"Unknown XML element <{tag}>"
  | .unknownInside child tag => s!"Unknown XML element <{child}> inside <{tag}>"
  | .endedInside tag => s!"document ended inside <{tag}>"
  | .unexpectedText text tag => "unexpected text '" ++ Text.trim text ++ s!"' inside <{tag}>"
  | .textBefore text root => "unexpected text '" ++ Text.trim text ++ s!"' before <{root}>"
  | .textAfter text root => "unexpected text '" ++ Text.trim text ++ s!"' after <{root}>"
  | .endTagBefore => "unexpected end tag before root element"
  | .endTagAfter => "unexpected end tag after root element"
  | .missingRoot root => s!"missing <{root}> root element"
  | .duplicateRoot root => s!"duplicate <{root}> root element"
  | .foreignNamespace found =>
      s!"unexpected namespace '{found}', expected '{xmlNamespace}'"
  | .missingField parent field => s!"{parent}.{field} missing"
  | .emptyField parent field => s!"{parent}.{field} is empty"
  | .duplicateField field parent => s!"duplicate <{field}> element in <{parent}>"
  | .notAlone => "<sameAsMe> must be the only element in <signers>"
  | .noValue tag => s!"<{tag}> has no value"
  | .invalidHash tag text fault =>
      s!"invalid {tag} value '" ++ Text.trim text ++ "': " ++ fault.message

def stoppedInside (tag : String) : Ending → Fault
  | .endOfInput => .endedInside tag
  | .fault fault => .malformed fault

def leafText (tag : String) : Content → Except Fault String
  | .close => .ok ""
  | .stop ending => .error (stoppedInside tag ending)
  | .text text rest => do
      let others ← leafText tag rest
      return text ++ others
  | .empty child _ => .error (.unknownInside child.localName tag)
  | .element child _ _ => .error (.unknownInside child.localName tag)

/-- The hash that an element records: its algorithm must be named, and its text
is Base64. -/
def hashValue (tag : Tag) (content : String) : Except Fault HashValue :=
  match (tag.attribute? "algorithm").filter (· != "") with
  | none => .error (.missingField tag.localName "algorithm")
  | some algorithm =>
      match Base64.decode (Utf8.encode (Text.trim content).toList) with
      | .error fault => .error (.invalidHash tag.localName content fault)
      | .ok value => .ok ⟨algorithm, value⟩

/-- Reads the elements of a list of signers, after those read so far. -/
def readSigners (sofar : Signers) : Content → Except Fault Signers
  | .close => .ok sofar
  | .stop ending => .error (stoppedInside "signers" ending)
  | .text text rest =>
      if Text.allBlank text then readSigners sofar rest
      else .error (.unexpectedText text "signers")
  | .empty tag rest =>
      if tag.localName = "sameAsMe" then
        if sofar = .publicKeyHashes [] then readSigners .sameAsMe rest else .error .notAlone
      else if tag.localName = "signer" then .error (.noValue "signer")
      else .error (.unknownElement tag.localName)
  | .element tag body rest =>
      if tag.localName = "sameAsMe" then
        if sofar = .publicKeyHashes [] then do
          let content ← leafText "sameAsMe" body
          if Text.allBlank content then readSigners .sameAsMe rest
          else .error (.unexpectedText content "sameAsMe")
        else .error .notAlone
      else if tag.localName = "signer" then
        match sofar with
        | .sameAsMe => .error .notAlone
        | .publicKeyHashes hashes => do
            let content ← leafText "signer" body
            let hash ← hashValue tag content
            readSigners (.publicKeyHashes (hashes ++ [hash])) rest
      else .error (.unknownElement tag.localName)

structure DependencyFields where
  name : Option String := none
  version : Option String := none
  type : Option String := none
  signers : Option Signers := none
  deriving DecidableEq, Repr

namespace DependencyFields

def has (fields : DependencyFields) : String → Option Bool
  | "name" => some fields.name.isSome
  | "version" => some fields.version.isSome
  | "type" => some fields.type.isSome
  | "signers" => some fields.signers.isSome
  | _ => none

def setText (fields : DependencyFields) (tag text : String) : DependencyFields :=
  match tag with
  | "name" => { fields with name := some text }
  | "version" => { fields with version := some text }
  | "type" => { fields with type := some text }
  | _ => fields

/-- Reads the fields of an element. A field may be an empty element: its text,
or its list of signers, is then empty. -/
def read (fields : DependencyFields) : Content → Except Fault DependencyFields
  | .close => .ok fields
  | .stop ending => .error (stoppedInside "cpkDependency" ending)
  | .text text rest =>
      if Text.allBlank text then read fields rest
      else .error (.unexpectedText text "cpkDependency")
  | .empty tag rest =>
      match fields.has tag.localName with
      | none => .error (.unknownElement tag.localName)
      | some true => .error (.duplicateField tag.localName "cpkDependency")
      | some false =>
          if tag.localName = "signers" then
            read { fields with signers := some (.publicKeyHashes []) } rest
          else read (fields.setText tag.localName "") rest
  | .element tag body rest =>
      match fields.has tag.localName with
      | none => .error (.unknownElement tag.localName)
      | some true => .error (.duplicateField tag.localName "cpkDependency")
      | some false =>
          if tag.localName = "signers" then do
            let signers ← readSigners (.publicKeyHashes []) body
            read { fields with signers := some signers } rest
          else do
            let text ← leafText tag.localName body
            read (fields.setText tag.localName text) rest

/-- The dependency with the given fields. All but the type are required, and
the name must not be blank. -/
def complete (fields : DependencyFields) : Except Fault Dependency :=
  match fields.name with
  | none => .error (.missingField "cpkDependency" "name")
  | some name =>
      if Text.allBlank name then .error (.emptyField "cpkDependency" "name")
      else
        match fields.version with
        | none => .error (.missingField "cpkDependency" "version")
        | some version =>
            match fields.signers with
            | none => .error (.missingField "cpkDependency" "signers")
            | some signers => .ok ⟨name, version, fields.type, signers⟩

end DependencyFields

/-- Reads the elements of a document's root, each by `item`; `missing` is the
first field that an empty element of the name lacks. -/
def readItems {α : Type} (root name missing : String) (item : Content → Except Fault α) :
    Content → Except Fault (List α)
  | .close => .ok []
  | .stop ending => .error (stoppedInside root ending)
  | .text text rest =>
      if Text.allBlank text then readItems root name missing item rest
      else .error (.unexpectedText text root)
  | .empty tag _ =>
      if tag.localName = name then .error (.missingField name missing)
      else .error (.unknownElement tag.localName)
  | .element tag body rest =>
      if tag.localName = name then do
        let first ← item body
        let others ← readItems root name missing item rest
        return first :: others
      else .error (.unknownElement tag.localName)

/-- Accepts what may follow the root element: nothing but blank text. -/
def readAfter (root : String) : Content → Except Fault Unit
  | .close => .error .endTagAfter
  | .stop .endOfInput => .ok ()
  | .stop (.fault fault) => .error (.malformed fault)
  | .text text rest =>
      if Text.allBlank text then readAfter root rest else .error (.textAfter text root)
  | .empty tag _ =>
      if tag.localName = root then .error (.duplicateRoot root)
      else .error (.unknownElement tag.localName)
  | .element tag _ _ =>
      if tag.localName = root then .error (.duplicateRoot root)
      else .error (.unknownElement tag.localName)

/-- Checks the name of a root element, and its namespace if it declares one. -/
def checkRoot (root : String) (tag : Tag) : Except Fault Unit :=
  if tag.localName ≠ root then .error (.unknownElement tag.localName)
  else
    match tag.attribute? "xmlns" with
    | none => .ok ()
    | some found => if found = xmlNamespace then .ok () else .error (.foreignNamespace found)

def readRoot {α : Type} (root name missing : String) (item : Content → Except Fault α) :
    Content → Except Fault (List α)
  | .close => .error .endTagBefore
  | .stop .endOfInput => .error (.missingRoot root)
  | .stop (.fault fault) => .error (.malformed fault)
  | .text text rest =>
      if Text.allBlank text then readRoot root name missing item rest
      else .error (.textBefore text root)
  | .empty tag rest => do
      checkRoot root tag
      readAfter root rest
      return []
  | .element tag body rest => do
      checkRoot root tag
      let items ← readItems root name missing item body
      readAfter root rest
      return items

def readDependency (body : Content) : Except Fault Dependency := do
  let fields ← DependencyFields.read {} body
  fields.complete

def Dependencies.ofContent (content : Content) : Except Fault Dependencies := do
  let items ← readRoot "cpkDependencies" "cpkDependency" "name" readDependency content
  return ⟨items⟩

def Dependencies.ofXml (text : String) : Except Fault Dependencies :=
  Dependencies.ofContent (Content.ofText text)

structure ConstraintFields where
  fileName : Option String := none
  hash : Option HashValue := none
  deriving DecidableEq, Repr

namespace ConstraintFields

def read (fields : ConstraintFields) : Content → Except Fault ConstraintFields
  | .close => .ok fields
  | .stop ending => .error (stoppedInside "dependencyConstraint" ending)
  | .text text rest =>
      if Text.allBlank text then read fields rest
      else .error (.unexpectedText text "dependencyConstraint")
  | .empty tag rest =>
      if tag.localName = "fileName" then
        if fields.fileName.isSome then
          .error (.duplicateField "fileName" "dependencyConstraint")
        else read { fields with fileName := some "" } rest
      else if tag.localName = "hash" then
        if fields.hash.isSome then .error (.duplicateField "hash" "dependencyConstraint")
        else .error (.noValue "hash")
      else .error (.unknownElement tag.localName)
  | .element tag body rest =>
      if tag.localName = "fileName" then
        if fields.fileName.isSome then
          .error (.duplicateField "fileName" "dependencyConstraint")
        else do
          let text ← leafText "fileName" body
          read { fields with fileName := some text } rest
      else if tag.localName = "hash" then
        if fields.hash.isSome then .error (.duplicateField "hash" "dependencyConstraint")
        else do
          let text ← leafText "hash" body
          let hash ← hashValue tag text
          read { fields with hash := some hash } rest
      else .error (.unknownElement tag.localName)

def complete (fields : ConstraintFields) : Except Fault Constraint :=
  match fields.fileName with
  | none => .error (.missingField "dependencyConstraint" "fileName")
  | some fileName =>
      if Text.allBlank fileName then .error (.emptyField "dependencyConstraint" "fileName")
      else
        match fields.hash with
        | none => .error (.missingField "dependencyConstraint" "hash")
        | some hash => .ok ⟨fileName, hash⟩

end ConstraintFields

def readConstraint (body : Content) : Except Fault Constraint := do
  let fields ← ConstraintFields.read {} body
  fields.complete

def Constraints.ofContent (content : Content) : Except Fault Constraints := do
  let items ← readRoot "dependencyConstraints" "dependencyConstraint" "fileName"
    readConstraint content
  return ⟨items⟩

def Constraints.ofXml (text : String) : Except Fault Constraints :=
  Constraints.ofContent (Content.ofText text)

end CpkProvenance.Document
