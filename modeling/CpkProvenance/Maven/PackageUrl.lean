import CpkProvenance.Bytes.Utf8
import CpkProvenance.Text.Ascii
import CpkProvenance.Text.Cut
import CpkProvenance.Text.Quoted

/-!
# Package URLs

A package URL names a package by type, namespace, name and version, with
qualifiers and a subpath: `pkg:type/namespace/name@version?key=value#subpath`.
It is taken apart from the right, so that each separator is searched for in what
the parts after it leave.
-/

namespace CpkProvenance.Maven

structure PackageUrl where
  type : String
  nameSpace : Option String
  name : String
  version : Option String
  qualifiers : List (String × String)
  subpath : Option String
  deriving DecidableEq, Repr

namespace PackageUrl

inductive Fault
  | missingScheme
  | invalidScheme (text : String)
  | missingType
  | invalidType (text : String)
  | missingName
  | invalidKey (text : String)
  | invalidNamespaceComponent (text : String)
  | invalidSubpathSegment (text : String)
  | notUtf8
  deriving DecidableEq, Repr

def Fault.message : Fault → String
  | .missingScheme => "missing scheme"
  | .invalidScheme text => "invalid scheme: " ++ Text.quoted text
  | .missingType => "missing type"
  | .invalidType text => "invalid type: " ++ Text.quoted text
  | .missingName => "missing name"
  | .invalidKey text => "invalid key: " ++ Text.quoted text
  | .invalidNamespaceComponent text => "invalid namespace component: " ++ Text.quoted text
  | .invalidSubpathSegment text => "invalid subpath segment: " ++ Text.quoted text
  | .notUtf8 => "utf-8 decoding failed"

def hexValue? (c : Char) : Option Nat :=
  if '0' ≤ c ∧ c ≤ '9' then some (c.toNat - '0'.toNat)
  else if 'a' ≤ c ∧ c ≤ 'f' then some (c.toNat - 'a'.toNat + 10)
  else if 'A' ≤ c ∧ c ≤ 'F' then some (c.toNat - 'A'.toNat + 10)
  else none

def hexByte? (high low : Char) : Option UInt8 := do
  let h ← hexValue? high
  let l ← hexValue? low
  return UInt8.ofNat (16 * h + l)

/-- The bytes of a percent-encoded text. A percent sign that two hexadecimal
digits do not follow stands for itself. -/
def percentBytes : List Char → Bytes
  | [] => []
  | '%' :: high :: low :: rest =>
      match hexByte? high low with
      | some b => b :: percentBytes rest
      | none => String.utf8EncodeChar '%' ++ percentBytes (high :: low :: rest)
  | c :: rest => String.utf8EncodeChar c ++ percentBytes rest

def percentDecode (text : List Char) : Except Fault String :=
  match Utf8.decode? (percentBytes text) with
  | some decoded => .ok decoded
  | none => .error .notUtf8

/-- The parts of a path that are not empty and not relative. -/
def pathParts (text : List Char) : List (List Char) :=
  (Text.splitAll '/' text).filter fun part => part ≠ [] ∧ part ≠ ['.'] ∧ part ≠ ['.', '.']

/-- A decoded part of the subpath, which must not be empty or relative, nor
contain a separator. -/
def subpathSegment (part : List Char) : Except Fault String := do
  let segment ← percentDecode part
  if segment = "" ∨ segment = "." ∨ segment = ".." ∨ '/' ∈ segment.toList then
    .error (.invalidSubpathSegment segment)
  else return segment

/-- A decoded part of the namespace, which must not be empty nor contain a
separator. -/
def namespaceComponent (part : List Char) : Except Fault String := do
  let component ← percentDecode part
  if component = "" ∨ '/' ∈ component.toList then
    .error (.invalidNamespaceComponent component)
  else return component

/-- Whether a text begins with no digit, is not empty, and has only letters,
digits and the given signs. -/
def isWord (signs : List Char) (text : List Char) : Bool :=
  match text with
  | [] => false
  | c :: _ => !c.isDigit && text.all fun d => d.isAlphanum || signs.contains d

/-- A pair of key and value; a pair without a value is passed over. -/
def qualifier? (pair : List Char) : Except Fault (Option (String × String)) :=
  match Text.cutFirst? '=' pair with
  | none => .ok none
  | some (_, []) => .ok none
  | some (key, value) =>
      if isWord ['.', '-', '_'] key then do
        let decoded ← percentDecode value
        return some (Text.lower (String.ofList key), decoded)
      else .error (.invalidKey (String.ofList key))

/-- The text before the last occurrence of a mark, and what follows it, if the
mark occurs. -/
def takeLast (mark : Char) (text : List Char) : List Char × Option (List Char) :=
  match Text.cutLast? mark text with
  | some (before, after) => (before, some after)
  | none => (text, none)

def withoutSlashes (text : List Char) : List Char :=
  ((text.dropWhile (· == '/')).reverse.dropWhile (· == '/')).reverse

def parse (text : String) : Except Fault PackageUrl := do
  let rest ←
    match Text.cutFirst? ':' text.toList with
    | none => .error .missingScheme
    | some (scheme, rest) =>
        if scheme = ['p', 'k', 'g'] then .ok (rest.dropWhile (· == '/'))
        else .error (.invalidScheme (String.ofList scheme))
  let (rest, subpathText) := takeLast '#' rest
  let subpath ← subpathText.mapM fun path => (pathParts path).mapM subpathSegment
  let (rest, qualifierText) := takeLast '?' rest
  let qualifiers ←
    match qualifierText with
    | none => .ok []
    | some pairs => (Text.splitAll '&' pairs).mapM qualifier?
  let (rest, versionText) := takeLast '@' rest
  let version ← versionText.mapM percentDecode
  let (type, rest) ←
    match Text.cutFirst? '/' rest with
    | none => .error .missingType
    | some (type, rest) =>
        if isWord ['.', '+', '-'] type then .ok (Text.lower (String.ofList type), rest)
        else .error (.invalidType (String.ofList type))
  let (namespaceText, nameText) :=
    match Text.cutLast? '/' (withoutSlashes rest) with
    | some parts => parts
    | none => ([], withoutSlashes rest)
  if nameText = [] then throw .missingName
  let name ← percentDecode nameText
  let components ← (pathParts namespaceText).mapM namespaceComponent
  if subpath = some [] then throw (.invalidSubpathSegment "")
  return {
    type, name, version
    nameSpace := if components = [] then none else some ("/".intercalate components)
    qualifiers := qualifiers.filterMap id
    subpath := subpath.map "/".intercalate }

/-- The value of a qualifier; of several, the last one counts. -/
def get? (url : PackageUrl) (key : String) : Option String :=
  (url.qualifiers.reverse.find? (·.1 == key)).map (·.2)

end PackageUrl

end CpkProvenance.Maven
