import CpkProvenance.Bytes.Utf8
import CpkProvenance.Der.Value

/-!
# Distinguished names

A name is a sequence of relative names, each a set of attributes. It is shown
from its last relative name to its first, with short names for well-known
attribute types, and with the value in hexadecimal where the type has no short
name or the value is no plain text.
-/

namespace CpkProvenance.X509

open Der

structure NameAttribute where
  type : Oid
  value : Element
  deriving DecidableEq, Repr

namespace NameAttribute

def ofElement? (e : Element) : Option NameAttribute := do
  let children ← e.children? 0x30
  match children with
  | [type, value] => (Oid.ofElement? type).map fun oid => ⟨oid, value⟩
  | _ => none

def encode (a : NameAttribute) : Bytes :=
  encodeAs 0x30 (a.type.encode ++ a.value.encode)

/-- The short names of the attribute types below 2.5.4, by their last byte. -/
def directoryNames : List (UInt8 × String) :=
  [(3, "CN"), (4, "SN"), (5, "SERIALNUMBER"), (6, "C"), (7, "L"), (8, "ST"), (9, "STREET"),
    (10, "O"), (11, "OU"), (12, "TITLE"), (13, "DESCRIPTION"), (14, "SEARCHGUIDE"),
    (15, "BUSINESSCATEGORY"), (16, "POSTALADDRESS"), (17, "POSTALCODE"), (18, "POSTOFFICEBOX"),
    (19, "PHYSICALDELIVERYOFFICENAME"), (20, "TELEPHONENUMBER"), (21, "TELEXNUMBER"),
    (22, "TELETEXTERMINALIDENTIFIER"), (23, "FACSIMILETELEPHONENUMBER"), (24, "X121ADDRESS"),
    (25, "INTERNATIONALISDNNUMBER"), (26, "REGISTEREDADDRESS"), (27, "DESTINATIONINDICATOR"),
    (28, "PREFERREDDELIVERYMETHOD"), (31, "MEMBER"), (32, "OWNER"), (33, "ROLEOCCUPANT"),
    (34, "SEEALSO"), (35, "USERPASSWORD"), (41, "NAME"), (42, "GIVENNAME"), (43, "INITIALS"),
    (44, "GENERATIONQUALIFIER"), (45, "X500UNIQUEIDENTIFIER"), (46, "DNQUALIFIER"),
    (47, "ENHANCEDSEARCHGUIDE"), (49, "DISTINGUISHEDNAME"), (50, "UNIQUEMEMBER"),
    (51, "HOUSEIDENTIFIER"), (65, "PSEUDONYM")]

/-- The short name of an attribute type. Types are told by the exact bytes of
their identifiers, so that a longer spelling of the same arcs has none. -/
def shortName? (type : Oid) : Option String :=
  match type.content with
  | [0x55, 0x04, n] => directoryNames.lookup n
  | [0x09, 0x92, 0x26, 0x89, 0x93, 0xF2, 0x2C, 0x64, 0x01, 0x01] => some "UID"
  | [0x09, 0x92, 0x26, 0x89, 0x93, 0xF2, 0x2C, 0x64, 0x01, 0x19] => some "DC"
  | [0x2A, 0x86, 0x48, 0x86, 0xF7, 0x0D, 0x01, 0x09, 0x01] => some "EMAIL"
  | _ => none

def isPrintable (c : Char) : Bool :=
  c.isAlphanum || " '()+,-./:=?".toList.contains c

def text? (value : Element) : Option String :=
  match value.tag with
  | 0x0C => Utf8.decode? value.content
  | 0x13 => (Utf8.decode? value.content).filter fun text => text.toList.all isPrintable
  | 0x14 | 0x16 => (Utf8.decode? value.content).filter fun _ => value.content.all (· < 0x80)
  | _ => none

def showChar (c : Char) : List Char :=
  if "\"+,;<>\\".toList.contains c then ['\\', c]
  else if c.toNat < 0x20 ∨ c.toNat = 0x7F then
    '\\' :: Bytes.hexOfByte (UInt8.ofNat c.toNat)
  else [c]

/-- The characters after the first. A space at the end is escaped. -/
def showRest : List Char → List Char
  | [] => []
  | [' '] => ['\\', ' ']
  | c :: rest => showChar c ++ showRest rest

/-- A shown value. A number sign or a space at its front is escaped. -/
def showText : List Char → List Char
  | [] => []
  | c :: rest =>
      (if c = '#' ∨ c = ' ' then ['\\', c] else showChar c) ++ showRest rest

def display (a : NameAttribute) : String :=
  match shortName? a.type, text? a.value with
  | some name, some text => name ++ "=" ++ String.ofList (showText text.toList)
  | _, _ => a.type.dotted ++ "=#" ++ Bytes.hex a.value.encode

end NameAttribute

abbrev RelativeName := List NameAttribute

namespace RelativeName

def ofElement? (e : Element) : Option RelativeName := do
  let children ← e.children? 0x31
  let attributes ← children.mapM NameAttribute.ofElement?
  setOf? NameAttribute.encode (fun _ => true) attributes

def encode (r : RelativeName) : Bytes :=
  encodeAs 0x31 (r.flatMap NameAttribute.encode)

def display (r : RelativeName) : String :=
  "+".intercalate (r.map NameAttribute.display)

end RelativeName

abbrev Name := List RelativeName

namespace Name

def ofElement? (e : Element) : Option Name := do
  let children ← e.children? 0x30
  children.mapM RelativeName.ofElement?

def encode (n : Name) : Bytes :=
  encodeAs 0x30 (n.flatMap RelativeName.encode)

def display (n : Name) : String :=
  ",".intercalate (n.reverse.map RelativeName.display)

end Name

end CpkProvenance.X509
