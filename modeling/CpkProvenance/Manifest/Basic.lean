import CpkProvenance.Bytes.Utf8
import CpkProvenance.Manifest.Attributes
import CpkProvenance.Manifest.Line

/-!
# Manifests

The first block of a manifest file holds its main attributes, and every later
block with content is the section of one entry, named by its `Name` header. A
header may continue on lines that begin with a space. The bytes of the main
block and of each section are kept as they stand in the file, because digests
are taken of them.
-/

namespace CpkProvenance

namespace Manifest

inductive Fault
  | continuationWithoutHeader
  | headerNotUtf8
  | invalidHeader (text : String)
  | sectionWithoutName
  deriving DecidableEq, Repr

def Fault.message : Fault → String
  | .continuationWithoutHeader => "continuation line without a header"
  | .headerNotUtf8 => "header is not valid UTF-8"
  | .invalidHeader text => s!"invalid header '{text}'"
  | .sectionWithoutName => "entry section without a Name header"

structure Section where
  name : String
  attributes : Attributes
  bytes : Bytes
  deriving DecidableEq, Repr

end Manifest

structure Manifest where
  raw : Bytes
  main : Manifest.Attributes
  mainBytes : Bytes
  sections : List Manifest.Section
  deriving DecidableEq, Repr

namespace Manifest

/-- The manifest of an archive that has none. -/
def empty : Manifest := ⟨[], [], [], []⟩

/-- The first section of exactly the given name. -/
def section? (m : Manifest) (name : String) : Option Section :=
  m.sections.find? (·.name == name)

/-- A line that continues the header before it, without its leading space. -/
def continued? : Bytes → Option Bytes
  | 32 :: rest => some rest
  | _ => none

/-- Joins headers with the lines that continue them. The first component
continues the header before the given lines. -/
def unfold : List Bytes → Bytes × List Bytes
  | [] => ([], [])
  | line :: rest =>
      let (tail, headers) := unfold rest
      match continued? line with
      | some text => (text ++ tail, headers)
      | none => ([], (line ++ tail) :: headers)

/-- The texts before and after the first colon that a space follows. -/
def splitHeader? : List Char → Option (List Char × List Char)
  | ':' :: ' ' :: value => some ([], value)
  | c :: rest => (splitHeader? rest).map fun (name, value) => (c :: name, value)
  | [] => none

/-- The name and value of a header. A header without a colon and a space may
end in a colon, and its value is then empty. -/
def headerParts? (text : List Char) : Option (List Char × List Char) :=
  match splitHeader? text with
  | some parts => some parts
  | none => if text.getLast? = some ':' then some (text.dropLast, []) else none

def header (bytes : Bytes) : Except Fault Attribute :=
  match Utf8.decode? bytes with
  | none => .error .headerNotUtf8
  | some text =>
      match headerParts? text.toList with
      | some (c :: name, value) => .ok ⟨String.ofList (c :: name), String.ofList value⟩
      | _ => .error (.invalidHeader text)

def Block.attributes (b : Block) : Except Fault Attributes :=
  let contents := b.body.map Line.content
  if (contents.head?.bind continued?).isSome then .error .continuationWithoutHeader
  else (unfold contents).2.mapM header

def Block.toSection (b : Block) : Except Fault Section := do
  let attributes ← b.attributes
  match attributes.get? "Name" with
  | none => .error .sectionWithoutName
  | some name => return ⟨name, attributes, b.bytes⟩

def parse (raw : Bytes) : Except Fault Manifest :=
  match blocks (lines raw) with
  | [] => .ok ⟨raw, [], [], []⟩
  | first :: rest => do
      let main ← first.attributes
      let sections ← (rest.filter (·.body ≠ [])).mapM Block.toSection
      return ⟨raw, main, first.bytes, sections⟩

end Manifest

end CpkProvenance
