import CpkProvenance.Archive.Basic
import CpkProvenance.Manifest.Digests
import CpkProvenance.Zip.Archive

/-!
# Signed JAR files

A JAR records digests of its entries in the manifest. A signature file in turn
records digests of the manifest, and its signature block tells the signers. An
entry has the signers of a signature file if that file vouches for the entry's
section of the manifest, and the entry has the digests that the section records.
The manifest itself is signed by all signature files.
-/

namespace CpkProvenance

open Zip (Member)

/-- The signers of a signature block, and the sections of the manifest that the
signature file beside it vouches for. -/
structure SignatureFile where
  path : String
  signers : List CodeSigner
  covered : List String
  deriving DecidableEq

structure Jar where
  name : String
  members : List Member
  manifest : Manifest
  signatureFiles : List SignatureFile

namespace Jar

def manifestPath : String := "META-INF/MANIFEST.MF"

def readFailure (archive : String) (m : Member) : Zip.ReadFault → Failure
  | .inaccessible fault => .invalidArchive archive fault
  | .unreadable fault => .unreadableEntry archive m.name fault

/-- The content of the first member whose name is the wanted one in any case. -/
def readNamed (archive : String) (members : List Member) (wanted : String) :
    Except Failure (Option Bytes) :=
  match members.find? fun m => Text.equalIgnoringCase m.name wanted with
  | none => .ok none
  | some m =>
      match m.content with
      | .ok content => .ok (some content)
      | .error fault => .error (readFailure archive m fault)

/-- The part of a signature file's name that its block shares, in upper case. -/
def signatureBase? (name : String) : Option String := do
  let inner ← Text.dropStart? "META-INF/" (Text.upper name)
  let base ← Text.dropEnd? ".SF" inner
  if base = "" ∨ '/' ∈ base.toList then none else some base

/-- The endings of signature blocks, in the order in which they are tried. -/
def blockEndings : List String := ["RSA", "DSA", "EC"]

def blockName? (names : List String) (base : String) : Option String :=
  blockEndings.findSome? fun ending =>
    names.find? fun n => Text.equalIgnoringCase n ("META-INF/" ++ base ++ "." ++ ending)

def firstMismatch? (digests : List Manifest.RecordedDigest) (data : Bytes) :
    Option Manifest.RecordedDigest :=
  digests.find? fun d => !d.isOf data

/-- The names of the sections that a signature file vouches for, one by one. A
section counts if at least one digest of it is recorded; digests of sections
that the manifest does not have are passed over. -/
def coveredSections (path : String) (manifest : Manifest) :
    List Manifest.Section → Except SignatureFault (List String)
  | [] => .ok []
  | s :: rest =>
      match manifest.section? s.name with
      | none => coveredSections path manifest rest
      | some target =>
          let digests := s.attributes.digests "-Digest"
          match firstMismatch? digests target.bytes with
          | some d => .error (.sectionDigest d.algorithm path s.name)
          | none => do
              let others ← coveredSections path manifest rest
              return if digests = [] then others else s.name :: others

/-- The names of the sections that a signature file vouches for: all that it
names if it has a digest of the whole manifest, and otherwise, if its digests of
the main attributes are right, those whose digests are. -/
def coveredNames (path : String) (signatureFile manifest : Manifest) :
    Except SignatureFault (List String) :=
  if (signatureFile.main.digests "-Digest-Manifest").any (·.isOf manifest.raw) then
    .ok ((signatureFile.sections.map (·.name)).eraseDups)
  else
    match firstMismatch? (signatureFile.main.digests "-Digest-Manifest-Main-Attributes")
        manifest.mainBytes with
    | some d => .error (.mainDigest d.algorithm path)
    | none => (coveredSections path manifest signatureFile.sections).map List.eraseDups

def readSignatureFile (archive : String) (members : List Member) (manifest : Manifest)
    (path block : String) : Except Failure SignatureFile := do
  let signatureBytes ← readNamed archive members path
  let signatureFile ←
    match Manifest.parse (signatureBytes.getD []) with
    | .ok m => .ok m
    | .error fault => .error (.signature archive (.signatureFile path fault))
  let blockBytes ← readNamed archive members block
  let signers ←
    match Signing.codeSigners (blockBytes.getD []) with
    | .ok signers => .ok signers
    | .error fault => .error (.signature archive (.block block fault))
  match coveredNames path signatureFile manifest with
  | .ok covered => .ok ⟨path, signers, covered⟩
  | .error fault => .error (.signature archive fault)

/-- Reads the signature files among the given names. One without a block is
passed over, and reported. -/
def readSignatureFiles (archive : String) (members : List Member) (manifest : Manifest) :
    List String → Traced (List SignatureFile)
  | [] => pure []
  | path :: rest =>
      match signatureBase? path with
      | none => readSignatureFiles archive members manifest rest
      | some base =>
          match blockName? (members.map (·.name)) base with
          | none => do
              Traced.write .debug
                (archive ++ ": " ++ path ++ " has no signature block, ignoring")
              readSignatureFiles archive members manifest rest
          | some block => do
              let first ← Traced.ofExcept
                (readSignatureFile archive members manifest path block)
              let others ← readSignatureFiles archive members manifest rest
              return first :: others

def readManifest (archive : String) (members : List Member) : Except Failure Manifest := do
  match ← readNamed archive members manifestPath with
  | none => .ok Manifest.empty
  | some raw =>
      match Manifest.parse raw with
      | .ok m => .ok m
      | .error fault => .error (.manifest archive fault)

def coverageLine (archive : String) (f : SignatureFile) : LogLine :=
  ⟨.debug, archive ++ ": " ++ f.path ++ " covers " ++ toString f.covered.length ++
    " entries with " ++ toString f.signers.length ++ " signers"⟩

def ofMembers (archive : String) (members : List Member) : Traced Jar := do
  let manifest ← Traced.ofExcept (readManifest archive members)
  let files ← readSignatureFiles archive members manifest (members.map (·.name))
  Traced.writeAll (files.map (coverageLine archive))
  Traced.write .debug
    (archive ++ ": " ++ toString members.length ++ " entries, " ++ toString files.length ++
      " signature files")
  return ⟨archive, members, manifest, files⟩

def ofBytes (archive : String) (file : Bytes) : Traced Jar :=
  match Zip.members file with
  | .error fault => Traced.fail (.invalidArchive archive fault)
  | .ok members => ofMembers archive members

def recordedDigests (jar : Jar) (name : String) : List Manifest.RecordedDigest :=
  match jar.manifest.section? name with
  | none => []
  | some s => s.attributes.digests "-Digest"

/-- The signers of a member whose content has the recorded digests. -/
def signersOf (jar : Jar) (m : Member) : List CodeSigner :=
  if Text.equalIgnoringCase m.name manifestPath then
    jar.signatureFiles.flatMap (·.signers)
  else if jar.recordedDigests m.name ≠ [] ∧ ¬ m.isDirectory then
    (jar.signatureFiles.filter (·.covered.contains m.name)).flatMap (·.signers)
  else []

/-- Reads a member through a buffer of the given size, checks its digests and
tells its signers. -/
def readEntry (jar : Jar) (buffer : Nat) (m : Member) : Except Failure Archive.Entry :=
  match m.pieces buffer with
  | .error fault => .error (readFailure jar.name m fault)
  | .ok pieces =>
      match (jar.recordedDigests m.name).find? fun d => !d.isOfPieces pieces with
      | some d => .error (.signature jar.name (.entryDigest d.algorithm m.name))
      | none => .ok ⟨m.name, m.isDirectory, jar.signersOf m⟩

def bufferSize : Nat := 8192

def archive (jar : Jar) (buffer : Nat) : Archive :=
  ⟨jar.name, jar.manifest.main, jar.members.map (jar.readEntry buffer)⟩

end Jar

end CpkProvenance
