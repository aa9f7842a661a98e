import CpkProvenance.Document.Reader
import CpkProvenance.Manifest.Basic
import CpkProvenance.Maven.Coordinate
import CpkProvenance.Signing.Block
import CpkProvenance.Zip.Fault

/-!
# Failures

Everything that can go wrong, as causes. Their wording is in one place,
`Failure.message`. A failure to read or write carries its reason where there is
one.
-/

namespace CpkProvenance

/-- Why a path is refused, or a file cannot be stored. All but a path with a NUL in
it are for the operating system to refuse. -/
inductive FileError
  | notFound
  | notDirectory
  | isDirectory
  | nameTooLong
  | nulInPath
  /-- A fault of the device, in the words of the operating system. -/
  | device (text : String)
  deriving DecidableEq, Repr

def FileError.message : FileError → String
  | .notFound => "No such file or directory (os error 2)"
  | .notDirectory => "Not a directory (os error 20)"
  | .isDirectory => "Is a directory (os error 21)"
  | .nameTooLong => "File name too long (os error 36)"
  | .nulInPath => "file name contained an unexpected NUL byte"
  | .device text => text

inductive SignatureFault
  | signatureFile (path : String) (fault : Manifest.Fault)
  | block (path : String) (fault : Signing.BlockFault)
  | mainDigest (algorithm : Digest.Algorithm) (path : String)
  | sectionDigest (algorithm : Digest.Algorithm) (path name : String)
  | entryDigest (algorithm : Digest.Algorithm) (name : String)
  deriving DecidableEq, Repr

def SignatureFault.message : SignatureFault → String
  | .signatureFile path fault => path ++ ": " ++ fault.message
  | .block path fault => path ++ ": " ++ fault.message
  | .mainDigest algorithm path =>
      "invalid " ++ algorithm.name ++ " signature file digest in " ++ path ++
        " for manifest main attributes"
  | .sectionDigest algorithm path name =>
      "invalid " ++ algorithm.name ++ " signature file digest in " ++ path ++ " for " ++ name
  | .entryDigest algorithm name => algorithm.name ++ " digest error for " ++ name

inductive Failure
  | unsupportedAlgorithm (name : String)
  | coordinate (url : String) (fault : Maven.Coordinate.Fault)
  | missingAttribute (archive header : String)
  | multipleSignerSets (archive : String) (profile : Profile)
  | manifest (archive : String) (fault : Manifest.Fault)
  | signature (archive : String) (fault : SignatureFault)
  | unreadable (path : String) (reason : Option FileError)
  | unreadableEntry (archive entry : String) (fault : Zip.DataFault)
  | invalidArchive (archive : String) (fault : Zip.ArchiveFault)
  | unwritable (path : String) (reason : Option FileError)
  | document (fault : Document.Fault)
  deriving DecidableEq

namespace Failure

/-- Whom a failure concerns: whoever chose the options, the maker of an archive or
of a document, or the file system. -/
inductive Kind
  | configuration
  | validation
  | io
  | parse
  deriving DecidableEq, Repr

def kind : Failure → Kind
  | .unsupportedAlgorithm _ | .coordinate _ _ => .configuration
  | .missingAttribute _ _ | .multipleSignerSets _ _ | .manifest _ _ | .signature _ _ => .validation
  | .unreadable _ _ | .unreadableEntry _ _ _ | .invalidArchive _ _ | .unwritable _ _ => .io
  | .document _ => .parse

/-- The reasons behind a failure, each the reason of the one before it. -/
def reasons : Failure → List String
  | .unreadable _ reason => (reason.map FileError.message).toList
  | .unreadableEntry _ _ fault => [fault.message]
  | .invalidArchive _ fault => fault.reasons
  | .unwritable _ reason => (reason.map FileError.message).toList
  | _ => []

/-- What failed, without the reasons behind it. -/
def summary : Failure → String
  | .unsupportedAlgorithm name => "unsupported hash algorithm '" ++ name ++ "'"
  | .coordinate url fault => "invalid Maven coordinate '" ++ url ++ "': " ++ fault.message
  | .missingAttribute archive header =>
      "CPK " ++ archive ++ " is missing manifest attribute " ++ header
  | .multipleSignerSets archive profile =>
      "CPK " ++ archive ++ " must be signed by exactly one set of signers, found " ++
        toString profile.size ++ ":\n" ++ profile.listing
  | .manifest archive fault => "invalid manifest in " ++ archive ++ ": " ++ fault.message
  | .signature archive fault =>
      "invalid signature metadata in " ++ archive ++ ": " ++ fault.message
  | .unreadable path _ => "failed to read " ++ path
  | .unreadableEntry archive entry _ => "failed to read " ++ archive ++ ":" ++ entry
  | .invalidArchive archive _ => "failed to read archive " ++ archive
  | .unwritable path _ => "failed to write " ++ path
  | .document fault => "invalid CPK XML document: " ++ fault.message

def message (f : Failure) : String :=
  match f.reasons with
  | [] => f.summary
  | reason :: _ => f.summary ++ ": " ++ reason

end Failure

def Digest.Algorithm.ofName (name : String) : Except Failure Digest.Algorithm :=
  match Digest.Algorithm.ofName? name with
  | some a => .ok a
  | none => .error (.unsupportedAlgorithm name)

end CpkProvenance
