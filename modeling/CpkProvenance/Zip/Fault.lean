/-!
# Faults of ZIP archives

Why a file is no archive, why a member of an archive cannot be reached, and why
its content cannot be read.
-/

namespace CpkProvenance.Zip

inductive ArchiveFault
  /-- A directory stands where a file is expected. -/
  | notFile
  | noEndRecord
  | endRecordCutOff
  | commentCutOff
  /-- The end record stands before the directory that it leads to. -/
  | misplacedDirectory
  | noDirectory
  | encrypted
  | passwordNeeded
  | headerCutOff
  | badHeader
  | unsupportedMethod
  deriving DecidableEq, Repr

/-- The reasons of a fault, each the reason of the one before it. -/
def ArchiveFault.reasons : ArchiveFault → List String
  | .notFile => ["i/o error: Is a directory (os error 21)", "Is a directory (os error 21)"]
  | .noEndRecord => ["invalid Zip archive: Could not find EOCD"]
  | .endRecordCutOff => ["i/o error: failed to fill whole buffer", "failed to fill whole buffer"]
  | .commentCutOff => ["invalid Zip archive: EOCD comment exceeds file boundary"]
  | .misplacedDirectory => ["invalid Zip archive: Invalid CDFH offset in EOCD"]
  | .noDirectory => ["invalid Zip archive: No CDFH found"]
  | .encrypted => ["unsupported Zip archive: Password required to decrypt file"]
  | .passwordNeeded => ["The password provided is incorrect"]
  | .headerCutOff => ["i/o error: failed to fill whole buffer", "failed to fill whole buffer"]
  | .badHeader => ["invalid Zip archive: Invalid local file header"]
  | .unsupportedMethod => ["unsupported Zip archive: Compression method not supported"]

inductive DataFault
  | corrupt
  | wrongChecksum
  deriving DecidableEq, Repr

def DataFault.message : DataFault → String
  | .corrupt => "corrupt deflate stream"
  | .wrongChecksum => "Invalid checksum"

/-- Why a member cannot be read: it cannot be reached, or its content cannot be
read. -/
inductive ReadFault
  | inaccessible (fault : ArchiveFault)
  | unreadable (fault : DataFault)
  deriving DecidableEq, Repr

end CpkProvenance.Zip
