import CpkProvenance.Zip.Fault
import CpkProvenance.Zip.Inflate
import CpkProvenance.Zip.Record

/-!
# ZIP archives

An archive is read from its end: the end record leads to the central directory,
and each record of the directory to a member. Data may stand in front of the
archive, which shifts all offsets, and behind it. If an end record does not lead
to a complete directory, an earlier one is tried.

The wide (ZIP64) end record of large archives and its locator are left out: only
the plain end record is looked at. Members are stored or deflated; other methods
and encryption are faults of the member.
-/

namespace CpkProvenance.Zip

structure Member where
  name : String
  content : Except ReadFault Bytes
  /-- The data of a member that is deflated. -/
  deflated : Option Bytes

namespace Member

/-- A directory is told by the end of its name. -/
def isDirectory (m : Member) : Bool :=
  match m.name.toList.getLast? with
  | some c => c == '/' || c == '\\'
  | none => false

/-- What a read without room for any bytes gives. Deflated data may show to be
corrupt, but no checksum is compared. -/
def touch (m : Member) : Except ReadFault Unit :=
  match m.deflated with
  | some data =>
      if isCorruptAtFront data then .error (.unreadable .corrupt) else .ok ()
  | none =>
      match m.content with
      | .error (.inaccessible fault) => .error (.inaccessible fault)
      | _ => .ok ()

/-- The pieces that a reader receives who reads a member through a buffer. -/
def pieces (m : Member) (buffer : Nat) : Except ReadFault (List Bytes) :=
  if buffer = 0 then m.touch.map fun _ => [] else m.content.map (Bytes.pieces buffer)

end Member

def endSignature : Bytes := [0x50, 0x4B, 0x05, 0x06]

def localSignature : Bytes := [0x50, 0x4B, 0x03, 0x04]

/-- A place in a file: its offset, and the bytes from there on. -/
structure Place where
  offset : Nat
  bytes : Bytes
  deriving DecidableEq, Repr

def occurrences (signature : Bytes) (offset : Nat) : Bytes → List Place
  | [] => []
  | b :: rest =>
      if signature.isPrefixOf (b :: rest) then
        ⟨offset, b :: rest⟩ :: occurrences signature (offset + 1) rest
      else occurrences signature (offset + 1) rest

/-- What an end record says, with the offset at which it stands. -/
structure EndRecord where
  position : Nat
  disk : Nat
  directoryDisk : Nat
  recordsHere : Nat
  recordsTotal : Nat
  directoryOffset : Nat
  deriving DecidableEq, Repr

/-- The end record at a place in a file of a given size, if the record and its
comment lie within the file. -/
def endRecordAt (fileSize : Nat) (p : Place) : Except ArchiveFault EndRecord :=
  if fileSize < p.offset + 22 then .error .endRecordCutOff
  else if fileSize < p.offset + 22 + numberAt p.bytes 20 2 then .error .commentCutOff
  else
    .ok {
      position := p.offset
      disk := numberAt p.bytes 4 2
      directoryDisk := numberAt p.bytes 6 2
      recordsHere := numberAt p.bytes 8 2
      recordsTotal := numberAt p.bytes 10 2
      directoryOffset := numberAt p.bytes 16 4 }

/-- Where the directory starts, and by how much all offsets are shifted. An
archive without members needs no directory. -/
def directoryStart (directories : List Place) (e : EndRecord) :
    Except ArchiveFault (Nat × Nat) :=
  if e.recordsTotal = 0 then
    let shift := e.position - e.directoryOffset
    .ok (e.directoryOffset + shift, shift)
  else if e.position ≤ e.directoryOffset then .error .misplacedDirectory
  else
    match directories.find? fun d => e.directoryOffset ≤ d.offset ∧ d.offset < e.position with
    | some d => .ok (d.offset, d.offset - e.directoryOffset)
    | none => .error .noDirectory

def dataStart (header : Bytes) : Except ArchiveFault Nat :=
  if !hasBytes 30 header then .error .headerCutOff
  else if !localSignature.isPrefixOf header then .error .badHeader
  else .ok (30 + numberAt header 26 2 + numberAt header 28 2)

/-- The data of a member. Its size and method are those of the directory. -/
def locate (file : Bytes) (r : Record) (headerStart : Nat) : Except ArchiveFault Bytes :=
  if r.encrypted then .error .encrypted
  else do
    let header := file.drop headerStart
    let start ← dataStart header
    if r.method ≠ 0 ∧ r.method ≠ 8 then .error .unsupportedMethod
    else if r.hasCipher then .error .passwordNeeded
    else return (header.drop start).take r.compressedSize

/-- The content of some data, checked against the checksum of the directory. -/
def unpack (r : Record) (data : Bytes) : Except DataFault Bytes :=
  match if r.method = 0 then some data else inflate? data with
  | none => .error .corrupt
  | some content =>
      if (crc32 content).toNat = r.checksum then .ok content else .error .wrongChecksum

def memberOf (file : Bytes) (r : Record) (headerStart : Nat) : Member :=
  match locate file r headerStart with
  | .error fault => ⟨r.name, .error (.inaccessible fault), none⟩
  | .ok data =>
      ⟨r.name, (unpack r data).mapError .unreadable, if r.method = 0 then none else some data⟩

/-- Reads `count` records of the directory that starts at `start`. -/
def readDirectory (file : Bytes) (start shift : Nat) :
    (count : Nat) → Bytes → Option (List Member)
  | 0, _ => some []
  | count + 1, bytes => do
      let (record, rest) ← Record.ofBytes? bytes
      let headerStart := record.headerOffset + shift
      if start ≤ headerStart then none
      else
        let others ← readDirectory file start shift count rest
        return memberOf file record headerStart :: others

/-- Adds a member; one of the same name is replaced in its place. -/
def addMember (members : List Member) (m : Member) : List Member :=
  if members.any (·.name == m.name) then
    members.map fun old => if old.name == m.name then m else old
  else members ++ [m]

/-- The members in the directory that an end record leads to. -/
def directoryMembers? (file : Bytes) (e : EndRecord) (start shift : Nat) :
    Option (List Member) :=
  if e.disk ≠ e.directoryDisk then none
  else (readDirectory file start shift e.recordsHere (file.drop start)).map
    (·.foldl addMember [])

/-- The members of a file of the given size that the first usable one of some end
records leads to, and otherwise the last fault that was found. A directory that
cannot be read is no fault by itself. -/
def membersFrom (file : Bytes) (fileSize : Nat) (directories : List Place)
    (fault : Option ArchiveFault) : List Place → Except ArchiveFault (List Member)
  | [] => .error (fault.getD .noEndRecord)
  | place :: earlier =>
      match endRecordAt fileSize place with
      | .error found => membersFrom file fileSize directories (some (fault.getD found)) earlier
      | .ok e =>
          match directoryStart directories e with
          | .error found => membersFrom file fileSize directories (some found) earlier
          | .ok (start, shift) =>
              match directoryMembers? file e start shift with
              | some members => .ok members
              | none => membersFrom file fileSize directories none earlier

def members (file : Bytes) : Except ArchiveFault (List Member) :=
  membersFrom file file.length (occurrences Record.signature 0 file) none
    (occurrences endSignature 0 file).reverse

end CpkProvenance.Zip
