import CpkProvenance.Bytes.Utf8
import CpkProvenance.Zip.CodePage
import CpkProvenance.Zip.Crc32

/-!
# Records of the central directory

A record tells the name of a member, how its data is kept, and where. It ends in
extra fields, each with a kind and a size. Some kinds change what the record
says, and one with a wrong form makes the record invalid. A field that is cut
off ends the fields without harm, and all other kinds are passed over.
-/

namespace CpkProvenance.Zip

/-- The `width` bytes at an offset as a little-endian number. -/
def numberAt (bytes : Bytes) (offset width : Nat) : Nat :=
  Bytes.toNatLE ((bytes.drop offset).take width)

def hasBytes (size : Nat) (bytes : Bytes) : Bool :=
  (bytes.take size).length == size

/-- Text is UTF-8 if the record says so, and in the old code page otherwise. -/
def decodeText (isUtf8 : Bool) (text : Bytes) : List Char :=
  if isUtf8 then Utf8.decodeLossy text else text.map codePageChar

structure Record where
  rawName : Bytes
  name : String
  comment : Bytes
  encrypted : Bool
  /-- Whether an extra field tells how the data is encrypted. -/
  hasCipher : Bool
  method : Nat
  checksum : Nat
  compressedSize : Nat
  fullSize : Nat
  headerOffset : Nat
  deriving DecidableEq, Repr

/-- How reading extra fields ends early: without harm, or because one of them is
invalid. -/
inductive ExtraEnd
  | cutOff (record : Record)
  | invalid

namespace Record

/-- What reading an extra field gives: the changed record and the bytes that
follow. -/
abbrev Extra := Except ExtraEnd (Record × Bytes)

def skip (r : Record) (size : Nat) (bytes : Bytes) : Extra :=
  if hasBytes size bytes then .ok (r, bytes.drop size) else .error (.cutOff r)

/-- Takes a number of eight bytes if it is wanted. -/
def takeWide (wanted : Bool) (set : Nat → Record) (r : Record) (bytes : Bytes) : Extra :=
  if !wanted then .ok (r, bytes)
  else if hasBytes 8 bytes then .ok (set (numberAt bytes 0 8), bytes.drop 8)
  else .error (.cutOff r)

/-- The size or offset that says that the number stands in an extra field. -/
def wideMark : Nat := 0xFFFFFFFF

/-- Numbers that are too large for the record itself. -/
def wideNumbers (r : Record) (size : Nat) (bytes : Bytes) : Extra := do
  let isFull := decide (24 ≤ size)
  let (r, rest) ← takeWide (isFull || r.fullSize == wideMark) (fun n => { r with fullSize := n })
    r bytes
  let (r, rest) ← takeWide (isFull || r.compressedSize == wideMark)
    (fun n => { r with compressedSize := n }) r rest
  let (r, rest) ← takeWide (isFull || r.headerOffset == wideMark)
    (fun n => { r with headerOffset := n }) r rest
  let used := bytes.length - rest.length
  if size < used then .error .invalid else skip r (size - used) rest

def fileTimes (r : Record) (size : Nat) (bytes : Bytes) : Extra :=
  if size ≠ 32 then .error .invalid
  else if !hasBytes 6 bytes then .error (.cutOff r)
  else if numberAt bytes 4 2 ≠ 1 then .error .invalid
  else if !hasBytes 8 bytes then .error (.cutOff r)
  else if numberAt bytes 6 2 ≠ 24 then .error .invalid
  else skip r 32 bytes

def bitCount (n : Nat) : Nat :=
  ((List.range 8).filter n.testBit).length

/-- Times in seconds: as many as there are flags, or one. -/
def unixTimes (r : Record) (size : Nat) (bytes : Bytes) : Extra :=
  let flags := numberAt bytes 0 1
  if bytes = [] then .error (.cutOff r)
  else if size ≠ 5 ∧ size ≠ 1 + 4 * bitCount flags then .error .invalid
  else if 8 ≤ flags then .error .invalid
  else skip r size bytes

/-- How the data is encrypted, and its method of compression. -/
def cipher (r : Record) (size : Nat) (bytes : Bytes) : Extra :=
  if size ≠ 7 then .error .invalid
  else if !hasBytes 7 bytes then .error (.cutOff r)
  else if numberAt bytes 2 2 ≠ 0x4541 ∨ numberAt bytes 0 2 ∉ [1, 2] ∨
      numberAt bytes 4 1 ∉ [1, 2, 3] then
    .error .invalid
  else .ok ({ r with hasCipher := true, method := numberAt bytes 5 2 }, bytes.drop 7)

/-- A text in UTF-8 that goes with the given older form of it. -/
def unicodeText (older : Bytes) (set : Bytes → String → Record) (r : Record) (size : Nat)
    (bytes : Bytes) : Extra :=
  if !hasBytes 5 bytes then .error (.cutOff r)
  else if size < 5 then .error .invalid
  else if !hasBytes size bytes then .error (.cutOff r)
  else
    let text := (bytes.drop 5).take (size - 5)
    if numberAt bytes 1 4 ≠ (crc32 older).toNat then .error .invalid
    else
      match Utf8.decode? text with
      | none => .error .invalid
      | some decoded => .ok (set text decoded, bytes.drop size)

def extraField (r : Record) (kind size : Nat) (body : Bytes) : Extra :=
  match kind with
  | 0x0001 => r.wideNumbers size body
  | 0x000A => r.fileTimes size body
  | 0x5455 => r.unixTimes size body
  | 0x9901 => r.cipher size body
  | 0x6375 => unicodeText r.comment (fun text _ => { r with comment := text }) r size body
  | 0x7075 =>
      unicodeText r.rawName (fun text name => { r with rawName := text, name := name }) r size body
  | _ => r.skip size body

/-- Reads extra fields, of which there are fewer than `bound`. -/
def extraFields (r : Record) : (bound : Nat) → Bytes → Option Record
  | 0, _ => some r
  | bound + 1, bytes =>
      if !hasBytes 4 bytes then some r
      else
        match r.extraField (numberAt bytes 0 2) (numberAt bytes 2 2) (bytes.drop 4) with
        | .ok (next, rest) => next.extraFields bound rest
        | .error (.cutOff last) => some last
        | .error .invalid => none

def signature : Bytes := [0x50, 0x4B, 0x01, 0x02]

/-- The method of data that is encrypted as an extra field tells. -/
def cipherMethod : Nat := 99

/-- The record at the front of some bytes, and what follows it. -/
def ofBytes? (bytes : Bytes) : Option (Record × Bytes) :=
  let nameSize := numberAt bytes 28 2
  let extraSize := numberAt bytes 30 2
  let commentSize := numberAt bytes 32 2
  let size := 46 + nameSize + extraSize + commentSize
  if !hasBytes 46 bytes || !signature.isPrefixOf bytes || !hasBytes size bytes then none
  else
    let flags := numberAt bytes 8 2
    let isUtf8 := flags.testBit 11
    let name := (bytes.drop 46).take nameSize
    let extra := (bytes.drop (46 + nameSize)).take extraSize
    let comment := (bytes.drop (46 + nameSize + extraSize)).take commentSize
    let record : Record := {
      rawName := name
      name := String.ofList (decodeText isUtf8 name)
      comment := Utf8.encode (decodeText isUtf8 comment)
      encrypted := flags.testBit 0
      hasCipher := false
      method := numberAt bytes 10 2
      checksum := numberAt bytes 16 4
      compressedSize := numberAt bytes 20 4
      fullSize := numberAt bytes 24 4
      headerOffset := numberAt bytes 42 4 }
    match record.extraFields (extra.length + 1) extra with
    | none => none
    | some record =>
        if record.method = cipherMethod ∧ record.hasCipher = false then none
        else some (record, bytes.drop size)

end Record

end CpkProvenance.Zip
