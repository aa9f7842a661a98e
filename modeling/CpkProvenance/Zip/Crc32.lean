import CpkProvenance.Bytes

/-!
# CRC-32

The checksum that archives record for the content of a member: the reflected
polynomial 0xEDB88320, one bit at a time.
-/

namespace CpkProvenance.Zip

def crcStep (crc : UInt32) : UInt32 :=
  if crc % 2 = 1 then (crc >>> 1) ^^^ 0xEDB88320 else crc >>> 1

def crcByte (crc : UInt32) (b : UInt8) : UInt32 :=
  Nat.repeat crcStep 8 (crc ^^^ b.toUInt32)

def crc32 (bytes : Bytes) : UInt32 :=
  bytes.foldl crcByte 0xFFFFFFFF ^^^ 0xFFFFFFFF

end CpkProvenance.Zip
