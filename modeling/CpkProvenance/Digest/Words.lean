import CpkProvenance.Bytes

/-!
# Words of a message block

Blocks are read as big-endian words of 32 or 64 bits. The message schedule of a
round function continues the words of a block by a recurrence over the words
before.
-/

namespace CpkProvenance.Digest

/-- The word with the given bytes, the most significant first. -/
def word32 (a b c d : UInt8) : UInt32 :=
  (a.toUInt32 <<< 24) ||| (b.toUInt32 <<< 16) ||| (c.toUInt32 <<< 8) ||| d.toUInt32

def words32 : Bytes → List UInt32
  | a :: b :: c :: d :: rest => word32 a b c d :: words32 rest
  | _ => []

def words64 : Bytes → List UInt64
  | a :: b :: c :: d :: e :: f :: g :: h :: rest =>
      (((word32 a b c d).toUInt64 <<< 32) ||| (word32 e f g h).toUInt64) :: words64 rest
  | _ => []

def bytes32 (w : UInt32) : Bytes :=
  [(w >>> 24).toUInt8, (w >>> 16).toUInt8, (w >>> 8).toUInt8, w.toUInt8]

def bytes64 (w : UInt64) : Bytes :=
  bytes32 (w >>> 32).toUInt32 ++ bytes32 w.toUInt32

/-- Extends a sequence of words by `count` more, each computed from those
before. -/
def schedule {ω : Type} (next : Array ω → ω) : (count : Nat) → Array ω → Array ω
  | 0, ws => ws
  | count + 1, ws => schedule next count (ws.push (next ws))

/-- The word that stands `distance` places before the end of a sequence. -/
def wordBack {ω : Type} (absent : ω) (ws : Array ω) (distance : Nat) : ω :=
  ws.getD (ws.size - distance) absent

def rotateLeft32 (x : UInt32) (amount : UInt32) : UInt32 :=
  (x <<< amount) ||| (x >>> (32 - amount))

def rotateRight32 (x : UInt32) (amount : UInt32) : UInt32 :=
  (x >>> amount) ||| (x <<< (32 - amount))

def rotateRight64 (x : UInt64) (amount : UInt64) : UInt64 :=
  (x >>> amount) ||| (x <<< (64 - amount))

end CpkProvenance.Digest
