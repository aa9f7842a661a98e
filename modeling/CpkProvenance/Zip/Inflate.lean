import CpkProvenance.Bytes

/-!
# Inflate

Decompression of deflated data. Bits are taken from the low end of each byte.
Codes are canonical and given by the lengths of their words. Data is corrupt if
it ends before its last block does, if a code has several words and does not
fill the tree, or if something stands in it that has no meaning. A copy may
reach back before the start of the output, where all bytes are zero. Bytes after
the last block are ignored.
-/

namespace CpkProvenance.Zip

/-- Why no more can be decoded: the data is at its end, or is corrupt, or there
is no room for more output. -/
inductive Obstacle
  | endOfData
  | corrupt
  | noRoom
  deriving DecidableEq, Repr

/-- Bytes whose first `used` bits, fewer than eight, have been taken. -/
structure BitSource where
  bytes : Bytes
  used : Nat
  deriving DecidableEq, Repr

namespace BitSource

def bit (s : BitSource) : Except Obstacle (Nat × BitSource) :=
  match s.bytes with
  | [] => .error .endOfData
  | b :: rest =>
      let value := (b.toNat >>> s.used) % 2
      if s.used = 7 then .ok (value, ⟨rest, 0⟩) else .ok (value, ⟨b :: rest, s.used + 1⟩)

/-- Takes a number of the given width, its lowest bit first. -/
def number : (width : Nat) → BitSource → Except Obstacle (Nat × BitSource)
  | 0, s => .ok (0, s)
  | width + 1, s => do
      let (low, s) ← s.bit
      let (high, s) ← number width s
      return (low + 2 * high, s)

/-- Drops the rest of a byte that was begun. -/
def align (s : BitSource) : Bytes :=
  if s.used = 0 then s.bytes else s.bytes.drop 1

end BitSource

/-- A canonical code: how many words have length one, two and so on up to
fifteen, and the symbols in the order of their words. -/
structure Code where
  counts : List Nat
  symbols : Array Nat
  deriving DecidableEq, Repr

namespace Code

/-- The code whose symbols, from zero on, have words of the given lengths; a
symbol of length zero has none. -/
def ofLengths (lengths : List Nat) : Code :=
  let ofLength (n : Nat) := (lengths.zipIdx.filter (·.1 == n)).map (·.2)
  let groups := (List.range 15).map fun n => ofLength (n + 1)
  ⟨groups.map List.length, groups.flatten.toArray⟩

def isComplete (c : Code) : Bool :=
  c.counts.foldl (fun total count => 2 * total + count) 0 == 0x8000

/-- Whether there is at most one word, of a single bit. -/
def isTrivial (c : Code) : Bool :=
  c.counts.tail.all (· == 0) && c.counts.head?.all (· ≤ 1)

def ofLengths? (lengths : List Nat) : Except Obstacle Code :=
  let code := ofLengths lengths
  if code.isComplete || code.isTrivial then .ok code else .error .corrupt

/-- A code for code lengths, which has at least two words. -/
def ofCompleteLengths? (lengths : List Nat) : Except Obstacle Code :=
  let code := ofLengths lengths
  if code.isComplete then .ok code else .error .corrupt

/-- Reads on in a word. Of the words as long as what was read, the first is
`first`, and `index` symbols have shorter words. -/
def walk (symbols : Array Nat) (code first index : Nat) :
    List Nat → BitSource → Except Obstacle (Nat × BitSource)
  | [], _ => .error .corrupt
  | count :: counts, s => do
      let (bit, s) ← s.bit
      let code := 2 * code + bit
      let first := 2 * first
      if code < first + count then
        match symbols[index + (code - first)]? with
        | some symbol => return (symbol, s)
        | none => .error .corrupt
      else if counts.all (· == 0) then .error .corrupt
      else walk symbols code (first + count) (index + count) counts s

def symbol (c : Code) (s : BitSource) : Except Obstacle (Nat × BitSource) :=
  walk c.symbols 0 0 0 c.counts s

end Code

/-- Least value and number of extra bits of each length symbol, from 257 on. -/
def lengthBases : Array (Nat × Nat) :=
  #[(3, 0), (4, 0), (5, 0), (6, 0), (7, 0), (8, 0), (9, 0), (10, 0), (11, 1), (13, 1), (15, 1),
    (17, 1), (19, 2), (23, 2), (27, 2), (31, 2), (35, 3), (43, 3), (51, 3), (59, 3), (67, 4),
    (83, 4), (99, 4), (115, 4), (131, 5), (163, 5), (195, 5), (227, 5), (258, 0)]

/-- Least value and number of extra bits of each distance symbol. -/
def distanceBases : Array (Nat × Nat) :=
  #[(1, 0), (2, 0), (3, 0), (4, 0), (5, 1), (7, 1), (9, 2), (13, 2), (17, 3), (25, 3), (33, 4),
    (49, 4), (65, 5), (97, 5), (129, 6), (193, 6), (257, 7), (385, 7), (513, 8), (769, 8),
    (1025, 9), (1537, 9), (2049, 10), (3073, 10), (4097, 11), (6145, 11), (8193, 12),
    (12289, 12), (16385, 13), (24577, 13)]

def extended (bases : Array (Nat × Nat)) (index : Nat) (s : BitSource) :
    Except Obstacle (Nat × BitSource) :=
  match bases[index]? with
  | none => .error .corrupt
  | some (base, width) => do
      let (extra, s) ← s.number width
      return (base + extra, s)

def byteBack (distance : Nat) (out : Array UInt8) : UInt8 :=
  if distance ≤ out.size then out.getD (out.size - distance) 0 else 0

/-- Appends `count` bytes, each equal to the byte `distance` places before it. -/
def copyBack (distance : Nat) : (count : Nat) → Array UInt8 → Array UInt8
  | 0, out => out
  | count + 1, out => copyBack distance count (out.push (byteBack distance out))

/-- Whether output of a size exceeds the room for it, if that is limited. -/
def exceeds (room : Option Nat) (size : Nat) : Bool :=
  room.any (· < size)

/-- A symbol of a block with the bits that belong to it. -/
inductive BlockItem
  | literal (byte : UInt8)
  | copy (distance length : Nat)
  | endOfBlock
  deriving DecidableEq, Repr

def blockItem (literals distances : Code) (s : BitSource) :
    Except Obstacle (BlockItem × BitSource) := do
  let (symbol, s) ← literals.symbol s
  if symbol < 256 then return (.literal (UInt8.ofNat symbol), s)
  else if symbol = 256 then return (.endOfBlock, s)
  else
    let (length, s) ← extended lengthBases (symbol - 257) s
    let (symbol, s) ← distances.symbol s
    let (distance, s) ← extended distanceBases symbol s
    return (.copy distance length, s)

/-- Reads the symbols of a block up to its end. Every symbol takes at least one
bit, so a bound on the number of bits left bounds the recursion. -/
def inflateItems (room : Option Nat) (literals distances : Code) :
    (bound : Nat) → Array UInt8 → BitSource → Except Obstacle (Array UInt8 × BitSource)
  | 0, _, _ => .error .endOfData
  | bound + 1, out, s => do
      match ← blockItem literals distances s with
      | (.endOfBlock, s) => return (out, s)
      | (.literal byte, s) =>
          if exceeds room (out.size + 1) then .error .noRoom
          else inflateItems room literals distances bound (out.push byte) s
      | (.copy distance length, s) =>
          if exceeds room (out.size + length) then .error .noRoom
          else inflateItems room literals distances bound (copyBack distance length out) s

def lengthOrder : List Nat :=
  [16, 17, 18, 0, 8, 7, 9, 6, 10, 5, 11, 4, 12, 3, 13, 2, 14, 1, 15]

def threeBits : (count : Nat) → BitSource → Except Obstacle (List Nat × BitSource)
  | 0, s => .ok ([], s)
  | count + 1, s => do
      let (n, s) ← s.number 3
      let (others, s) ← threeBits count s
      return (n :: others, s)

/-- Reads code lengths, the last one read first, until there are `total`. -/
def readLengths (code : Code) (total : Nat) :
    (bound : Nat) → List Nat → BitSource → Except Obstacle (List Nat × BitSource)
  | 0, _, _ => .error .corrupt
  | bound + 1, done, s =>
      if done.length = total then .ok (done.reverse, s)
      else if total < done.length then .error .corrupt
      else do
        let (symbol, s) ← code.symbol s
        if symbol < 16 then readLengths code total bound (symbol :: done) s
        else if symbol = 16 then
          match done with
          | [] => .error .corrupt
          | previous :: _ =>
              let (extra, s) ← s.number 2
              readLengths code total bound (List.replicate (3 + extra) previous ++ done) s
        else if symbol = 17 then
          let (extra, s) ← s.number 3
          readLengths code total bound (List.replicate (3 + extra) 0 ++ done) s
        else
          let (extra, s) ← s.number 7
          readLengths code total bound (List.replicate (11 + extra) 0 ++ done) s

def dynamicCodes (s : BitSource) : Except Obstacle (Code × Code × BitSource) := do
  let (literalCount, s) ← s.number 5
  let (distanceCount, s) ← s.number 5
  let (lengthCount, s) ← s.number 4
  let literalCount := literalCount + 257
  let distanceCount := distanceCount + 1
  if 286 < literalCount ∨ 30 < distanceCount then .error .corrupt
  else
    let (given, s) ← threeBits (lengthCount + 4) s
    let lengths := (List.range 19).map fun symbol =>
      (((lengthOrder.zip given).find? (·.1 == symbol)).map (·.2)).getD 0
    let lengthCode ← Code.ofCompleteLengths? lengths
    let total := literalCount + distanceCount
    let (lengths, s) ← readLengths lengthCode total (total + 1) [] s
    let literals ← Code.ofLengths? (lengths.take literalCount)
    let distances ← Code.ofLengths? (lengths.drop literalCount)
    return (literals, distances, s)

def fixedLiterals : Code :=
  .ofLengths (List.replicate 144 8 ++ List.replicate 112 9 ++ List.replicate 24 7 ++
    List.replicate 8 8)

def fixedDistances : Code :=
  .ofLengths (List.replicate 32 5)

def inflateStored (room : Option Nat) (out : Array UInt8) (s : BitSource) :
    Except Obstacle (Array UInt8 × BitSource) :=
  match s.align with
  | a :: b :: c :: d :: rest =>
      let length := a.toNat + 256 * b.toNat
      let content := rest.take length
      if c ≠ ~~~a ∨ d ≠ ~~~b then .error .corrupt
      else if exceeds room (out.size + content.length) then .error .noRoom
      else if content.length < length then .error .endOfData
      else .ok (out ++ content.toArray, ⟨rest.drop length, 0⟩)
  | _ => .error .endOfData

/-- Reads one block, given a bound on the number of bits left. -/
def inflateBlock (room : Option Nat) (bound kind : Nat) (out : Array UInt8) (s : BitSource) :
    Except Obstacle (Array UInt8 × BitSource) :=
  match kind with
  | 0 => inflateStored room out s
  | 1 => inflateItems room fixedLiterals fixedDistances bound out s
  | 2 => do
      let (literals, distances, s) ← dynamicCodes s
      inflateItems room literals distances bound out s
  | _ => .error .corrupt

/-- Reads blocks up to the last one. Every block takes at least three bits. -/
def inflateBlocks (room : Option Nat) (bits : Nat) :
    (bound : Nat) → Array UInt8 → BitSource → Except Obstacle (Array UInt8)
  | 0, _, _ => .error .endOfData
  | bound + 1, out, s => do
      let (header, s) ← s.number 3
      let (out, s) ← inflateBlock room bits (header / 2) out s
      if header % 2 = 1 then return out else inflateBlocks room bits bound out s

def inflateInto (room : Option Nat) (data : Bytes) : Except Obstacle (Array UInt8) :=
  let bits := 8 * data.length + 1
  inflateBlocks room bits bits #[] ⟨data, 0⟩

def inflate? (data : Bytes) : Option Bytes :=
  match inflateInto none data with
  | .ok out => some out.toList
  | .error _ => none

def inflateStep : Nat := 8192

/-- The number of bytes of output that are kept for copies. -/
def inflateWindow : Nat := 32768

/-- Whether data shows to be corrupt before any of its content is asked for, when
its end is out of sight. -/
def isCorruptAtFront (data : Bytes) : Bool :=
  match inflateInto (some inflateWindow) (data.take inflateStep) with
  | .error .corrupt => true
  | _ => false

end CpkProvenance.Zip
