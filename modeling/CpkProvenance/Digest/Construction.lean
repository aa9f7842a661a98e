import CpkProvenance.Bytes

/-!
# Iterated hash functions

A hash function of the SHA family folds a compression function over the blocks
of a padded message. The digest of a whole message is defined here once, and
beside it a stream that receives a message in pieces, keeps the bytes of an
unfinished block, and counts what it received.
-/

namespace CpkProvenance.Digest

/-- The parts of an iterated hash function: block size and width of the length
field in bytes, the first chaining value, the compression function, and the
digest of a final chaining value. -/
structure Construction where
  Chain : Type
  blockSize : Nat
  lengthSize : Nat
  start : Chain
  compress : Chain → Bytes → Chain
  output : Chain → Bytes
  blockSize_pos : 0 < blockSize

namespace Construction

variable (c : Construction)

/-- Compresses block after block, and returns the bytes that fill none. -/
def absorb (chain : c.Chain) (data : Bytes) : c.Chain × Bytes :=
  if (data.take c.blockSize).length < c.blockSize then (chain, data)
  else absorb (c.compress chain (data.take c.blockSize)) (data.drop c.blockSize)
termination_by data.length
decreasing_by
  rename_i h
  have := c.blockSize_pos
  simp only [List.length_take, List.length_drop] at h ⊢
  omega

/-- The bytes that follow a message of `total` bytes: a one bit, zeros up to the
length field at the end of a block, and the length in bits. -/
def padding (total : Nat) : Bytes :=
  let used := (total + 1 + c.lengthSize) % c.blockSize
  0x80 :: (List.replicate ((c.blockSize - used) % c.blockSize) 0 ++
    Bytes.ofNatBE c.lengthSize (8 * total))

def digest (message : Bytes) : Bytes :=
  c.output (c.absorb c.start (message ++ c.padding message.length)).1

end Construction

/-- A message under way: the chaining value of its full blocks, the bytes of the
unfinished one, and the number of bytes received. -/
structure Stream (c : Construction) where
  chain : c.Chain
  pending : Bytes
  total : Nat

namespace Stream

variable {c : Construction}

def empty : Stream c := ⟨c.start, [], 0⟩

def update (s : Stream c) (piece : Bytes) : Stream c :=
  let next := c.absorb s.chain (s.pending ++ piece)
  ⟨next.1, next.2, s.total + piece.length⟩

def finish (s : Stream c) : Bytes :=
  c.output (c.absorb s.chain (s.pending ++ c.padding s.total)).1

end Stream

end CpkProvenance.Digest
