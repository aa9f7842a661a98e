import CpkProvenance.Digest.Algorithm
import CpkProvenance.Manifest.Attributes

/-!
# Recorded digests

Headers such as `SHA-256-Digest` record a digest under the name of its
algorithm. Headers of unknown algorithms are passed over.
-/

namespace CpkProvenance.Manifest

structure RecordedDigest where
  algorithm : Digest.Algorithm
  text : String
  deriving DecidableEq, Repr

namespace RecordedDigest

def ofAttribute? (tail : String) (a : Attribute) : Option RecordedDigest :=
  (Digest.Algorithm.ofAttribute? a.name tail).map fun algorithm => ⟨algorithm, a.value⟩

def isOf (d : RecordedDigest) (data : Bytes) : Bool :=
  Digest.recorded d.text (d.algorithm.digest data)

/-- Whether a byte string that arrives in pieces has the recorded digest. -/
def isOfPieces (d : RecordedDigest) (pieces : List Bytes) : Bool :=
  let hasher : Digest.Hasher d.algorithm := pieces.foldl Digest.Stream.update Digest.Stream.empty
  Digest.recorded d.text hasher.finish

end RecordedDigest

/-- The digests whose header names end in the given text, in order. -/
def Attributes.digests (attributes : Attributes) (tail : String) : List RecordedDigest :=
  attributes.filterMap (RecordedDigest.ofAttribute? tail)

end CpkProvenance.Manifest
