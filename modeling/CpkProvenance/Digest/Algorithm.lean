import CpkProvenance.Bytes.Base64
import CpkProvenance.Bytes.Utf8
import CpkProvenance.Digest.Sha1
import CpkProvenance.Digest.Sha256
import CpkProvenance.Digest.Sha512
import CpkProvenance.Text.Ascii
import CpkProvenance.Text.Blank

/-!
# Digest algorithms

The four algorithms by which manifests, signature files and documents record
digests, their names, and the hashers that compute them piece by piece.
-/

namespace CpkProvenance.Digest

inductive Algorithm
  | sha1
  | sha256
  | sha384
  | sha512
  deriving DecidableEq, Repr

namespace Algorithm

/-- The canonical name, which documents and messages show. -/
def name : Algorithm → String
  | sha1 => "SHA-1"
  | sha256 => "SHA-256"
  | sha384 => "SHA-384"
  | sha512 => "SHA-512"

/-- Reads a name without regard to case, surrounding blanks or the hyphen. -/
def ofName? (text : String) : Option Algorithm :=
  match Text.upper (Text.trim text) with
  | "SHA-1" | "SHA1" => some sha1
  | "SHA-256" | "SHA256" => some sha256
  | "SHA-384" | "SHA384" => some sha384
  | "SHA-512" | "SHA512" => some sha512
  | _ => none

/-- The algorithm of an attribute such as `SHA-256-Digest`, whose name ends in
the given text. -/
def ofAttribute? (header tail : String) : Option Algorithm :=
  (Text.dropEnd? (Text.upper tail) (Text.upper header)).bind ofName?

def construction : Algorithm → Construction
  | sha1 => Sha1.construction
  | sha256 => Sha256.construction
  | sha384 => Sha512.sha384
  | sha512 => Sha512.sha512

def digest (a : Algorithm) (data : Bytes) : Bytes :=
  a.construction.digest data

end Algorithm

abbrev Hasher (a : Algorithm) := Stream a.construction

/-- Whether a recorded digest, as Base64 text, is the given one. -/
def recorded (text : String) (actual : Bytes) : Bool :=
  match Base64.decode (Utf8.encode (Text.trim text).toList) with
  | .ok expected => expected == actual
  | .error _ => false

end CpkProvenance.Digest
