import CpkProvenance.OrderedSet
import CpkProvenance.Signing.Certificate

/-!
# Signers of an archive

A code signer is a certificate path, the signing certificate first. The signers
of one entry form a set of certificates, and the profile of an archive is the
set of the signer sets of its entries.
-/

namespace CpkProvenance

structure CodeSigner where
  path : List Certificate
  deriving DecidableEq

def CodeSigner.certificate? (s : CodeSigner) : Option Certificate :=
  s.path.head?

abbrev SignerSet := OrderedSet Certificate

namespace SignerSet

/-- The signing certificates of some signers; a signer without a path has
none. -/
def ofSigners (signers : List CodeSigner) : SignerSet :=
  OrderedSet.ofList (signers.filterMap CodeSigner.certificate?)

def display (s : SignerSet) : String :=
  "CERTIFICATE SET (size=" ++ toString s.size ++ "):" ++
    String.join (s.toList.map fun c => "\n" ++ c.display)

end SignerSet

abbrev Profile := OrderedSet SignerSet

namespace Profile

/-- The only signer set of an archive that was signed consistently. -/
def single? (p : Profile) : Option SignerSet :=
  match p.toList with
  | [s] => some s
  | _ => none

def listing (p : Profile) : String :=
  "\n".intercalate (p.toList.map SignerSet.display)

end Profile

end CpkProvenance
