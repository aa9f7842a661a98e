import CpkProvenance.Archive.Signable
import CpkProvenance.Traced

/-!
# Signed archives

What is known of an archive: its name, its main attributes, and for every entry,
in order, what reading it gives: its signers, or a failure. The profile reads the
entries in order and stops at the first failure.
-/

namespace CpkProvenance

namespace Archive

structure Entry where
  name : String
  isDirectory : Bool
  signers : List CodeSigner
  deriving DecidableEq

end Archive

structure Archive where
  name : String
  attributes : Manifest.Attributes
  entries : List (Except Failure Archive.Entry)

namespace Archive

/-- Reads entries and adds their signers to a profile. A signable entry without
signers adds the empty set, and is reported. -/
def profileFrom (archive : String) (p : Profile) : List (Except Failure Entry) → Traced Profile
  | [] => pure p
  | first :: rest => do
      let entry ← Traced.read first
      if isSignable entry.name entry.isDirectory then
        let signers := SignerSet.ofSigners entry.signers
        if signers.isEmpty then
          Traced.write .warn (archive ++ ":" ++ entry.name ++ " is unsigned")
        profileFrom archive (p.insert signers) rest
      else profileFrom archive p rest

def profile (a : Archive) : Traced Profile :=
  profileFrom a.name OrderedSet.empty a.entries

end Archive

end CpkProvenance
