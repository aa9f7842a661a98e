import CpkProvenance.Text.Ascii

/-!
# Signable entries

Every entry of a signed archive must be signed, apart from directories and from
the files in which the signatures themselves are kept: in `META-INF/`, the
index, names that begin with `SIG-`, signature files and signature blocks.
-/

namespace CpkProvenance.Archive

def signatureEndings : List String := [".SF", ".DSA", ".RSA", ".EC"]

/-- Whether a name inside `META-INF/` is exempt from signing. The part before
an ending, and the part after `SIG-`, must not be empty. -/
def isExempt (name : String) : Bool :=
  name == "INDEX.LIST" ||
    (Text.dropStart? "SIG-" name).any (· != "") ||
    signatureEndings.any fun ending => (Text.dropEnd? ending name).any (· != "")

def isSignable (name : String) (isDirectory : Bool) : Bool :=
  !isDirectory &&
    match Text.dropStart? "META-INF/" name with
    | none => true
    | some rest => !isExempt rest

end CpkProvenance.Archive
