import CpkProvenance.Text.Ascii

/-!
# Attributes

Headers of a manifest in the order of the file. A look-up takes the first header
of a name and ignores case.
-/

namespace CpkProvenance.Manifest

structure Attribute where
  name : String
  value : String
  deriving DecidableEq, Repr

abbrev Attributes := List Attribute

def Attributes.get? (attributes : Attributes) (name : String) : Option String :=
  (attributes.find? fun a => Text.equalIgnoringCase a.name name).map (·.value)

end CpkProvenance.Manifest
