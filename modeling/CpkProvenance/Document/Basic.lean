import CpkProvenance.Bytes

/-!
# Documents

The two documents that a CPK carries: the CPKs it depends on, each with its
signers, and the library files it was built against, each with its hash.
-/

namespace CpkProvenance.Document

structure HashValue where
  algorithm : String
  value : Bytes
  deriving DecidableEq, Repr

/-- Who signed a dependency: whoever signed the CPK that carries the document,
or the owners of the hashed public keys. -/
inductive Signers
  | sameAsMe
  | publicKeyHashes (hashes : List HashValue)
  deriving DecidableEq, Repr

structure Dependency where
  name : String
  version : String
  type : Option String
  signers : Signers
  deriving DecidableEq, Repr

structure Dependencies where
  dependencies : List Dependency
  deriving DecidableEq, Repr

structure Constraint where
  fileName : String
  hash : HashValue
  deriving DecidableEq, Repr

structure Constraints where
  constraints : List Constraint
  deriving DecidableEq, Repr

def xmlNamespace : String := "urn:corda-cpk"

end CpkProvenance.Document
