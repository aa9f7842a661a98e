import CpkProvenance.X509.Name

/-!
# X.509 certificates

The decoded form of a certificate, and its encoding. Encoding normalises: an
explicit default is left out and sets are in order, so a certificate that was
not strictly encoded comes out with other bytes than it was read from.
-/

namespace CpkProvenance.X509

open Der

structure AlgorithmId where
  oid : Oid
  parameters : Option Element
  deriving DecidableEq, Repr

namespace AlgorithmId

def ofElement? (e : Element) : Option AlgorithmId := do
  let children ← e.children? 0x30
  match children with
  | [oid] => (Oid.ofElement? oid).map fun o => ⟨o, none⟩
  | [oid, parameters] => (Oid.ofElement? oid).map fun o => ⟨o, some parameters⟩
  | _ => none

def encode (a : AlgorithmId) : Bytes :=
  encodeAs 0x30 (a.oid.encode ++ (a.parameters.map Element.encode).getD [])

def isWhole (a : AlgorithmId) : Bool := a.parameters.isSome

end AlgorithmId

structure PublicKey where
  algorithm : AlgorithmId
  bits : Bytes
  deriving DecidableEq, Repr

namespace PublicKey

def ofElement? (e : Element) : Option PublicKey := do
  let children ← e.children? 0x30
  match children with
  | [algorithm, bits] => return ⟨← AlgorithmId.ofElement? algorithm, ← bitString? bits⟩
  | _ => none

def encode (k : PublicKey) : Bytes :=
  encodeAs 0x30 (k.algorithm.encode ++ encodeAs 0x03 k.bits)

end PublicKey

structure Extension where
  id : Oid
  critical : Bool
  value : Bytes
  deriving DecidableEq, Repr

namespace Extension

def ofElement? (e : Element) : Option Extension := do
  let children ← e.children? 0x30
  match children with
  | [id, value] => return ⟨← Oid.ofElement? id, false, ← octetString? value⟩
  | [id, critical, value] =>
      return ⟨← Oid.ofElement? id, ← boolean? critical, ← octetString? value⟩
  | _ => none

def encode (x : Extension) : Bytes :=
  encodeAs 0x30 (x.id.encode ++
    ((if x.critical then encodeAs 0x01 [0xFF] else []) ++ encodeAs 0x04 x.value))

end Extension

/-- A certificate. Its signature is kept and not checked. -/
structure Certificate where
  version : Nat
  serial : Bytes
  innerAlgorithm : AlgorithmId
  issuer : Name
  notBefore : Element
  notAfter : Element
  subject : Name
  publicKey : PublicKey
  issuerId : Option Bytes
  subjectId : Option Bytes
  extensions : Option (List Extension)
  outerAlgorithm : AlgorithmId
  signature : Bytes
  deriving DecidableEq, Repr

namespace Certificate

/-- The only element inside a constructed context-specific element. -/
def explicit? (number : UInt8) (e : Element) : Option Element :=
  (e.content? (0xA0 + number)).bind single?

def readVersion (fields : List Element) : Option (Nat × List Element) :=
  match takeContext 0 fields with
  | (none, rest) => some (0, rest)
  | (some e, rest) => do
      let inner ← explicit? 0 e
      let version ← version? 2 inner
      return (version, rest)

/-- An optional unique identifier: a bit string under a primitive tag. -/
def readUniqueId (number : Nat) (fields : List Element) :
    Option (Option Bytes × List Element) :=
  match takeContext number fields with
  | (none, rest) => some (none, rest)
  | (some e, rest) => do
      let content ← e.content? (0x80 + UInt8.ofNat number)
      let bits ← bitContent? content
      return (some bits, rest)

def readExtensions (fields : List Element) : Option (Option (List Extension)) :=
  match takeContext 3 fields with
  | (none, []) => some none
  | (some e, []) => do
      let inner ← explicit? 3 e
      let children ← inner.children? 0x30
      let extensions ← children.mapM Extension.ofElement?
      return some extensions
  | _ => none

def readValidity (e : Element) : Option (Element × Element) := do
  let children ← e.children? 0x30
  match children with
  | [a, b] => if isTime a ∧ isTime b then some (a, b) else none
  | _ => none

def ofElement? (e : Element) : Option Certificate := do
  let [tbs, algorithm, signature] ← e.children? 0x30 | none
  let outerAlgorithm ← AlgorithmId.ofElement? algorithm
  let signature ← bitString? signature
  let fields ← tbs.children? 0x30
  let (version, fields) ← readVersion fields
  match fields with
  | serial :: inner :: issuer :: validity :: subject :: publicKey :: rest => do
      let serial ← serial? serial
      let innerAlgorithm ← AlgorithmId.ofElement? inner
      let issuer ← Name.ofElement? issuer
      let (notBefore, notAfter) ← readValidity validity
      let subject ← Name.ofElement? subject
      let publicKey ← PublicKey.ofElement? publicKey
      let (issuerId, rest) ← readUniqueId 1 rest
      let (subjectId, rest) ← readUniqueId 2 rest
      let extensions ← readExtensions rest
      return {
        version, serial, innerAlgorithm, issuer, notBefore, notAfter, subject, publicKey,
        issuerId, subjectId, extensions, outerAlgorithm, signature }
  | _ => none

/-- Decodes a byte string that holds a certificate and nothing else. -/
def decode? (bytes : Bytes) : Option Certificate :=
  (single? bytes).bind ofElement?

def encodeSigned (c : Certificate) : Bytes :=
  encodeAs 0x30
    ((if c.version = 0 then [] else encodeAs 0xA0 (encodeAs 0x02 [UInt8.ofNat c.version])) ++
      (encodeAs 0x02 c.serial ++
      (c.innerAlgorithm.encode ++
      (c.issuer.encode ++
      (encodeAs 0x30 (c.notBefore.encode ++ c.notAfter.encode) ++
      (c.subject.encode ++
      (c.publicKey.encode ++
      ((c.issuerId.map (encodeAs 0x81)).getD [] ++
      ((c.subjectId.map (encodeAs 0x82)).getD [] ++
      (c.extensions.map fun xs =>
        encodeAs 0xA3 (encodeAs 0x30 (xs.flatMap Extension.encode))).getD [])))))))))

def encode (c : Certificate) : Bytes :=
  encodeAs 0x30
    (c.encodeSigned ++ (c.outerAlgorithm.encode ++ encodeAs 0x03 c.signature))

/-- The serial number in upper-case hexadecimal, with colons between bytes. -/
def serialText (c : Certificate) : String :=
  ":".intercalate (c.serial.map fun b =>
    String.ofList ((Bytes.hexOfByte b).map Char.toUpper))

def subjectKeyExtension : Oid := ⟨[0x55, 0x1D, 0x0E]⟩

def subjectKeyId? (c : Certificate) : Option Bytes := do
  let x ← (c.extensions.getD []).find? (·.id == subjectKeyExtension)
  let inner ← single? x.value
  octetString? inner

def isSelfIssued (c : Certificate) : Bool :=
  c.subject == c.issuer

end Certificate

end CpkProvenance.X509
