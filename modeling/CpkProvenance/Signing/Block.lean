import CpkProvenance.Signing.SignerSet

/-!
# Signature blocks

A signature block holds signed data: certificates, and one description of each
signer that says which certificate is its own. The path of a signer starts with
that certificate and follows issuers through the certificates of the block.
Signatures are not verified here.
-/

namespace CpkProvenance.Signing

open Der X509

/-- How a signer refers to its certificate. -/
inductive SignerId
  | issuerAndSerial (issuer : Name) (serial : Bytes)
  | subjectKey (id : Bytes)
  deriving DecidableEq, Repr

namespace SignerId

def ofElement? (e : Element) : Option SignerId :=
  if e.tag = 0x80 then some (.subjectKey e.content)
  else do
    let children ← e.children? 0x30
    match children with
    | [issuer, serial] => return .issuerAndSerial (← Name.ofElement? issuer) (← serial? serial)
    | _ => none

def encode : SignerId → Bytes
  | .issuerAndSerial issuer serial => encodeAs 0x30 (issuer.encode ++ encodeAs 0x02 serial)
  | .subjectKey id => encodeAs 0x80 id

def identifies (id : SignerId) (c : X509.Certificate) : Bool :=
  match id with
  | .issuerAndSerial issuer serial => c.issuer == issuer && c.serial == serial
  | .subjectKey key => c.subjectKeyId? == some key

end SignerId

structure SignerAttribute where
  type : Oid
  values : List Element
  deriving DecidableEq, Repr

namespace SignerAttribute

def ofElement? (e : Element) : Option SignerAttribute := do
  let children ← e.children? 0x30
  match children with
  | [type, values] =>
      let type ← Oid.ofElement? type
      let values ← values.children? 0x31
      return ⟨type, ← setOf? Element.encode (fun _ => true) values⟩
  | _ => none

def encode (a : SignerAttribute) : Bytes :=
  encodeAs 0x30 (a.type.encode ++ encodeAs 0x31 (a.values.flatMap Element.encode))

def readSet (number : Nat) (fields : List Element) :
    Option (Option (List SignerAttribute) × List Element) :=
  match takeContext number fields with
  | (none, rest) => some (none, rest)
  | (some e, rest) => do
      let children ← e.children? (0xA0 + UInt8.ofNat number)
      let attributes ← children.mapM ofElement?
      let set ← setOf? encode (fun _ => true) attributes
      return (some set, rest)

def encodeSet (number : UInt8) (set : Option (List SignerAttribute)) : Bytes :=
  (set.map fun attributes => encodeAs (0xA0 + number) (attributes.flatMap encode)).getD []

end SignerAttribute

structure SignerInfo where
  version : Nat
  id : SignerId
  digestAlgorithm : AlgorithmId
  signedAttributes : Option (List SignerAttribute)
  signatureAlgorithm : AlgorithmId
  signature : Bytes
  unsignedAttributes : Option (List SignerAttribute)
  deriving DecidableEq, Repr

namespace SignerInfo

def ofElement? (e : Element) : Option SignerInfo := do
  let version :: id :: digestAlgorithm :: rest ← e.children? 0x30 | none
  let version ← version? 5 version
  let id ← SignerId.ofElement? id
  let digestAlgorithm ← AlgorithmId.ofElement? digestAlgorithm
  let (signedAttributes, rest) ← SignerAttribute.readSet 0 rest
  match rest with
  | signatureAlgorithm :: signature :: rest => do
      let signatureAlgorithm ← AlgorithmId.ofElement? signatureAlgorithm
      let signature ← octetString? signature
      let (unsignedAttributes, rest) ← SignerAttribute.readSet 1 rest
      if rest = [] then
        return {
          version, id, digestAlgorithm, signedAttributes, signatureAlgorithm, signature,
          unsignedAttributes }
      else none
  | _ => none

def encode (s : SignerInfo) : Bytes :=
  encodeAs 0x30
    (encodeAs 0x02 [UInt8.ofNat s.version] ++
      (s.id.encode ++
      (s.digestAlgorithm.encode ++
      (SignerAttribute.encodeSet 0 s.signedAttributes ++
      (s.signatureAlgorithm.encode ++
      (encodeAs 0x04 s.signature ++
      SignerAttribute.encodeSet 1 s.unsignedAttributes))))))

/-- Whether no optional field is absent. -/
def isWhole (s : SignerInfo) : Bool :=
  s.digestAlgorithm.isWhole && s.signedAttributes.isSome && s.signatureAlgorithm.isWhole &&
    s.unsignedAttributes.isSome

end SignerInfo

/-- A member of the certificate set: a certificate, or an element of another
format, which is passed over. -/
inductive CertificateChoice
  | certificate (c : X509.Certificate)
  | other (e : Element)
  deriving DecidableEq, Repr

namespace CertificateChoice

def ofElement? (e : Element) : Option CertificateChoice :=
  if e.tag = 0xA3 then do
    let inner ← single? e.content
    let children ← inner.children? 0x30
    match children with
    | [format, _] => (Oid.ofElement? format).map fun _ => .other e
    | _ => none
  else (X509.Certificate.ofElement? e).map .certificate

def encode : CertificateChoice → Bytes
  | .certificate c => c.encode
  | .other e => e.encode

def certificate? : CertificateChoice → Option X509.Certificate
  | .certificate c => some c
  | .other _ => none

end CertificateChoice

/-- The parts of signed data that say who signed. -/
structure SignedData where
  certificates : List X509.Certificate
  signers : List SignerInfo
  deriving DecidableEq, Repr

namespace SignedData

def readCertificates (fields : List Element) :
    Option (List X509.Certificate × List Element) :=
  match takeContext 0 fields with
  | (none, rest) => some ([], rest)
  | (some e, rest) => do
      let children ← e.children? 0xA0
      let choices ← children.mapM CertificateChoice.ofElement?
      let set ← setOf? CertificateChoice.encode (fun _ => true) choices
      return (set.filterMap CertificateChoice.certificate?, rest)

/-- The optional set of revocation lists, which is passed over. -/
def skipRevocations (fields : List Element) : Option (List Element) :=
  match takeContext 1 fields with
  | (none, rest) => some rest
  | (some e, rest) => (e.children? 0xA1).map fun _ => rest

/-- Checks the signed content: a type, and optionally a value. -/
def isContent (e : Element) : Bool :=
  match e.children? 0x30 with
  | some [type] => (Oid.ofElement? type).isSome
  | some [type, value] =>
      (Oid.ofElement? type).isSome && (X509.Certificate.explicit? 0 value).isSome
  | _ => false

def ofElement? (e : Element) : Option SignedData := do
  let version :: algorithms :: content :: rest ← e.children? 0x30 | none
  let _ ← version? 5 version
  let algorithms ← algorithms.children? 0x31
  let algorithms ← algorithms.mapM AlgorithmId.ofElement?
  let _ ← setOf? AlgorithmId.encode AlgorithmId.isWhole algorithms
  if isContent content then
    let (certificates, rest) ← readCertificates rest
    let rest ← skipRevocations rest
    match rest with
    | [signers] =>
        let children ← signers.children? 0x31
        let signers ← children.mapM SignerInfo.ofElement?
        return ⟨certificates, ← setOf? SignerInfo.encode SignerInfo.isWhole signers⟩
    | _ => none
  else none

end SignedData

/-- Follows issuers from a certificate through a pool of candidates, each of
which is used once. The first candidate whose subject is the issuer is taken;
the path ends at a self-issued certificate or where no candidate is left. -/
def issuers {ι : Type} (c : X509.Certificate) (pool : List (ι × X509.Certificate)) :
    List (ι × X509.Certificate) :=
  if c.isSelfIssued then []
  else
    match _h : pool.find? (fun p => p.2.subject == c.issuer) with
    | none => []
    | some p => p :: issuers p.2 (pool.eraseP fun p => p.2.subject == c.issuer)
termination_by pool.length
decreasing_by
  have hp := List.find?_some _h
  have hm := List.mem_of_find?_eq_some _h
  rw [List.length_eraseP_of_mem hm hp]
  have := List.length_pos_of_mem hm
  omega

def certificatePath (certificates : List X509.Certificate) (leaf : Nat) :
    List (Nat × X509.Certificate) :=
  let indexed := certificates.zipIdx.map fun (c, i) => (i, c)
  match indexed.find? (·.1 == leaf) with
  | none => []
  | some first => first :: issuers first.2 (indexed.filter (·.1 != leaf))

inductive BlockFault
  | malformedBlock
  | otherContent (type : Oid)
  | malformedSignedData
  | signerNotFound
  | certificate
  deriving DecidableEq, Repr

def BlockFault.message : BlockFault → String
  | .malformedBlock => "malformed signature block"
  | .otherContent type =>
      "signature block has content type " ++ type.dotted ++ ", expected SignedData"
  | .malformedSignedData => "malformed SignedData"
  | .signerNotFound => "signer certificate not found in signature block"
  | .certificate => "failed to parse X.509 certificate"

def signerPath (certificates : List X509.Certificate) (s : SignerInfo) :
    Except BlockFault CodeSigner :=
  match certificates.findIdx? s.id.identifies with
  | none => .error .signerNotFound
  | some leaf =>
      match (certificatePath certificates leaf).mapM
          fun p => CpkProvenance.Certificate.ofDer? p.2.encode with
      | some path => .ok ⟨path⟩
      | none => .error .certificate

def SignedData.codeSigners (data : SignedData) : Except BlockFault (List CodeSigner) :=
  data.signers.mapM (signerPath data.certificates)

def signedDataType : Oid := ⟨[0x2A, 0x86, 0x48, 0x86, 0xF7, 0x0D, 0x01, 0x07, 0x02]⟩

def blockContent? (block : Bytes) : Option (Oid × Element) := do
  let e ← single? block
  let children ← e.children? 0x30
  match children with
  | [type, value] => return (← Oid.ofElement? type, ← X509.Certificate.explicit? 0 value)
  | _ => none

def signedData (block : Bytes) : Except BlockFault SignedData :=
  match blockContent? block with
  | none => .error .malformedBlock
  | some (type, value) =>
      if type ≠ signedDataType then .error (.otherContent type)
      else
        match SignedData.ofElement? value with
        | none => .error .malformedSignedData
        | some data => .ok data

def codeSigners (block : Bytes) : Except BlockFault (List CodeSigner) := do
  let data ← signedData block
  data.codeSigners

end CpkProvenance.Signing
