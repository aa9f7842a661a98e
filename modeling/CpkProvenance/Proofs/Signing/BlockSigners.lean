import CpkProvenance.Proofs.Signing.Leaf

/-!
# Signers of a block

A block has one signer for each description of a signer in it, in the same order, and
the signing certificate is the first one in the block that the description identifies. A
description that identifies none is a fault of the whole block. If no description leaves
a choice, the order of the certificates in the block does not matter to the signing
certificates, though it may to the rest of their paths.

Certificates are encoded again on the way. That the new encodings can be decoded is an
assumption here.
-/

namespace CpkProvenance.Signing

section Identification

/-- The certificate records the identifier of its subject's key: the first extension of that
type holds an octet string, and nothing else. -/
def HasSubjectKeyId (c : X509.Certificate) (key : Bytes) : Prop :=
  ∃ front x rest value, c.extensions = some (front ++ x :: rest) ∧
    (∀ y ∈ front, y.id ≠ X509.Certificate.subjectKeyExtension) ∧
    x.id = X509.Certificate.subjectKeyExtension ∧
    Der.single? x.value = some value ∧ Der.octetString? value = some key

/-- A description refers to a certificate by its issuer and serial number, or by the
identifier of its subject's key. -/
def SignerId.Identifies (id : SignerId) (c : X509.Certificate) : Prop :=
  match id with
  | .issuerAndSerial issuer serial => c.issuer = issuer ∧ c.serial = serial
  | .subjectKey key => HasSubjectKeyId c key

theorem subjectKeyId?_eq_some_iff {c : X509.Certificate} {key : Bytes} :
    c.subjectKeyId? = some key ↔ HasSubjectKeyId c key := by
  unfold X509.Certificate.subjectKeyId? HasSubjectKeyId
  simp only [Option.bind_eq_bind, Option.bind_eq_some_iff, List.find?_eq_some_iff_append]
  constructor
  · rintro ⟨x, ⟨hx, front, rest, hextensions, hfront⟩, value, hvalue, hkey⟩
    cases hc : c.extensions with
    | none => simp [hc] at hextensions
    | some extensions =>
        rw [hc, Option.getD_some] at hextensions
        subst hextensions
        exact ⟨front, x, rest, value, rfl, by simpa using hfront, by simpa using hx, hvalue, hkey⟩
  · rintro ⟨front, x, rest, value, hc, hfront, hx, hvalue, hkey⟩
    refine ⟨x, ⟨by simpa using hx, front, rest, ?_, by simpa using hfront⟩, value, hvalue, hkey⟩
    rw [hc, Option.getD_some]

theorem SignerId.identifies_iff {id : SignerId} {c : X509.Certificate} :
    id.identifies c = true ↔ id.Identifies c := by
  cases id with
  | issuerAndSerial issuer serial => simp [identifies, Identifies]
  | subjectKey key => simp [identifies, Identifies, subjectKeyId?_eq_some_iff]

instance (id : SignerId) (c : X509.Certificate) : Decidable (id.Identifies c) :=
  decidable_of_iff (id.identifies c = true) SignerId.identifies_iff

/-- The certificate that a description identifies, all before it being others. -/
def IsFirstIdentified (certificates : List X509.Certificate) (id : SignerId)
    (c : X509.Certificate) : Prop :=
  ∃ front rest, certificates = front ++ c :: rest ∧ id.Identifies c ∧
    ∀ b ∈ front, ¬ id.Identifies b

theorem find?_identifies_eq_some_iff {certificates : List X509.Certificate} {id : SignerId}
    {c : X509.Certificate} :
    certificates.find? id.identifies = some c ↔ IsFirstIdentified certificates id c := by
  unfold IsFirstIdentified
  simp only [List.find?_eq_some_iff_append, Bool.not_eq_true', ← SignerId.identifies_iff,
    Bool.not_eq_true]
  grind

/-- A description identifies exactly one certificate if picking out all that it identifies
leaves one. -/
theorem existsUnique_of_filter_identifies {certificates : List X509.Certificate} {id : SignerId}
    {c : X509.Certificate} (h : certificates.filter id.identifies = [c]) :
    ∃! c, c ∈ certificates ∧ id.Identifies c := by
  have hmem (b : X509.Certificate) : b ∈ certificates ∧ id.Identifies b ↔ b = c := by
    rw [← SignerId.identifies_iff, ← List.mem_filter, h, List.mem_singleton]
  exact ⟨c, (hmem c).mpr rfl, fun b hb => (hmem b).mp hb⟩

end Identification

section Paths

theorem mem_of_mem_issuers {ι : Type} {c : X509.Certificate} {pool : List (ι × X509.Certificate)}
    {p : ι × X509.Certificate} (h : p ∈ issuers c pool) : p ∈ pool := by
  fun_induction issuers c pool with
  | case1 => cases h
  | case2 => cases h
  | case3 c pool hself first hfirst ih =>
      obtain rfl | hp := List.mem_cons.mp h
      · exact List.mem_of_find?_eq_some hfirst
      · exact List.mem_of_mem_eraseP (ih hp)

/-- A path is made of certificates of the block. -/
theorem mem_of_mem_certificatePath {certificates : List X509.Certificate} {leaf : Nat}
    {p : Nat × X509.Certificate} (h : p ∈ certificatePath certificates leaf) :
    p.2 ∈ certificates := by
  have hindexed (q : Nat × X509.Certificate)
      (hq : q ∈ certificates.zipIdx.map fun r => (r.2, r.1)) : q.2 ∈ certificates := by
    obtain ⟨r, hr, rfl⟩ := List.mem_map.mp hq
    exact List.fst_mem_of_mem_zipIdx hr
  unfold certificatePath at h
  dsimp only at h
  split at h
  · cases h
  · next first hfirst =>
      obtain rfl | hp := List.mem_cons.mp h
      · exact hindexed p (List.mem_of_find?_eq_some hfirst)
      · exact hindexed p (List.mem_of_mem_filter (mem_of_mem_issuers hp))

end Paths

section Signers

/-- The encodings that are made of the certificates of a block can be decoded. -/
def Redecodes (certificates : List X509.Certificate) : Prop :=
  ∀ c ∈ certificates, (X509.Certificate.decode? c.encode).isSome = true

/-- The path of a signer starts with the first certificate that its description identifies. -/
def StartsAtFirst (certificates : List X509.Certificate) (s : SignerInfo) (signer : CodeSigner) :
    Prop :=
  ∃ c leaf, IsFirstIdentified certificates s.id c ∧ signer.path.head? = some leaf ∧
    leaf.encoded = c.encode

variable {certificates : List X509.Certificate} {s : SignerInfo}

theorem exists_ofDer? {bytes : Bytes} (h : (X509.Certificate.decode? bytes).isSome = true) :
    ∃ c, CpkProvenance.Certificate.ofDer? bytes = some c := by
  unfold CpkProvenance.Certificate.ofDer?
  split
  · exact ⟨_, rfl⟩
  · next hnone =>
      rw [hnone] at h
      cases h

theorem signerPath_of_not_identified (h : ∀ c ∈ certificates, ¬ s.id.Identifies c) :
    signerPath certificates s = .error .signerNotFound := by
  have hnone : certificates.findIdx? s.id.identifies = none := by
    rw [List.findIdx?_eq_none_iff]
    intro c hc
    rw [← Bool.not_eq_true, SignerId.identifies_iff]
    exact h c hc
  rw [signerPath, hnone]

theorem exists_signerPath (redecodes : Redecodes certificates)
    (h : ∃ c ∈ certificates, s.id.Identifies c) :
    ∃ signer, signerPath certificates s = .ok signer := by
  have hsome : (certificates.findIdx? s.id.identifies).isSome := by
    rw [List.findIdx?_isSome, List.any_eq_true]
    simpa only [SignerId.identifies_iff] using h
  obtain ⟨leaf, hleaf⟩ := Option.isSome_iff_exists.mp hsome
  have hpath : ∃ path, (certificatePath certificates leaf).mapM
      (fun p => CpkProvenance.Certificate.ofDer? p.2.encode) = some path :=
    exists_mapM_eq_some fun p hp =>
      exists_ofDer? (redecodes p.2 (mem_of_mem_certificatePath hp))
  obtain ⟨path, hpath⟩ := hpath
  exact ⟨⟨path⟩, by simp only [signerPath, hleaf, hpath]⟩

theorem startsAtFirst_of_signerPath {signer : CodeSigner}
    (h : signerPath certificates s = .ok signer) : StartsAtFirst certificates s signer := by
  obtain ⟨leaf, hhead, c, hc, hencoded⟩ := isLeafOf_of_signerPath h
  exact ⟨c, leaf, find?_identifies_eq_some_iff.mp hc, hhead, hencoded⟩

theorem signerPath_eq_error (redecodes : Redecodes certificates) {fault : BlockFault}
    (h : signerPath certificates s = .error fault) :
    fault = .signerNotFound ∧ ∀ c ∈ certificates, ¬ s.id.Identifies c := by
  have hnone : ∀ c ∈ certificates, ¬ s.id.Identifies c := by
    intro c hc hid
    obtain ⟨signer, hsigner⟩ := exists_signerPath redecodes ⟨c, hc, hid⟩
    rw [hsigner] at h
    cases h
  rw [signerPath_of_not_identified hnone] at h
  exact ⟨(Except.error.inj h).symm, hnone⟩

variable {data : SignedData}

theorem SignedData.exists_codeSigners (redecodes : Redecodes data.certificates)
    (h : ∀ s ∈ data.signers, ∃ c ∈ data.certificates, s.id.Identifies c) :
    ∃ signers, data.codeSigners = .ok signers ∧
      List.Forall₂ (StartsAtFirst data.certificates) data.signers signers := by
  have hok : ∃ signers, data.signers.mapM (signerPath data.certificates) = .ok signers :=
    exists_mapM_eq_ok fun s hs => exists_signerPath redecodes (h s hs)
  obtain ⟨signers, hsigners⟩ := hok
  refine ⟨signers, hsigners, ?_⟩
  exact (mapM_eq_ok_iff.mp hsigners).imp fun _ _ => startsAtFirst_of_signerPath

theorem SignedData.codeSigners_eq_error_iff (redecodes : Redecodes data.certificates)
    {fault : BlockFault} :
    data.codeSigners = .error fault ↔ fault = .signerNotFound ∧
      ∃ s ∈ data.signers, ∀ c ∈ data.certificates, ¬ s.id.Identifies c := by
  constructor
  · intro h
    obtain ⟨s, hs, hfailed⟩ := exists_mem_of_mapM_eq_error h
    obtain ⟨rfl, hnone⟩ := signerPath_eq_error redecodes hfailed
    exact ⟨rfl, s, hs, hnone⟩
  · rintro ⟨rfl, s, hs, hnone⟩
    cases hresult : data.codeSigners with
    | error found =>
        obtain ⟨_, _, hfailed⟩ := exists_mem_of_mapM_eq_error hresult
        rw [(signerPath_eq_error redecodes hfailed).1]
    | ok signers =>
        obtain ⟨signer, _, hsigner⟩ := exists_of_forall₂_left (mapM_eq_ok_iff.mp hresult) hs
        rw [signerPath_of_not_identified hnone] at hsigner
        cases hsigner

/-- The signing certificates of a block, in the order of the descriptions. -/
def SignedData.leaves (data : SignedData) :
    Except BlockFault (List (Option CpkProvenance.Certificate)) :=
  data.codeSigners.map (List.map CodeSigner.certificate?)

/-- A description that leaves no choice has the same signing certificate in every block with
the same certificates. -/
theorem StartsAtFirst.certificate?_eq {others : List X509.Certificate} {x y : CodeSigner}
    (hx : StartsAtFirst certificates s x) (hy : StartsAtFirst others s y)
    (hsame : others.Perm certificates)
    (hunique : ∃! c, c ∈ certificates ∧ s.id.Identifies c) :
    x.certificate? = y.certificate? := by
  obtain ⟨c, leaf, ⟨front, rest, rfl, hc, _⟩, hleaf, hencoded⟩ := hx
  obtain ⟨c', leaf', ⟨front', rest', rfl, hc', _⟩, hleaf', hencoded'⟩ := hy
  have hmem : c' ∈ front ++ c :: rest := hsame.mem_iff.mp (by simp)
  have hcert : c = c' := hunique.unique ⟨by simp, hc⟩ ⟨hmem, hc'⟩
  have hleaves : leaf = leaf' := by
    apply CpkProvenance.Certificate.ext
    rw [hencoded, hencoded', hcert]
  rw [CodeSigner.certificate?, CodeSigner.certificate?, hleaf, hleaf', hleaves]

theorem SignedData.leaves_of_perm (redecodes : Redecodes data.certificates)
    (hunique : ∀ s ∈ data.signers, ∃! c, c ∈ data.certificates ∧ s.id.Identifies c)
    {others : List X509.Certificate} (hsame : others.Perm data.certificates) :
    SignedData.leaves ⟨others, data.signers⟩ = data.leaves := by
  have hidentified : ∀ s ∈ data.signers, ∃ c ∈ data.certificates, s.id.Identifies c :=
    fun s hs => (hunique s hs).exists
  have hidentified' : ∀ s ∈ data.signers, ∃ c ∈ others, s.id.Identifies c := by
    intro s hs
    obtain ⟨c, hc, hid⟩ := hidentified s hs
    exact ⟨c, hsame.mem_iff.mpr hc, hid⟩
  have redecodes' : Redecodes others := fun c hc => redecodes c (hsame.mem_iff.mp hc)
  obtain ⟨xs, hxs, hstarts⟩ := SignedData.exists_codeSigners redecodes hidentified
  have hothers : ∃ ys, SignedData.codeSigners ⟨others, data.signers⟩ = .ok ys ∧
      List.Forall₂ (StartsAtFirst others) data.signers ys :=
    SignedData.exists_codeSigners redecodes' hidentified'
  obtain ⟨ys, hys, hstarts'⟩ := hothers
  have hleaves : ys.map CodeSigner.certificate? = xs.map CodeSigner.certificate? := by
    refine map_eq_map_of_forall₂ hstarts' hstarts fun s hs y x hy hx => ?_
    exact (hx.certificate?_eq hy hsame (hunique s hs)).symm
  rw [SignedData.leaves, SignedData.leaves, hxs, hys, ok_map, ok_map, hleaves]

end Signers

/-- **The signers of a block.** If the certificates of the block can be encoded again, then
the block is refused exactly if some description identifies none of them. Otherwise it has
one signer for each description, in order, and the path of that signer starts with the first
certificate that the description identifies. If there is only one such certificate for each
description, the order of the certificates does not matter to the signing certificates. -/
theorem SignedData.codeSigners_outcome (data : SignedData)
    (redecodes : Redecodes data.certificates) :
    (∀ block, signedData block = .ok data → Signing.codeSigners block = data.codeSigners) ∧
      (data.codeSigners = .error .signerNotFound ↔
        ∃ s ∈ data.signers, ∀ c ∈ data.certificates, ¬ s.id.Identifies c) ∧
      BlockFault.message .signerNotFound = "signer certificate not found in signature block" ∧
      ((∀ s ∈ data.signers, ∃ c ∈ data.certificates, s.id.Identifies c) →
        ∃ signers, data.codeSigners = .ok signers ∧
          List.Forall₂ (StartsAtFirst data.certificates) data.signers signers) ∧
      ((∀ s ∈ data.signers, ∃! c, c ∈ data.certificates ∧ s.id.Identifies c) →
        ∀ others, others.Perm data.certificates →
          SignedData.leaves ⟨others, data.signers⟩ = data.leaves) := by
  refine ⟨?_, ?_, rfl, SignedData.exists_codeSigners redecodes, ?_⟩
  · intro block hblock
    rw [Signing.codeSigners, hblock, ok_bind]
  · rw [SignedData.codeSigners_eq_error_iff redecodes, and_iff_right rfl]
  · intro hunique others hsame
    exact SignedData.leaves_of_perm redecodes hunique hsame

section Sample

def sampleAlgorithm : X509.AlgorithmId := ⟨⟨[0x2A, 3, 4]⟩, none⟩

/-- A name with one attribute. -/
def sampleName (letter : UInt8) : X509.Name := [[⟨⟨[0x55, 4, 3]⟩, ⟨0x0C, [letter]⟩⟩]]

def sampleTime : Der.Element :=
  ⟨0x17, [0x37, 0x30, 0x30, 0x31, 0x30, 0x31, 0x30, 0x30, 0x30, 0x30, 0x30, 0x30, 0x5A]⟩

/-- A certificate that an authority issued, with the given extension for the key. -/
def issuedCertificate (serial : UInt8) (keyExtension : Bytes) : X509.Certificate where
  version := 2
  serial := [serial]
  innerAlgorithm := sampleAlgorithm
  issuer := sampleName 65
  notBefore := sampleTime
  notAfter := sampleTime
  subject := sampleName serial
  publicKey := ⟨sampleAlgorithm, [0, serial]⟩
  issuerId := none
  subjectId := none
  extensions := some [⟨X509.Certificate.subjectKeyExtension, false, keyExtension⟩]
  outerAlgorithm := sampleAlgorithm
  signature := [0]

def sampleSigner (id : SignerId) : SignerInfo :=
  ⟨1, id, sampleAlgorithm, none, sampleAlgorithm, [], none⟩

/-- Two certificates of the same issuer, and a third whose identifier is no octet string. -/
def sampleData : SignedData :=
  ⟨[issuedCertificate 66 [4, 1, 7], issuedCertificate 67 [4, 1, 8], issuedCertificate 68 [5, 1, 7]],
    [sampleSigner (.issuerAndSerial (sampleName 65) [68]), sampleSigner (.subjectKey [7])]⟩

instance (certificates : List X509.Certificate) : Decidable (Redecodes certificates) :=
  inferInstanceAs (Decidable (∀ c ∈ certificates, (X509.Certificate.decode? c.encode).isSome = true))

/-- Both ways to refer to a certificate lead to one certificate each, whatever the order, and a
block that lacks the second certificate referred to is refused. -/
theorem codeSigners_outcome_sampleData :
    (∃ signers, sampleData.codeSigners = .ok signers ∧
      List.Forall₂ (StartsAtFirst sampleData.certificates) sampleData.signers signers) ∧
    SignedData.leaves ⟨sampleData.certificates.reverse, sampleData.signers⟩ = sampleData.leaves ∧
    SignedData.codeSigners ⟨sampleData.certificates.tail, sampleData.signers⟩ =
      .error .signerNotFound := by
  have redecodes : Redecodes sampleData.certificates := by decide +kernel
  have redecodes' : Redecodes sampleData.certificates.tail :=
    fun c hc => redecodes c (List.mem_of_mem_tail hc)
  have hunique : ∀ s ∈ sampleData.signers,
      ∃! c, c ∈ sampleData.certificates ∧ s.id.Identifies c := by
    refine List.forall_mem_cons.mpr ⟨?_, List.forall_mem_singleton.mpr ?_⟩
    · exact existsUnique_of_filter_identifies (c := issuedCertificate 68 [5, 1, 7]) (by decide +kernel)
    · exact existsUnique_of_filter_identifies (c := issuedCertificate 66 [4, 1, 7]) (by decide +kernel)
  obtain ⟨_, _, _, hok, hperm⟩ := SignedData.codeSigners_outcome sampleData redecodes
  obtain ⟨_, hnotFound, _⟩ := SignedData.codeSigners_outcome
    ⟨sampleData.certificates.tail, sampleData.signers⟩ redecodes'
  refine ⟨hok fun s hs => (hunique s hs).exists, hperm hunique _ (List.reverse_perm _), ?_⟩
  exact hnotFound.mpr (by decide +kernel)

end Sample

end CpkProvenance.Signing
