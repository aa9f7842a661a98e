import CpkProvenance.Proofs.Traced
import CpkProvenance.Signing.Block

/-!
# Leaf certificates of a block

Every signer of a signature block comes from one description of a signer in it,
and every description gives a signer. The signing certificate is the first of the
certificates in the block that the description identifies, encoded again.
-/

namespace CpkProvenance

theorem Certificate.encoded_of_ofDer? {bytes : Bytes} {c : Certificate}
    (h : Certificate.ofDer? bytes = some c) : c.encoded = bytes := by
  unfold Certificate.ofDer? at h
  split at h
  · obtain rfl := Option.some.inj h
    rfl
  · cases h

namespace Signing

/-- The signing certificate of a description among the certificates of its
block. -/
def IsLeafOf (certificates : List X509.Certificate) (s : SignerInfo) (leaf : Certificate) :
    Prop :=
  ∃ c, certificates.find? s.id.identifies = some c ∧ leaf.encoded = c.encode

theorem certificatePath_eq_cons {certificates : List X509.Certificate} {leaf : Nat}
    (h : leaf < certificates.length) :
    ∃ rest, certificatePath certificates leaf = (leaf, certificates[leaf]) :: rest := by
  have hfind (f : X509.Certificate × Nat → Nat × X509.Certificate) (hf : ∀ p, f p = (p.2, p.1)) :
      (certificates.zipIdx.map f).find? (·.1 == leaf) = some (leaf, certificates[leaf]) := by
    rw [List.find?_eq_some_iff_getElem]
    refine ⟨beq_self_eq_true leaf, leaf, by simpa using h, by simp [hf], ?_⟩
    intro j hj
    simp only [List.getElem_map, List.getElem_zipIdx, hf, Nat.zero_add, Bool.not_eq_true',
      beq_eq_false_iff_ne]
    omega
  unfold certificatePath
  dsimp only
  rw [hfind]
  · exact ⟨_, rfl⟩
  · exact fun _ => rfl

theorem isLeafOf_of_signerPath {certificates : List X509.Certificate} {s : SignerInfo}
    {signer : CodeSigner} (h : signerPath certificates s = .ok signer) :
    ∃ leaf, signer.certificate? = some leaf ∧ IsLeafOf certificates s leaf := by
  unfold signerPath at h
  split at h
  · cases h
  · next leaf hleaf =>
      obtain ⟨hlt, hid, hbefore⟩ := List.findIdx?_eq_some_iff_getElem.mp hleaf
      obtain ⟨rest, hpath⟩ := certificatePath_eq_cons hlt
      rw [hpath, List.mapM_cons] at h
      split at h
      · next path hp =>
          obtain rfl : ⟨path⟩ = signer := Except.ok.inj h
          obtain ⟨first, hfirst, hp⟩ := Option.bind_eq_some_iff.mp hp
          obtain ⟨others, _, hp⟩ := Option.bind_eq_some_iff.mp hp
          obtain rfl : first :: others = path := Option.some.inj hp
          refine ⟨first, rfl, certificates[leaf], ?_, Certificate.encoded_of_ofDer? hfirst⟩
          rw [List.find?_eq_some_iff_getElem]
          refine ⟨hid, leaf, hlt, rfl, ?_⟩
          intro j hj
          simpa using hbefore j hj
      · cases h

/-- The signers of a block and the descriptions in it, paired in order. -/
theorem codeSigners_eq_ok {block : Bytes} {signers : List CodeSigner}
    (h : codeSigners block = .ok signers) :
    ∃ data, signedData block = .ok data ∧
      List.Forall₂ (fun s signer => signerPath data.certificates s = .ok signer)
        data.signers signers := by
  obtain ⟨data, hdata, h⟩ := bind_eq_ok_iff.mp h
  exact ⟨data, hdata, mapM_eq_ok_iff.mp h⟩

/-- Every signer of a block has a signing certificate, and one of the
descriptions in the block identifies it. -/
theorem isLeafOf_of_mem_codeSigners {block : Bytes} {signers : List CodeSigner}
    (h : codeSigners block = .ok signers) :
    ∃ data, signedData block = .ok data ∧ ∀ signer ∈ signers, ∃ s ∈ data.signers,
      ∃ leaf, signer.certificate? = some leaf ∧ IsLeafOf data.certificates s leaf := by
  obtain ⟨data, hdata, hpairs⟩ := codeSigners_eq_ok h
  refine ⟨data, hdata, fun signer hsigner => ?_⟩
  obtain ⟨s, hs, hpath⟩ := exists_of_forall₂_right hpairs hsigner
  exact ⟨s, hs, isLeafOf_of_signerPath hpath⟩

end Signing

end CpkProvenance
