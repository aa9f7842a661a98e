import CpkProvenance.Proofs.Archive.SignerSoundness

/-!
# Signers without coverage

An entry is signed if the manifest records digests of it, it has them, and a
signature file covers it. The manifest alone is signed by every signature file
without being covered. The manifest is the first member of its name in any case,
but every later member of such a name is also given the signers of all signature
files, whatever it holds. For all other entries the rule is kept.
-/

namespace CpkProvenance.Jar

open Zip (Member)

/-- The signers of an entry are those of signature files that cover it, and the
entry has been checked against its section of the manifest. -/
structure IsCovered (jar : Jar) (m : Member) (signers : List CodeSigner) : Prop where
  isFile : m.isDirectory = false
  verified : ∃ target, IsVerified jar.manifest m target
  /-- The covering signature file is one of the archive, with its block. -/
  covered : ∀ s ∈ signers, ∃ f ∈ jar.signatureFiles, m.name ∈ f.covered ∧ s ∈ f.signers ∧
    ∃ file block content, IsSigned jar.members file block content f.signers ∧
      coveredNames f.path content jar.manifest = .ok f.covered

/-- An intact entry of another name than that of the manifest is covered if it has signers. -/
theorem isCovered_of_signersOf {archive : String} {members : List Member} {jar : Jar}
    (opened : (ofMembers archive members).result = .ok jar) {m : Member} (hintact : jar.IsIntact m)
    (hname : ¬ Text.equalIgnoringCase m.name manifestPath = true) (hsigned : jar.signersOf m ≠ []) :
    IsCovered jar m (jar.signersOf m) := by
  obtain ⟨manifest, files, _, hfiles, rfl⟩ := ofMembers_eq_ok_iff.mp opened
  obtain ⟨s, hs⟩ := List.exists_mem_of_ne_nil _ hsigned
  have hfile := ((mem_signersOf_iff hname).mp hs).2.1
  refine ⟨hfile, isVerified_of_mem_signersOf hintact hname hs, ?_⟩
  intro t ht
  obtain ⟨_, _, f, hf, hcovers, hft⟩ := (mem_signersOf_iff hname).mp ht
  exact ⟨f, hf, hcovers, hft, isSigned_of_mem hfiles hf⟩

/-- An entry other than the manifest that is read with signers is covered, unless it shadows
the manifest. An entry that does is read with the signers of all signature files. -/
theorem signers_of_readEntry {archive : String} {file : Bytes} {jar : Jar} {buffer : Nat}
    {m : Member} {e : Archive.Entry} (opened : (ofBytes archive file).result = .ok jar)
    (hbuffer : buffer ≠ 0) (other : named? jar.members manifestPath ≠ some m)
    (read : jar.readEntry buffer m = .ok e) (signed : e.signers ≠ []) :
    (¬ Shadows jar.members m → IsCovered jar m e.signers) ∧
      (Shadows jar.members m → e.signers = jar.signatureFiles.flatMap (·.signers)) := by
  obtain ⟨members, _, hopen⟩ := ofBytes_eq_ok_iff.mp opened
  obtain ⟨hintact, rfl⟩ := (readEntry_eq_ok_iff hbuffer).mp read
  rw [signers_entryOf] at signed ⊢
  constructor
  · intro hshadows
    have hname := not_equalIgnoringCase_of_not_shadows other hshadows
    exact isCovered_of_signersOf hopen hintact hname signed
  · intro hshadows
    exact signersOf_of_manifestPath hshadows.1

section Sample

/-- A file that is signed. -/
def coveredMember : Member := ⟨"e", .ok (Utf8.encode "x".toList), none⟩

/-- A file of which neither the manifest nor a signature file knows. -/
def shadowMember : Member := ⟨"meta-inf/manifest.mf", .ok [], none⟩

def shadowedContents : List (String × Bytes) :=
  [("META-INF/MANIFEST.MF", sampleManifest),
    ("META-INF/A.SF", Utf8.encode
      "SHA1-Digest-Manifest: fNonZflD8yGlwsfBJ4DMm452cYc=\n\nName: e\n".toList),
    ("META-INF/A.EC", sampleBlock 1), ("e", Utf8.encode "x".toList), ("meta-inf/manifest.mf", [])]

def shadowedMembers : List Member :=
  shadowedContents.map fun (name, content) => ⟨name, .ok content, none⟩

set_option maxRecDepth 100000 in
theorem members_stored_shadowedContents :
    Zip.members (stored shadowedContents) = .ok shadowedMembers := by
  decide +kernel

/-- Both files are read with a signer, though the manifest has a section of one only. -/
theorem signers_of_shadowedMembers :
    ∃ jar ∈ (ofMembers "shadowed.jar" shadowedMembers).result.toOption,
      jar.manifest.section? shadowMember.name = none ∧
      (∃ e ∈ (jar.readEntry bufferSize coveredMember).toOption, e.signers.length = 1) ∧
      ∃ e ∈ (jar.readEntry bufferSize shadowMember).toOption, e.signers.length = 1 := by
  decide +kernel

theorem isCovered_of_coveredMember :
    ∃ jar e, (ofBytes "shadowed.jar" (stored shadowedContents)).result = .ok jar ∧
      named? jar.members manifestPath ≠ some coveredMember ∧
      jar.readEntry bufferSize coveredMember = .ok e ∧ e.signers ≠ [] ∧
      IsCovered jar coveredMember e.signers := by
  obtain ⟨jar, hjar, _, ⟨e, he, hlength⟩, _⟩ := signers_of_shadowedMembers
  have hopen := toOption_eq_some_iff.mp hjar
  have opened := ofBytes_eq_ok_iff.mpr ⟨_, members_stored_shadowedContents, hopen⟩
  have hmembers := members_of_ofMembers hopen
  have read := toOption_eq_some_iff.mp he
  have signed : e.signers ≠ [] := List.ne_nil_of_length_pos (by omega)
  have other : named? jar.members manifestPath ≠ some coveredMember := by
    rw [hmembers]
    decide +kernel
  have hshadows : ¬ Shadows jar.members coveredMember :=
    fun h => absurd h.1 (by decide +kernel)
  exact ⟨jar, e, opened, other, read, signed,
    (signers_of_readEntry opened (by decide) other read signed).1 hshadows⟩

/-- **An entry other than the manifest may have signers that do not cover it**: it is enough
that its name differs from that of the manifest in case only. -/
theorem exists_signed_not_isCovered :
    ∃ jar e, (ofBytes "shadowed.jar" (stored shadowedContents)).result = .ok jar ∧
      (jar.members.map (·.name)).Nodup ∧ shadowMember ∈ jar.members ∧
      named? jar.members manifestPath ≠ some shadowMember ∧
      jar.readEntry bufferSize shadowMember = .ok e ∧ e.signers ≠ [] ∧
      ¬ IsCovered jar shadowMember e.signers := by
  obtain ⟨jar, hjar, hsection, _, ⟨e, he, hlength⟩⟩ := signers_of_shadowedMembers
  have hopen := toOption_eq_some_iff.mp hjar
  have opened := ofBytes_eq_ok_iff.mpr ⟨_, members_stored_shadowedContents, hopen⟩
  refine ⟨jar, e, opened, ?_, ?_, ?_, toOption_eq_some_iff.mp he,
    List.ne_nil_of_length_pos (by omega), ?_⟩
  · rw [members_of_ofMembers hopen]
    decide +kernel
  · rw [members_of_ofMembers hopen]
    decide +kernel
  · rw [members_of_ofMembers hopen]
    decide +kernel
  · intro h
    obtain ⟨target, htarget⟩ := h.verified
    rw [Manifest.section?_eq_some_iff.mpr htarget.first] at hsection
    cases hsection

end Sample

end CpkProvenance.Jar
