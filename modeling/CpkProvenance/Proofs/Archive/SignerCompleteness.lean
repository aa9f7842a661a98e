import CpkProvenance.Proofs.Archive.SignerSoundness

/-!
# Completeness of recorded signers

An archive whose files, manifest and signature files agree with each other is
accepted, and its only signer set is that of all signature files. The signature
files may differ in how they agree with the manifest.

Names need not be distinct or in upper case: a file that is shadowed by another
is one more file that must agree.
-/

namespace CpkProvenance.Jar

open Zip (Member)
open Document (Dependency Graph publicKeyHashes)

/-- The names of the files that must be signed, the manifest apart. -/
def requiredNames (members : List Member) : List String :=
  (members.filter fun m => Archive.isSignable m.name m.isDirectory &&
    !Text.equalIgnoringCase m.name manifestPath).map (·.name)

theorem name_mem_requiredNames {members : List Member} {m : Member} (hm : m ∈ members)
    (hsignable : Archive.isSignable m.name m.isDirectory = true)
    (hother : ¬ Text.equalIgnoringCase m.name manifestPath = true) :
    m.name ∈ requiredNames members := by
  refine List.mem_map_of_mem (List.mem_filter.mpr ⟨hm, ?_⟩)
  simp [hsignable, hother]

/-- A signature file names the files that must be signed, and agrees with the
manifest. -/
structure Covers (members : List Member) (signatureFile manifest : Manifest) : Prop where
  named : ∀ name ∈ requiredNames members, ∃ s ∈ signatureFile.sections, s.name = name
  agrees : Agrees (requiredNames members) signatureFile manifest

instance (members : List Member) (signatureFile manifest : Manifest) :
    Decidable (Covers members signatureFile manifest) :=
  decidable_of_iff (_ ∧ _) ⟨fun h => ⟨h.1, h.2⟩, fun h => ⟨h.named, h.agrees⟩⟩

/-- The members of an archive that is signed as a whole. -/
structure IsConsistentlySigned (members : List Member) (manifest : Manifest) : Prop where
  isManifest : IsManifestOf members manifest
  /-- Every file can be read, and has the digests that its section records. -/
  intact : ∀ m ∈ members, ∃ bytes, m.content = .ok bytes ∧
    ∀ target, IsFirst (·.name = m.name) manifest.sections target →
      ∀ d, target.Records d → d.IsDigestOf bytes
  /-- The manifest has digests of the files that must be signed. -/
  recorded : ∀ name ∈ requiredNames members,
    ∃ target, IsFirst (·.name = name) manifest.sections target ∧ ∃ d, target.Records d
  /-- Every signature file with a block can be read, and covers the archive. -/
  signed : ∀ f ∈ members, ∀ base block, IsSignatureName f.name base →
    block? members base = some block → ∃ content signers,
      IsSigned members f block content signers ∧ Covers members content manifest

/-- The certificate is that of a signer of a signature file. -/
def IsSignerOf (members : List Member) (c : Certificate) : Prop :=
  ∃ f block content signers, IsSigned members f block content signers ∧
    ∃ s ∈ signers, s.certificate? = some c

/-- What a file says and who signed a block is settled by their contents. -/
theorem IsSigned.unique {members : List Member} {f block : Member} {a b : Manifest}
    {as bs : List CodeSigner} (ha : IsSigned members f block a as)
    (hb : IsSigned members f block b bs) : a = b ∧ as = bs := by
  obtain ⟨bytes, hbytes, hparse⟩ := ha.parsed
  obtain ⟨bytes', hbytes', hparse'⟩ := hb.parsed
  obtain rfl : bytes = bytes' := Except.ok.inj (hbytes.symm.trans hbytes')
  obtain ⟨raw, hraw, hcode⟩ := ha.decoded
  obtain ⟨raw', hraw', hcode'⟩ := hb.decoded
  obtain rfl : raw = raw' := Except.ok.inj (hraw.symm.trans hraw')
  exact ⟨Except.ok.inj (hparse.symm.trans hparse'), Except.ok.inj (hcode.symm.trans hcode')⟩

theorem IsConsistentlySigned.covers {members : List Member} {manifest : Manifest}
    (h : IsConsistentlySigned members manifest) {f block : Member} {content : Manifest}
    {signers : List CodeSigner} (hsigned : IsSigned members f block content signers) :
    Covers members content manifest := by
  obtain ⟨base, hbase, hblock⟩ := hsigned.named
  obtain ⟨content', signers', hsigned', hcovers⟩ :=
    h.signed f hsigned.file_mem base block hbase hblock
  rw [(hsigned.unique hsigned').1]
  exact hcovers

theorem Covers.exists_coveredNames {members : List Member} {manifest content : Manifest}
    (h : Covers members content manifest)
    (hrecorded : ∀ name ∈ requiredNames members,
      ∃ target, IsFirst (·.name = name) manifest.sections target ∧ ∃ d, target.Records d)
    (path : String) :
    ∃ names, coveredNames path content manifest = .ok names ∧
      ∀ name ∈ requiredNames members, name ∈ names := by
  obtain ⟨names, hnames, hall⟩ := h.agrees.exists_coveredNames path
  refine ⟨names, hnames, fun name hname => ?_⟩
  obtain ⟨s, hs, rfl⟩ := h.named name hname
  obtain ⟨target, htarget, _⟩ := hrecorded s.name hname
  refine hall s hs hname ?_
  rw [Manifest.section?_eq_some_iff.mpr htarget]
  rfl

/-- A consistently signed archive is opened. -/
theorem IsConsistentlySigned.exists_ofMembers {members : List Member} {manifest : Manifest}
    (h : IsConsistentlySigned members manifest) (archive : String) :
    ∃ files, (ofMembers archive members).result = .ok ⟨archive, members, manifest, files⟩ ∧
      (readSignatureFiles archive members manifest (members.map (·.name))).result = .ok files := by
  obtain ⟨m, _, hm, _⟩ := h.isManifest
  have hread : readManifest archive members = .ok manifest :=
    (readManifest_of_some hm).mpr h.isManifest
  have hfiles : ∃ files,
      (readSignatureFiles archive members manifest (members.map (·.name))).result = .ok files := by
    refine exists_readSignatureFiles fun f hf base block hbase hblock => ?_
    obtain ⟨content, signers, hsigned, hcovers⟩ := h.signed f hf base block hbase hblock
    refine ⟨content, signers, hsigned, fun path => ?_⟩
    obtain ⟨names, hnames, _⟩ := hcovers.exists_coveredNames h.recorded path
    exact ⟨names, hnames⟩
  obtain ⟨files, hfiles⟩ := hfiles
  exact ⟨files, ofMembers_eq_ok_iff.mpr ⟨manifest, files, hread, hfiles, rfl⟩, hfiles⟩

section Opened

variable {archive : String} {members : List Member} {manifest : Manifest}
  {files : List SignatureFile}

theorem IsConsistentlySigned.name_mem_covered (h : IsConsistentlySigned members manifest)
    (hfiles : (readSignatureFiles archive members manifest (members.map (·.name))).result =
      .ok files) {f : SignatureFile} (hf : f ∈ files) {name : String}
    (hname : name ∈ requiredNames members) : name ∈ f.covered := by
  obtain ⟨file, block, content, hsigned, hcovered⟩ := isSigned_of_mem hfiles hf
  obtain ⟨names, hnames, hall⟩ := (h.covers hsigned).exists_coveredNames h.recorded f.path
  obtain rfl : f.covered = names := Except.ok.inj (hcovered.symm.trans hnames)
  exact hall name hname

/-- Every file that must be signed has the signers of all signature files. -/
theorem IsConsistentlySigned.mem_signersOf_iff (h : IsConsistentlySigned members manifest)
    (hfiles : (readSignatureFiles archive members manifest (members.map (·.name))).result =
      .ok files) {m : Member} (hm : m ∈ members)
    (hsignable : Archive.isSignable m.name m.isDirectory = true) (s : CodeSigner) :
    s ∈ signersOf ⟨archive, members, manifest, files⟩ m ↔ s ∈ files.flatMap (·.signers) := by
  by_cases hmanifest : Text.equalIgnoringCase m.name manifestPath = true
  · rw [signersOf_of_manifestPath hmanifest]
  · have hname := name_mem_requiredNames hm hsignable hmanifest
    obtain ⟨target, htarget, hdigests⟩ := h.recorded m.name hname
    have hrecorded : recordedDigests ⟨archive, members, manifest, files⟩ m.name ≠ [] := by
      rw [recordedDigests, Manifest.section?_eq_some_iff.mpr htarget]
      exact Manifest.Section.digests_ne_nil_iff.mpr hdigests
    have hdirectory : m.isDirectory = false := by
      simp only [Archive.isSignable, Bool.and_eq_true] at hsignable
      simpa using hsignable.1
    rw [Jar.mem_signersOf_iff hmanifest, List.mem_flatMap]
    constructor
    · rintro ⟨_, _, f, hf, _, hs⟩
      exact ⟨f, hf, hs⟩
    · rintro ⟨f, hf, hs⟩
      exact ⟨hrecorded, hdirectory, f, hf, h.name_mem_covered hfiles hf hname, hs⟩

theorem IsConsistentlySigned.isUnanimous (h : IsConsistentlySigned members manifest)
    (hfiles : (readSignatureFiles archive members manifest (members.map (·.name))).result =
      .ok files) :
    IsUnanimous ⟨archive, members, manifest, files⟩
      (SignerSet.ofSigners (files.flatMap (·.signers))) := by
  refine ⟨fun m hm => ?_, fun m hm hsignable => ?_, ?_⟩
  · obtain ⟨bytes, hbytes, hdigests⟩ := h.intact m hm
    refine ⟨bytes, hbytes, fun d hd => ?_⟩
    obtain ⟨target, htarget, hrecorded⟩ := section?_of_recordedDigests (List.ne_nil_of_mem hd)
    rw [hrecorded] at hd
    exact hdigests target (Manifest.section?_eq_some_iff.mp htarget) d
      (Manifest.Attributes.mem_digests_iff.mp hd)
  · exact SignerSet.ofSigners_eq_of_mem_iff (h.mem_signersOf_iff hfiles hm hsignable)
  · obtain ⟨m, _, hm, _⟩ := h.isManifest
    obtain ⟨hmem, hname⟩ := named?_eq_some hm
    exact ⟨m, hmem, isSignable_of_manifestPath hname⟩

/-- The signers of all signature files that were read are those of the archive. -/
theorem mem_ofSigners_iff_isSignerOf
    (hfiles : (readSignatureFiles archive members manifest (members.map (·.name))).result =
      .ok files) {c : Certificate} :
    c ∈ SignerSet.ofSigners (files.flatMap (·.signers)) ↔ IsSignerOf members c := by
  simp only [SignerSet.mem_ofSigners, List.mem_flatMap]
  constructor
  · rintro ⟨s, ⟨f, hf, hs⟩, hc⟩
    obtain ⟨file, block, content, hsigned, _⟩ := isSigned_of_mem hfiles hf
    exact ⟨file, block, content, f.signers, hsigned, s, hs, hc⟩
  · rintro ⟨file, block, content, signers, hsigned, s, hs, hc⟩
    obtain ⟨base, hbase, hblock⟩ := hsigned.named
    obtain ⟨f, hf, bytes, hbytes, hcode⟩ :=
      exists_mem_of_isSignatureName hfiles hsigned.file_mem hbase hblock
    obtain ⟨raw, hraw, hdecoded⟩ := hsigned.decoded
    obtain rfl : raw = bytes := Except.ok.inj (hraw.symm.trans hbytes)
    obtain rfl : signers = f.signers := Except.ok.inj (hdecoded.symm.trans hcode)
    exact ⟨s, ⟨f, hf, hs⟩, hc⟩

end Opened

/-- **A consistently signed archive is accepted**: it is opened, all its entries are read,
and its profile is one set, that of the signers of all signature files. Whether it is
recorded is then up to its attributes alone. -/
theorem profile_of_isConsistentlySigned {archive : String} {file : Bytes} {members : List Member}
    {manifest : Manifest} (listed : Zip.members file = .ok members)
    (consistent : IsConsistentlySigned members manifest) :
    ∃ jar signers, (ofBytes archive file).result = .ok jar ∧
      (∀ c, c ∈ signers ↔ IsSignerOf members c) ∧
      ∀ buffer ≠ 0, (∀ m ∈ members, ∃ e, jar.readEntry buffer m = .ok e) ∧
        (∃ p, (jar.archive buffer).profile.result = .ok p ∧ p.toList = [signers]) ∧
        ∀ g : Graph,
          (∀ d, Dependency.ofArchive (jar.archive buffer)
              (.publicKeyHashes (publicKeyHashes g.algorithm signers)) = .ok d →
            (g.appendRemote (jar.archive buffer)).result = .ok () ∧
              (g.appendRemote (jar.archive buffer)).state = g.push d) ∧
          ∀ failure, Dependency.ofArchive (jar.archive buffer)
              (.publicKeyHashes (publicKeyHashes g.algorithm signers)) = .error failure →
            (g.appendRemote (jar.archive buffer)).result = .error failure ∧
              (g.appendRemote (jar.archive buffer)).state = g := by
  obtain ⟨files, hopen, hfiles⟩ := consistent.exists_ofMembers archive
  have hunanimous := consistent.isUnanimous hfiles
  refine ⟨_, _, ofBytes_eq_ok_iff.mpr ⟨members, listed, hopen⟩,
    fun c => mem_ofSigners_iff_isSignerOf hfiles, fun buffer hbuffer => ⟨fun m hm => ?_, ?_⟩⟩
  · exact ⟨_, (readEntry_eq_ok_iff hbuffer).mpr ⟨hunanimous.intact m hm, rfl⟩⟩
  · obtain ⟨p, hp, hsingle⟩ := (isUnanimous_iff hbuffer).mp hunanimous
    refine ⟨⟨p, hp, Profile.single?_eq_some_iff.mp hsingle⟩, ?_⟩
    intro g
    have hrecord := Document.remoteRecord_of_ok hp g.algorithm
    simp only [hsingle] at hrecord
    rw [Graph.appendRemote_eq, hrecord]
    constructor
    · intro d hd
      rw [hd]
      exact ⟨rfl, rfl⟩
    · intro failure hfailure
      rw [hfailure]
      exact ⟨rfl, rfl⟩

section Sample

/-- What a member says if it is a manifest or a signature file. -/
def manifest? (m : Member) : Option Manifest :=
  m.content.toOption.bind fun bytes => (Manifest.parse bytes).toOption

def signers? (m : Member) : Option (List CodeSigner) :=
  m.content.toOption.bind fun bytes => (Signing.codeSigners bytes).toOption

theorem manifest?_eq_some_iff {m : Member} {manifest : Manifest} :
    manifest? m = some manifest ↔
      ∃ bytes, m.content = .ok bytes ∧ Manifest.parse bytes = .ok manifest := by
  simp only [manifest?, Option.bind_eq_some_iff, toOption_eq_some_iff]

theorem signers?_eq_some_iff {m : Member} {signers : List CodeSigner} :
    signers? m = some signers ↔
      ∃ bytes, m.content = .ok bytes ∧ Signing.codeSigners bytes = .ok signers := by
  simp only [signers?, Option.bind_eq_some_iff, toOption_eq_some_iff]

/-- Both ways of agreeing with a manifest occur in the sample. -/
theorem sample_isConsistentlySigned : ∃ manifest, IsConsistentlySigned sampleMembers manifest := by
  have h : ∃ m ∈ named? sampleMembers manifestPath, ∃ manifest ∈ manifest? m,
      (∀ m ∈ sampleMembers, ∃ bytes ∈ m.content.toOption, ∀ target ∈ manifest.section? m.name,
        ∀ d ∈ target.digests, d.IsDigestOf bytes) ∧
      (∀ name ∈ requiredNames sampleMembers, ∃ target ∈ manifest.section? name,
        ∃ d, target.Records d) ∧
      ∀ f ∈ sampleMembers, ∀ base ∈ signatureBase? f.name, ∀ block ∈ block? sampleMembers base,
        (signers? block).isSome = true ∧
          ∃ content ∈ manifest? f, Covers sampleMembers content manifest := by
    decide +kernel
  obtain ⟨m, hm, manifest, hmanifest, hintact, hrecorded, hsigned⟩ := h
  obtain ⟨bytes, hbytes, hparse⟩ := manifest?_eq_some_iff.mp hmanifest
  refine ⟨manifest, ⟨m, bytes, hm, hbytes, hparse⟩, fun m hm => ?_, fun name hname => ?_, ?_⟩
  · obtain ⟨bytes, hbytes, hdigests⟩ := hintact m hm
    exact ⟨bytes, toOption_eq_some_iff.mp hbytes, fun target htarget d hd =>
      hdigests target (Manifest.section?_eq_some_iff.mpr htarget) d
        (Manifest.Attributes.mem_digests_iff.mpr hd)⟩
  · obtain ⟨target, htarget, hrecords⟩ := hrecorded name hname
    exact ⟨target, Manifest.section?_eq_some_iff.mp htarget, hrecords⟩
  · intro f hf base block hbase hblock
    obtain ⟨hsome, content, hcontent, hcovers⟩ :=
      hsigned f hf base (signatureBase?_eq_some_iff.mpr hbase) block hblock
    obtain ⟨signers, hsigners⟩ := Option.isSome_iff_exists.mp hsome
    exact ⟨content, signers, ⟨hf, ⟨base, hbase, hblock⟩, manifest?_eq_some_iff.mp hcontent,
      signers?_eq_some_iff.mp hsigners⟩, hcovers⟩

theorem profile_of_sample :
    ∃ manifest jar signers, Zip.members (stored sampleContents) = .ok sampleMembers ∧
      IsConsistentlySigned sampleMembers manifest ∧
      (ofBytes "sample.jar" (stored sampleContents)).result = .ok jar ∧
      (∀ c, c ∈ signers ↔ IsSignerOf sampleMembers c) ∧
      (∀ m ∈ sampleMembers, ∃ e, jar.readEntry bufferSize m = .ok e) ∧
      ∃ p, (jar.archive bufferSize).profile.result = .ok p ∧ p.toList = [signers] := by
  obtain ⟨manifest, hconsistent⟩ := sample_isConsistentlySigned
  obtain ⟨jar, signers, hopen, hsigners, hread⟩ :=
    profile_of_isConsistentlySigned members_stored_sampleContents hconsistent
  obtain ⟨hentries, hprofile, _⟩ := hread bufferSize (by decide)
  exact ⟨manifest, jar, signers, members_stored_sampleContents, hconsistent, hopen, hsigners,
    hentries, hprofile⟩

end Sample

end CpkProvenance.Jar
