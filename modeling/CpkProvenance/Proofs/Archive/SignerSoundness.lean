import CpkProvenance.Proofs.Archive.Opening
import CpkProvenance.Proofs.Document.Graph
import CpkProvenance.Proofs.Signing.Leaf

/-!
# Soundness of recorded signers

If an archive is recorded with signers, then every file in it that must be signed
has been checked against the manifest, and every recorded signer vouches for the
manifest's section of that file. No signer is left out either: the manifest is
signed by all signature files, and all signable entries have the same signers.

Signatures themselves are not verified: a signer is whoever a signature block
describes.
-/

namespace CpkProvenance.Jar

open Zip (Member)
open Manifest (Section)
open Document (Dependency Graph HashValue keyHash)

/-- The block describes a signer whose signing certificate has the given hash. -/
def HasLeafHash (algorithm : Digest.Algorithm) (block : Member) (h : HashValue) : Prop :=
  ∃ bytes data, block.content = .ok bytes ∧ Signing.signedData bytes = .ok data ∧
    ∃ s ∈ data.signers, ∃ leaf, Signing.IsLeafOf data.certificates s leaf ∧
      keyHash algorithm leaf = h

/-- The hashes of all signing certificates of a block are among the given ones. -/
def AllLeafHashesIn (algorithm : Digest.Algorithm) (block : Member) (hashes : List HashValue) :
    Prop :=
  ∃ bytes signers, block.content = .ok bytes ∧ Signing.codeSigners bytes = .ok signers ∧
    ∀ s ∈ signers, ∃ leaf, s.certificate? = some leaf ∧ keyHash algorithm leaf ∈ hashes

/-- The entry has been checked against its section of the manifest: the section
records digests, and all of them are digests of the content. -/
structure IsVerified (manifest : Manifest) (e : Member) (target : Section) : Prop where
  first : IsFirst (·.name = e.name) manifest.sections target
  recorded : ∃ d, target.Records d
  checked : ∃ bytes, e.content = .ok bytes ∧ ∀ d, target.Records d → d.IsDigestOf bytes

/-- What the recorded hashes of signers say about an archive. -/
structure IsAttested (algorithm : Digest.Algorithm) (members : List Member) (manifest : Manifest)
    (hashes : List HashValue) : Prop where
  isManifest : IsManifestOf members manifest
  /-- The files that must be signed have been checked, and each of the signers has
  a signature file that vouches for each of them. -/
  entries : ∀ e ∈ members, Archive.isSignable e.name e.isDirectory = true →
    ¬ Text.equalIgnoringCase e.name manifestPath = true →
    ∃ target, IsVerified manifest e target ∧
      ∀ h ∈ hashes, ∃ f block content signers, IsSigned members f block content signers ∧
        Vouches content manifest e.name target ∧ HasLeafHash algorithm block h
  /-- No signer of a signature file is left out. -/
  complete : ∀ f ∈ members, ∀ base block, IsSignatureName f.name base →
    block? members base = some block → AllLeafHashesIn algorithm block hashes
  /-- And no other is recorded. -/
  sound : ∀ h ∈ hashes, ∃ f block content signers, IsSigned members f block content signers ∧
    HasLeafHash algorithm block h

/-- A signed entry has digests in the manifest, and has been checked. -/
theorem isVerified_of_mem_signersOf {jar : Jar} {e : Member} (hintact : jar.IsIntact e)
    (he : ¬ Text.equalIgnoringCase e.name manifestPath = true) {s : CodeSigner}
    (hs : s ∈ jar.signersOf e) : ∃ target, IsVerified jar.manifest e target := by
  obtain ⟨hrecorded, _, _⟩ := (mem_signersOf_iff he).mp hs
  obtain ⟨target, htarget, hdigests⟩ := section?_of_recordedDigests hrecorded
  obtain ⟨bytes, hbytes, hall⟩ := hintact
  rw [hdigests] at hrecorded hall
  exact ⟨target, Manifest.section?_eq_some_iff.mp htarget,
    Section.digests_ne_nil_iff.mp hrecorded, bytes, hbytes,
    fun d hd => hall d (Manifest.Attributes.mem_digests_iff.mpr hd)⟩

section Files

variable {archive : String} {members : List Member} {manifest : Manifest}
  {files : List SignatureFile}

/-- A signer of a signature file is described in a block of the archive. -/
theorem exists_hasLeafHash
    (h : (readSignatureFiles archive members manifest (members.map (·.name))).result = .ok files)
    {f : SignatureFile} (hf : f ∈ files) {s : CodeSigner} (hs : s ∈ f.signers)
    {leaf : Certificate} (hleaf : s.certificate? = some leaf) (algorithm : Digest.Algorithm) :
    ∃ file block content, IsSigned members file block content f.signers ∧
      coveredNames f.path content manifest = .ok f.covered ∧
      HasLeafHash algorithm block (keyHash algorithm leaf) := by
  obtain ⟨file, block, content, hsigned, hcovered⟩ := isSigned_of_mem h hf
  obtain ⟨bytes, hbytes, hcode⟩ := hsigned.decoded
  obtain ⟨data, hdata, hleaves⟩ := Signing.isLeafOf_of_mem_codeSigners hcode
  obtain ⟨info, hinfo, leaf', hleaf', hisleaf⟩ := hleaves s hs
  obtain rfl : leaf' = leaf := Option.some.inj (hleaf'.symm.trans hleaf)
  exact ⟨file, block, content, hsigned, hcovered, bytes, data, hbytes, hdata, info, hinfo, leaf',
    hisleaf, rfl⟩

/-- A signer of an entry vouches for the entry's section of the manifest. -/
theorem exists_vouches
    (h : (readSignatureFiles archive members manifest (members.map (·.name))).result = .ok files)
    {e : Member} (hother : ¬ Text.equalIgnoringCase e.name manifestPath = true) {target : Section}
    (htarget : manifest.section? e.name = some target) {leaf : Certificate}
    (hleaf : leaf ∈ SignerSet.ofSigners (signersOf ⟨archive, members, manifest, files⟩ e))
    (algorithm : Digest.Algorithm) :
    ∃ f block content signers, IsSigned members f block content signers ∧
      Vouches content manifest e.name target ∧
      HasLeafHash algorithm block (keyHash algorithm leaf) := by
  obtain ⟨signer, hsigner, hcertificate⟩ := SignerSet.mem_ofSigners.mp hleaf
  obtain ⟨_, _, f, hf, hcovers, hfs⟩ := (mem_signersOf_iff hother).mp hsigner
  obtain ⟨file, block, content, hsigned, hcovered, hhash⟩ :=
    exists_hasLeafHash h hf hfs hcertificate algorithm
  exact ⟨file, block, content, f.signers, hsigned,
    vouches_of_mem_coveredNames hcovered hcovers htarget, hhash⟩

/-- A block has no signers but those of the signature files that were read. -/
theorem allLeafHashesIn
    (h : (readSignatureFiles archive members manifest (members.map (·.name))).result = .ok files)
    {f block : Member} {base : String} (hf : f ∈ members) (hbase : IsSignatureName f.name base)
    (hblock : block? members base = some block) (algorithm : Digest.Algorithm) :
    AllLeafHashesIn algorithm block (Document.publicKeyHashes algorithm
      (SignerSet.ofSigners (files.flatMap (·.signers)))) := by
  obtain ⟨file, hfile, bytes, hbytes, hcode⟩ := exists_mem_of_isSignatureName h hf hbase hblock
  obtain ⟨_, _, hleaves⟩ := Signing.isLeafOf_of_mem_codeSigners hcode
  refine ⟨bytes, file.signers, hbytes, hcode, fun s hs => ?_⟩
  obtain ⟨_, _, leaf, hleaf, _⟩ := hleaves s hs
  refine ⟨leaf, hleaf, Document.mem_publicKeyHashes.mpr ⟨leaf, ?_, rfl⟩⟩
  exact SignerSet.mem_ofSigners.mpr ⟨s, List.mem_flatMap.mpr ⟨file, hfile, hs⟩, hleaf⟩

end Files

/-- The signer set of an archive that was appended, by the hashes recorded. -/
theorem exists_isUnanimous_of_appendRemote {jar : Jar} {g : Graph} {d : Dependency}
    {hashes : List HashValue} (h : (g.appendRemote (jar.archive bufferSize)).result = .ok ())
    (hpush : (g.appendRemote (jar.archive bufferSize)).state = g.push d)
    (hd : d.signers = .publicKeyHashes hashes) :
    ∃ signers, jar.IsUnanimous signers ∧
      hashes = Document.publicKeyHashes g.algorithm signers := by
  obtain ⟨d', hrecord, hstate⟩ := Graph.exists_record_of_appendRemote h
  obtain rfl : d' = d := Graph.push_injective g (hstate.symm.trans hpush)
  obtain ⟨p, signers, hp, hsingle, hd'⟩ := Document.remoteRecord_eq_ok_iff.mp hrecord
  refine ⟨signers, (isUnanimous_iff (by decide)).mpr ⟨p, hp, hsingle⟩, ?_⟩
  rw [Dependency.signers_of_ofArchive hd'] at hd
  exact (Document.Signers.publicKeyHashes.inj hd).symm

/-- An archive that is not unsigned has a manifest, and the signers of all its entries are
those of all signature files. -/
theorem IsUnanimous.eq_ofSigners {archive : String} {jar : Jar} {signers : SignerSet}
    (h : jar.IsUnanimous signers) (hmanifest : readManifest archive jar.members = .ok jar.manifest)
    {c : Certificate} (hc : c ∈ signers) :
    IsManifestOf jar.members jar.manifest ∧
      SignerSet.ofSigners (jar.signatureFiles.flatMap (·.signers)) = signers := by
  obtain ⟨m, hm, hms⟩ := h.nonempty
  obtain ⟨s, hs, _⟩ := SignerSet.mem_ofSigners.mp (h.same m hm hms ▸ hc)
  obtain ⟨first, hfirst⟩ := exists_manifest_of_signersOf hmanifest hm (List.ne_nil_of_mem hs)
  -- The manifest is itself an entry that must be signed, and all signature files sign it.
  obtain ⟨hmem, hname⟩ := named?_eq_some hfirst
  have hset := h.same first hmem (isSignable_of_manifestPath hname)
  rw [signersOf_of_manifestPath hname] at hset
  exact ⟨(readManifest_of_some hfirst).mp hmanifest, hset⟩

/-- If a remote archive is recorded with signers, then each of its files that must
be signed, the manifest apart, has the digests of its section of the manifest, and
every recorded signer has a signature file that vouches for that section. The
recorded signers are those of all signature files. -/
theorem isAttested_of_appendRemote {archive : String} {file : Bytes} {jar : Jar} {g : Graph}
    {d : Dependency} {hashes : List HashValue}
    (opened : (ofBytes archive file).result = .ok jar)
    (appended : (g.appendRemote (jar.archive bufferSize)).result = .ok ())
    (pushed : (g.appendRemote (jar.archive bufferSize)).state = g.push d)
    (recorded : d.signers = .publicKeyHashes hashes) (signed : hashes ≠ []) :
    Zip.members file = .ok jar.members ∧
      IsAttested g.algorithm jar.members jar.manifest hashes := by
  obtain ⟨members, hmembers, hopen⟩ := ofBytes_eq_ok_iff.mp opened
  obtain ⟨manifest, files, hmanifest, hfiles, rfl⟩ := ofMembers_eq_ok_iff.mp hopen
  obtain ⟨set, hunanimous, rfl⟩ := exists_isUnanimous_of_appendRemote appended pushed recorded
  obtain ⟨_, hsome⟩ := List.exists_mem_of_ne_nil _ signed
  obtain ⟨c, hc, _⟩ := Document.mem_publicKeyHashes.mp hsome
  obtain ⟨hisManifest, hset⟩ := hunanimous.eq_ofSigners hmanifest hc
  refine ⟨hmembers, hisManifest, fun e he hes hother => ?_, fun f hf base block hbase hblock => ?_,
    fun h hh => ?_⟩
  · have hsame := hunanimous.same e he hes
    obtain ⟨s, hs, _⟩ := SignerSet.mem_ofSigners.mp (hsame ▸ hc)
    obtain ⟨target, htarget⟩ := isVerified_of_mem_signersOf (hunanimous.intact e he) hother hs
    refine ⟨target, htarget, fun h hh => ?_⟩
    obtain ⟨leaf, hleaf, rfl⟩ := Document.mem_publicKeyHashes.mp hh
    exact exists_vouches hfiles hother (Manifest.section?_eq_some_iff.mpr htarget.first)
      (hsame ▸ hleaf) g.algorithm
  · rw [← hset]
    exact allLeafHashesIn hfiles hf hbase hblock g.algorithm
  · obtain ⟨leaf, hleaf, rfl⟩ := Document.mem_publicKeyHashes.mp hh
    obtain ⟨signer, hsigner, hcertificate⟩ := SignerSet.mem_ofSigners.mp (hset ▸ hleaf)
    obtain ⟨f, hf, hfs⟩ := List.mem_flatMap.mp hsigner
    obtain ⟨sf, block, content, hsigned, _, hhash⟩ :=
      exists_hasLeafHash hfiles hf hfs hcertificate g.algorithm
    exact ⟨sf, block, content, f.signers, hsigned, hhash⟩

section Sample

/-- The number in base 256, least significant byte first. -/
def littleEndian : (width : Nat) → Nat → Bytes
  | 0, _ => []
  | width + 1, n => UInt8.ofNat n :: littleEndian width (n / 256)

/-- What the two records of a stored member have in common. -/
def storedFields (name : String) (content : Bytes) : Bytes :=
  [10, 0, 0, 0, 0, 0, 0, 0, 0, 0] ++ littleEndian 4 (Zip.crc32 content).toNat ++
    littleEndian 4 content.length ++ littleEndian 4 content.length ++
    littleEndian 2 (Utf8.encode name.toList).length ++ [0, 0]

/-- The records of stored members, and the directory of them. -/
def storedRecords : Nat → List (String × Bytes) → Bytes × Bytes
  | _, [] => ([], [])
  | start, (name, content) :: rest =>
      let record := [0x50, 0x4B, 3, 4] ++ storedFields name content ++
        Utf8.encode name.toList ++ content
      let entry := [0x50, 0x4B, 1, 2, 10, 0] ++ storedFields name content ++
        List.replicate 10 0 ++ littleEndian 4 start ++ Utf8.encode name.toList
      let (records, directory) := storedRecords (start + record.length) rest
      (record ++ records, entry ++ directory)

/-- A ZIP file whose members are stored without compression. -/
def stored (contents : List (String × Bytes)) : Bytes :=
  let (records, directory) := storedRecords 0 contents
  records ++ directory ++ [0x50, 0x4B, 5, 6, 0, 0, 0, 0] ++ littleEndian 2 contents.length ++
    littleEndian 2 contents.length ++ littleEndian 4 directory.length ++
    littleEndian 4 records.length ++ [0, 0]

/-- A signature block with one certificate, of the given key, and its signer. -/
def sampleBlock (key : UInt8) : Bytes :=
  [0x30, 0x81, 0x84, 0x06, 9, 0x2A, 0x86, 0x48, 0x86, 0xF7, 0x0D, 1, 7, 2, 0xA0, 0x77, 0x30, 0x75,
    2, 1, 1, 0x31, 0, 0x30, 5, 6, 3, 0x2A, 3, 4,
    -- The certificate.
    0xA0, 0x49, 0x30, 0x47, 0x30, 0x3B, 2, 1, key, 0x30, 5, 6, 3, 0x2A, 3, 4, 0x30, 0, 0x30, 0x1E,
    0x17, 13, 0x37, 0x30, 0x30, 0x31, 0x30, 0x31, 0x30, 0x30, 0x30, 0x30, 0x30, 0x30, 0x5A,
    0x17, 13, 0x37, 0x30, 0x30, 0x31, 0x30, 0x31, 0x30, 0x30, 0x30, 0x30, 0x30, 0x30, 0x5A,
    0x30, 0, 0x30, 0x0B, 0x30, 5, 6, 3, 0x2A, 3, 4, 3, 2, 0, key, 0x30, 5, 6, 3, 0x2A, 3, 4, 3, 1, 0,
    -- The signer.
    0x31, 0x1C, 0x30, 0x1A, 2, 1, 1, 0x30, 5, 0x30, 0, 2, 1, key,
    0x30, 5, 6, 3, 0x2A, 3, 4, 0x30, 5, 6, 3, 0x2A, 3, 4, 4, 0]

/-- A manifest of one entry, which consists of an `x`. -/
def sampleManifest : Bytes :=
  Utf8.encode ("Bundle-SymbolicName: n\nBundle-Version: 1\n\n" ++
    "Name: e\nSHA1-Digest: EfatjsUqKYSrqv18O1FlA3hcIHI=\n").toList

/-- An archive that is signed twice. One signature file has the digest of the
manifest, the other that of the only section. -/
def sampleContents : List (String × Bytes) :=
  [("META-INF/MANIFEST.MF", sampleManifest),
    ("META-INF/A.SF", Utf8.encode
      "SHA1-Digest-Manifest: fNonZflD8yGlwsfBJ4DMm452cYc=\n\nName: e\n".toList),
    ("META-INF/A.EC", sampleBlock 1),
    ("META-INF/B.SF", Utf8.encode
      "K: v\n\nName: e\nSHA1-Digest: GcapDSsaCDS6qbqbzvZkXIFpBBw=\n".toList),
    ("META-INF/B.EC", sampleBlock 2),
    ("e", Utf8.encode "x".toList)]

def sampleMembers : List Member :=
  sampleContents.map fun (name, content) => ⟨name, .ok content, none⟩

deriving instance DecidableEq for Member

set_option maxRecDepth 100000 in
theorem members_stored_sampleContents :
    Zip.members (stored sampleContents) = .ok sampleMembers := by
  decide +kernel

/-- The record of the sample has both signers. -/
theorem signers_recorded_of_sample :
    ∃ jar ∈ (ofMembers "sample.jar" sampleMembers).result.toOption,
      ((Graph.empty .sha1).appendRemote (jar.archive bufferSize)).result = .ok () ∧
      ((Graph.empty .sha1).appendRemote (jar.archive bufferSize)).state.dependencies.map
        (·.signers) = [.publicKeyHashes
          [⟨"SHA-1", [129, 188, 218, 78, 58, 71, 224, 157, 99, 8, 69, 224, 76, 213, 144, 64, 25,
            178, 244, 221]⟩,
          ⟨"SHA-1", [4, 141, 90, 231, 46, 183, 129, 238, 168, 22, 163, 134, 56, 121, 134, 39, 107,
            159, 94, 245]⟩]] := by
  decide +kernel

theorem sample_isAttested :
    ∃ jar d hashes, (ofBytes "sample.jar" (stored sampleContents)).result = .ok jar ∧
      ((Graph.empty .sha1).appendRemote (jar.archive bufferSize)).result = .ok () ∧
      ((Graph.empty .sha1).appendRemote (jar.archive bufferSize)).state =
        (Graph.empty .sha1).push d ∧
      d.signers = .publicKeyHashes hashes ∧ hashes.length = 2 ∧
      jar.members = sampleMembers ∧ IsAttested .sha1 sampleMembers jar.manifest hashes := by
  obtain ⟨jar, hjar, appended, hsigners⟩ := signers_recorded_of_sample
  have opened : (ofBytes "sample.jar" (stored sampleContents)).result = .ok jar :=
    ofBytes_eq_ok_iff.mpr ⟨_, members_stored_sampleContents, toOption_eq_some_iff.mp hjar⟩
  obtain ⟨d, _, pushed⟩ := Graph.exists_record_of_appendRemote appended
  rw [pushed] at hsigners
  have recorded := (List.cons.inj hsigners).1
  obtain ⟨hmembers, hattested⟩ :=
    isAttested_of_appendRemote opened appended pushed recorded (List.cons_ne_nil _ _)
  have hsample : jar.members = sampleMembers :=
    Except.ok.inj (hmembers.symm.trans members_stored_sampleContents)
  rw [hsample] at hattested
  exact ⟨jar, d, _, opened, appended, pushed, recorded, rfl, hsample, hattested⟩

end Sample

end CpkProvenance.Jar
