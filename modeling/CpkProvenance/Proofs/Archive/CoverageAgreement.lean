import CpkProvenance.Proofs.Archive.Opening
import CpkProvenance.Proofs.Archive.SignerSoundness

/-!
# The two ways to vouch for entries agree

A signature file with the digest of the whole manifest vouches for all names of its
sections, and without it for the names whose digests were compared. The first is a
shortcut: it skips the comparisons, and takes in names of which the manifest has no
section. Entries are read the same after both, because an entry without a section in the
manifest has no signers, unless it is the manifest, which has the signers of all signature
files. Nothing is said here of other entries with the name of the manifest.
-/

namespace CpkProvenance

namespace Manifest

/-- No header records both a digest of the manifest and one of its main attributes: its name
would end in two letters. -/
theorem Attribute.IsDigest.not_main {a : Attribute} {algorithm other : Digest.Algorithm}
    (h : a.IsDigest "-Digest-Manifest" algorithm) :
    ¬ a.IsDigest "-Digest-Manifest-Main-Attributes" other := by
  rintro ⟨rest', hrest', _⟩
  obtain ⟨rest, hrest, _⟩ := h
  have hends := congrArg (fun text => text.toList.getLast?) (hrest.symm.trans hrest')
  have ht : (Text.upper "-Digest-Manifest").toList.getLast? = some 'T' := by decide
  have hs : (Text.upper "-Digest-Manifest-Main-Attributes").toList.getLast? = some 'S' := by decide
  simp only [String.toList_append, List.getLast?_append, ht, hs, Option.some_or] at hends
  exact absurd hends (by decide)

section Removal

/-- A signature file without its digests of the whole manifest. -/
def withoutManifestDigests (s : Manifest) : Manifest :=
  { s with
    main := s.main.filter fun a => (RecordedDigest.ofAttribute? "-Digest-Manifest" a).isNone }

variable {s m : Manifest}

theorem mem_main_withoutManifestDigests {a : Attribute} :
    a ∈ s.withoutManifestDigests.main ↔
      a ∈ s.main ∧ ∀ algorithm, ¬ a.IsDigest "-Digest-Manifest" algorithm := by
  rw [withoutManifestDigests, List.mem_filter, Option.isNone_iff_eq_none,
    Option.eq_none_iff_forall_ne_some]
  simp only [ne_eq, RecordedDigest.ofAttribute?_eq_some_iff]
  constructor
  · rintro ⟨ha, hnone⟩
    exact ⟨ha, fun algorithm hdigest => hnone ⟨algorithm, a.value⟩ ⟨hdigest, rfl⟩⟩
  · rintro ⟨ha, hnone⟩
    exact ⟨ha, fun d hd => hnone d.algorithm hd.1⟩

theorem not_hasManifestDigest_withoutManifestDigests (s m : Manifest) :
    ¬ HasManifestDigest s.withoutManifestDigests m := by
  rintro ⟨d, ⟨a, ha, hdigest, _⟩, _⟩
  exact (mem_main_withoutManifestDigests.mp ha).2 d.algorithm hdigest

/-- The digests of the main attributes stay. -/
theorem hasMainDigests_withoutManifestDigests :
    HasMainDigests s.withoutManifestDigests m ↔ HasMainDigests s m := by
  refine forall_congr' fun d => imp_congr_left ?_
  constructor
  · rintro ⟨a, ha, hd⟩
    exact ⟨a, (mem_main_withoutManifestDigests.mp ha).1, hd⟩
  · rintro ⟨a, ha, hdigest, htext⟩
    refine ⟨a, mem_main_withoutManifestDigests.mpr ⟨ha, ?_⟩, hdigest, htext⟩
    intro algorithm hmanifest
    exact hmanifest.not_main hdigest

end Removal

/-- The names of the sections, each once. -/
def sectionNames (s : Manifest) : List String :=
  (s.sections.map (·.name)).eraseDups

theorem mem_sectionNames {s : Manifest} {name : String} :
    name ∈ s.sectionNames ↔ ∃ t ∈ s.sections, t.name = name := by
  rw [sectionNames, List.mem_eraseDups, List.mem_map]

end Manifest

namespace Jar

open Manifest
open Zip (Member)

section Covered

variable {path : String} {s m : Manifest} {names : List String}

/-- What the second way needs and gives, whether or not it is the way that is taken. -/
theorem coveredNames_withoutManifestDigests_eq_ok_iff :
    coveredNames path s.withoutManifestDigests m = .ok names ↔
      HasMainDigests s m ∧ (∀ t ∈ s.sections, t.HasDigestsOf m) ∧
        names = ((s.sections.filter (·.counts m)).map (·.name)).eraseDups := by
  have hsecond := not_hasManifestDigest_withoutManifestDigests s m
  rw [coveredNames_eq_ok_iff_of_not hsecond, hasMainDigests_withoutManifestDigests]
  rfl

/-- The second way keeps a name if the manifest has a section of it, and a section of the
signature file has digests of that. -/
theorem mem_of_coveredNames_withoutManifestDigests
    (h : coveredNames path s.withoutManifestDigests m = .ok names) (name : String) :
    name ∈ names ↔
      (m.section? name).isSome = true ∧ ∃ t ∈ s.sections, t.name = name ∧ ∃ d, t.Records d := by
  obtain ⟨_, _, rfl⟩ := coveredNames_withoutManifestDigests_eq_ok_iff.mp h
  rw [List.mem_eraseDups, List.mem_map]
  simp only [List.mem_filter, Section.counts, Bool.and_eq_true, Bool.not_eq_true',
    List.isEmpty_eq_false_iff, Section.digests_ne_nil_iff]
  constructor
  · rintro ⟨t, ⟨ht, hknown, hdigests⟩, rfl⟩
    exact ⟨hknown, t, ht, rfl, hdigests⟩
  · rintro ⟨hknown, t, ht, rfl, hdigests⟩
    exact ⟨t, ⟨ht, hknown, hdigests⟩, rfl⟩

/-- If the second way ends well, the signature file is accepted in either way. -/
theorem coveredNames_of_withoutManifestDigests
    (h : coveredNames path s.withoutManifestDigests m = .ok names) :
    coveredNames path s m = .ok (if HasManifestDigest s m then s.sectionNames else names) := by
  by_cases hwhole : HasManifestDigest s m
  · rw [if_pos hwhole]
    exact coveredNames_of_manifestDigest hwhole
  · rw [if_neg hwhole, coveredNames_eq_ok_iff_of_not hwhole]
    exact coveredNames_withoutManifestDigests_eq_ok_iff.mp h

end Covered

section Reading

/-- The archive with a signature file that covers the given names, between other signature
files. -/
def covering (jar : Jar) (before : List SignatureFile) (f : SignatureFile)
    (after : List SignatureFile) (names : List String) : Jar :=
  { jar with signatureFiles := before ++ { f with covered := names } :: after }

/-- It makes no difference to any entry which of two lists of names a signature file covers,
whatever the other signature files are. -/
def Interchangeable (manifest : Manifest) (xs ys : List String) : Prop :=
  ∀ (jar : Jar) (before : List SignatureFile) (f : SignatureFile) (after : List SignatureFile)
    (buffer : Nat) (entry : Member), jar.manifest = manifest →
      (jar.covering before f after xs).readEntry buffer entry =
        (jar.covering before f after ys).readEntry buffer entry

theorem interchangeable_refl (manifest : Manifest) (xs : List String) :
    Interchangeable manifest xs xs := by
  intro jar before f after buffer entry _
  rfl

theorem signers_of_readEntry_eq_ok {jar : Jar} {buffer : Nat} {entry : Member}
    {e : Archive.Entry} (h : jar.readEntry buffer entry = .ok e) :
    e.signers = jar.signersOf entry := by
  unfold readEntry at h
  split at h
  · cases h
  · split at h
    · cases h
    · rw [← Except.ok.inj h]

/-- An entry without a section in the manifest has no signers, unless it has the name of the
manifest. -/
theorem signersOf_of_section?_none {jar : Jar} {entry : Member}
    (hsection : jar.manifest.section? entry.name = none)
    (hname : ¬ Text.equalIgnoringCase entry.name manifestPath = true) :
    jar.signersOf entry = [] := by
  have hrecorded : jar.recordedDigests entry.name = [] := by rw [recordedDigests, hsection]
  rw [signersOf, if_neg hname, if_neg]
  intro h
  exact h.1 hrecorded

variable {xs ys : List String}

/-- A name that is in both lists or in neither is covered by the same signers. -/
theorem flatMap_signers_covering {name : String} (h : name ∈ xs ↔ name ∈ ys) (jar : Jar)
    (before : List SignatureFile) (f : SignatureFile) (after : List SignatureFile) :
    ((jar.covering before f after xs).signatureFiles.filter
        (·.covered.contains name)).flatMap (·.signers) =
      ((jar.covering before f after ys).signatureFiles.filter
        (·.covered.contains name)).flatMap (·.signers) := by
  have hcontains : xs.contains name = ys.contains name := by
    rw [Bool.eq_iff_iff, List.contains_iff_mem, List.contains_iff_mem]
    exact h
  simp only [covering, List.filter_append, List.filter_cons, hcontains, List.flatMap_append]
  split <;> rfl

/-- Names of which the manifest has no section do not matter. -/
theorem interchangeable_of_mem_iff {manifest : Manifest}
    (h : ∀ name, (manifest.section? name).isSome = true → (name ∈ xs ↔ name ∈ ys)) :
    Interchangeable manifest xs ys := by
  rintro jar before f after buffer entry rfl
  have hsigners : (jar.covering before f after xs).signersOf entry =
      (jar.covering before f after ys).signersOf entry := by
    by_cases hname : Text.equalIgnoringCase entry.name manifestPath = true
    · rw [signersOf_of_manifestPath hname, signersOf_of_manifestPath hname]
      simp only [covering, List.flatMap_append, List.flatMap_cons]
    · cases hsection : jar.manifest.section? entry.name with
      | none =>
          have hnone : ∀ names, (jar.covering before f after names).signersOf entry = [] := by
            intro names
            exact signersOf_of_section?_none hsection hname
          rw [hnone, hnone]
      | some target =>
          have hknown : (jar.manifest.section? entry.name).isSome = true := by rw [hsection]; rfl
          have hcovered := flatMap_signers_covering (h entry.name hknown) jar before f after
          rw [signersOf, signersOf, if_neg hname, if_neg hname, hcovered]
          rfl
  unfold readEntry
  rw [hsigners]
  rfl

end Reading

section Agreement

variable {path : String} {s m : Manifest} {perSection : List String}

theorem subset_sectionNames (h : coveredNames path s.withoutManifestDigests m = .ok perSection) :
    perSection ⊆ s.sectionNames := by
  intro name hname
  obtain ⟨_, t, ht, htname, _⟩ := (mem_of_coveredNames_withoutManifestDigests h name).mp hname
  exact mem_sectionNames.mpr ⟨t, ht, htname⟩

/-- If all sections have digests, the shortcut adds only names of which the manifest has no
section. -/
theorem interchangeable_sectionNames
    (h : coveredNames path s.withoutManifestDigests m = .ok perSection)
    (hdigests : ∀ t ∈ s.sections, ∃ d, t.Records d) :
    Interchangeable m s.sectionNames perSection := by
  apply interchangeable_of_mem_iff
  intro name hknown
  constructor
  · intro hname
    obtain ⟨t, ht, htname⟩ := mem_sectionNames.mp hname
    rw [mem_of_coveredNames_withoutManifestDigests h]
    exact ⟨hknown, t, ht, htname, hdigests t ht⟩
  · intro hname
    exact subset_sectionNames h hname

/-- **The two ways agree.** Suppose that a signature file, without its digests of the whole
manifest, is accepted and covers the names `perSection`. Then it is accepted with them too, and
covers all names of its sections if one of them is right, otherwise the same names as before.
If every section has a digest, no entry of any archive with that manifest is read differently
for it. In any case the names are among those of the sections, and an entry of which the
manifest has no section is not among `perSection`. It is never read with signers, unless it is
the manifest itself, which has those of all signature files. -/
theorem coveredNames_agree {path : String} {s m : Manifest} {perSection : List String}
    (h : coveredNames path s.withoutManifestDigests m = .ok perSection) :
    (∃ covered, coveredNames path s m = .ok covered ∧
      (HasManifestDigest s m → covered = s.sectionNames) ∧
      (¬ HasManifestDigest s m → covered = perSection) ∧
      ((∀ t ∈ s.sections, ∃ d, t.Records d) → Interchangeable m covered perSection)) ∧
    ((∀ t ∈ s.sections, ∃ d, t.Records d) → Interchangeable m s.sectionNames perSection) ∧
    perSection ⊆ s.sectionNames ∧
    ∀ entry : Member, m.section? entry.name = none →
      entry.name ∉ perSection ∧
      ∀ (jar : Jar) (buffer : Nat) (e : Archive.Entry), jar.manifest = m →
        jar.readEntry buffer entry = .ok e →
          (named? jar.members manifestPath ≠ some entry → ¬ Shadows jar.members entry →
            e.signers = []) ∧
          (named? jar.members manifestPath = some entry →
            e.signers = jar.signatureFiles.flatMap (·.signers)) := by
  refine ⟨⟨_, coveredNames_of_withoutManifestDigests h, fun hwhole => if_pos hwhole,
    fun hwhole => if_neg hwhole, ?_⟩, interchangeable_sectionNames h, subset_sectionNames h, ?_⟩
  · intro hdigests
    split
    · exact interchangeable_sectionNames h hdigests
    · exact interchangeable_refl m perSection
  · intro entry hsection
    constructor
    · intro hcovered
      have hknown := ((mem_of_coveredNames_withoutManifestDigests h entry.name).mp hcovered).1
      rw [hsection] at hknown
      cases hknown
    · rintro jar buffer e rfl hread
      rw [signers_of_readEntry_eq_ok hread]
      constructor
      · intro hother hshadows
        exact signersOf_of_section?_none hsection
          (not_equalIgnoringCase_of_not_shadows hother hshadows)
      · intro hmanifest
        exact signersOf_of_manifestPath (named?_eq_some hmanifest).2

end Agreement

section Sample

/-- A manifest with one section. -/
def oneSectionManifest : Bytes :=
  Utf8.encode "A:\n\nName: e\nSHA1-Digest: EfatjsUqKYSrqv18O1FlA3hcIHI=\n".toList

/-- A signature file with the digests of that manifest and of its section, which names the
manifest itself as well. -/
def selfNamingFile : Bytes :=
  Utf8.encode ("SHA1-Digest-Manifest: zq29oDdiIrYIOp7qSi/ecPybLio=\n\n" ++
    "Name: e\nSHA1-Digest: GcapDSsaCDS6qbqbzvZkXIFpBBw=\n\n" ++
    "Name: META-INF/MANIFEST.MF\nSHA1-Digest: AA==\n").toList

def manifestMember : Member := ⟨manifestPath, .ok oneSectionManifest, none⟩

def selfNamingMembers : List Member :=
  [manifestMember, ⟨"META-INF/A.SF", .ok selfNamingFile, none⟩,
    ⟨"META-INF/A.EC", .ok (sampleBlock 1), none⟩, ⟨"e", .ok (Utf8.encode "x".toList), none⟩]

/-- The archive is opened with the manifest among the covered names, which it would not be in
the second way. The manifest has no section, but a signer. -/
theorem signers_of_selfNamingMembers :
    ∃ jar ∈ (ofMembers "sample.jar" selfNamingMembers).result.toOption,
      ∃ s ∈ (Manifest.parse selfNamingFile).toOption,
        (coveredNames "META-INF/A.SF" s.withoutManifestDigests jar.manifest).toOption =
          some ["e"] ∧
        (∀ t ∈ s.sections, ∃ d, t.Records d) ∧ HasManifestDigest s jar.manifest ∧
        s.sectionNames = ["e", manifestPath] ∧
        jar.signatureFiles.map (·.covered) = [["e", manifestPath]] ∧
        jar.manifest.section? manifestPath = none ∧
        ∃ e ∈ (jar.readEntry bufferSize manifestMember).toOption, e.signers.length = 1 := by
  decide +kernel

/-- The covered names differ, but this does not show in any entry. -/
theorem coveredNames_agree_selfNamingFile :
    ∃ s m, Manifest.parse selfNamingFile = .ok s ∧
      coveredNames "META-INF/A.SF" s.withoutManifestDigests m = .ok ["e"] ∧
      coveredNames "META-INF/A.SF" s m = .ok ["e", manifestPath] ∧
      Interchangeable m ["e", manifestPath] ["e"] := by
  obtain ⟨jar, _, s, hs, hsecond, hdigests, hwhole, hnames, _⟩ := signers_of_selfNamingMembers
  have hperSection := toOption_eq_some_iff.mp hsecond
  obtain ⟨⟨covered, hcovered, hall, _⟩, hsame, _⟩ := coveredNames_agree hperSection
  rw [hall hwhole, hnames] at hcovered
  have hread := hsame hdigests
  rw [hnames] at hread
  exact ⟨s, jar.manifest, toOption_eq_some_iff.mp hs, hperSection, hcovered, hread⟩

/-- **An entry that a signature file names may have signers without a section in the manifest**:
the manifest itself, which all signature files sign. -/
theorem exists_signers_without_section :
    ∃ jar s e, (ofMembers "sample.jar" selfNamingMembers).result = .ok jar ∧
      Manifest.parse selfNamingFile = .ok s ∧
      coveredNames "META-INF/A.SF" s.withoutManifestDigests jar.manifest = .ok ["e"] ∧
      HasManifestDigest s jar.manifest ∧ manifestMember.name ∈ s.sectionNames ∧
      jar.signatureFiles.map (·.covered) = [s.sectionNames] ∧
      named? jar.members manifestPath = some manifestMember ∧
      jar.manifest.section? manifestMember.name = none ∧
      jar.readEntry bufferSize manifestMember = .ok e ∧ e.signers ≠ [] := by
  obtain ⟨jar, hjar, s, hs, hsecond, _, hwhole, hnames, hcovered, hsection, e, he, hlength⟩ :=
    signers_of_selfNamingMembers
  have hopen := toOption_eq_some_iff.mp hjar
  have hmembers := members_of_ofMembers hopen
  refine ⟨jar, s, e, hopen, toOption_eq_some_iff.mp hs, toOption_eq_some_iff.mp hsecond, hwhole,
    ?_, ?_, ?_, hsection, toOption_eq_some_iff.mp he, ?_⟩
  · rw [hnames]
    exact List.mem_cons_of_mem "e" List.mem_cons_self
  · rw [hnames]
    exact hcovered
  · rw [hmembers]
    decide +kernel
  · exact List.ne_nil_of_length_pos (by omega)

end Sample

end Jar

end CpkProvenance
