import CpkProvenance.Archive.Jar
import CpkProvenance.Proofs.Manifest.Digests

/-!
# Sections that a signature file vouches for

A signature file vouches for a section of the manifest in one of two ways. It may
have the digest of the whole manifest, and then vouches for every section that it
names. Otherwise its digests of the main attributes must be right, and it vouches
for the sections that it has right digests of. A wrong digest of a section of the
manifest is a fault in the second way, and is not looked at in the first.
-/

namespace CpkProvenance

namespace Manifest

/-- A signature file has the digest of the whole manifest. -/
def HasManifestDigest (signatureFile manifest : Manifest) : Prop :=
  ∃ d, signatureFile.main.Records "-Digest-Manifest" d ∧ d.IsDigestOf manifest.raw

/-- All digests of the main attributes are right. There may be none. -/
def HasMainDigests (signatureFile manifest : Manifest) : Prop :=
  ∀ d, signatureFile.main.Records "-Digest-Manifest-Main-Attributes" d →
    d.IsDigestOf manifest.mainBytes

/-- All digests of a section of a signature file are those of the section of the
manifest that it names, if there is one. -/
def Section.HasDigestsOf (s : Section) (manifest : Manifest) : Prop :=
  ∀ target, manifest.section? s.name = some target → ∀ d, s.Records d → d.IsDigestOf target.bytes

theorem hasManifestDigest_iff {signatureFile manifest : Manifest} :
    HasManifestDigest signatureFile manifest ↔
      ∃ d ∈ signatureFile.main.digests "-Digest-Manifest", d.IsDigestOf manifest.raw := by
  simp only [HasManifestDigest, Attributes.mem_digests_iff]

theorem hasMainDigests_iff {signatureFile manifest : Manifest} :
    HasMainDigests signatureFile manifest ↔
      ∀ d ∈ signatureFile.main.digests "-Digest-Manifest-Main-Attributes",
        d.IsDigestOf manifest.mainBytes := by
  simp only [HasMainDigests, Attributes.mem_digests_iff]

theorem Section.hasDigestsOf_iff {s : Section} {manifest : Manifest} :
    s.HasDigestsOf manifest ↔
      ∀ target ∈ manifest.section? s.name, ∀ d ∈ s.digests, d.IsDigestOf target.bytes := by
  simp only [HasDigestsOf, Option.mem_def, Attributes.mem_digests_iff]

instance (signatureFile manifest : Manifest) :
    Decidable (HasManifestDigest signatureFile manifest) :=
  decidable_of_iff _ hasManifestDigest_iff.symm

instance (signatureFile manifest : Manifest) : Decidable (HasMainDigests signatureFile manifest) :=
  decidable_of_iff _ hasMainDigests_iff.symm

instance (s : Section) (manifest : Manifest) : Decidable (s.HasDigestsOf manifest) :=
  decidable_of_iff _ Section.hasDigestsOf_iff.symm

/-- A section counts if it names a section of the manifest and records digests. -/
def Section.counts (s : Section) (manifest : Manifest) : Bool :=
  (manifest.section? s.name).isSome && !s.digests.isEmpty

end Manifest

namespace Jar

open Manifest

theorem firstMismatch?_eq_none_iff {digests : List RecordedDigest} {data : Bytes} :
    firstMismatch? digests data = none ↔ ∀ d ∈ digests, d.IsDigestOf data := by
  simp [firstMismatch?, RecordedDigest.isOf_iff]

theorem firstMismatch?_eq_some {digests : List RecordedDigest} {data : Bytes}
    {d : RecordedDigest} (h : firstMismatch? digests data = some d) :
    d ∈ digests ∧ ¬ d.IsDigestOf data := by
  refine ⟨List.mem_of_find?_eq_some h, ?_⟩
  rw [← RecordedDigest.isOf_eq_false_iff]
  simpa using List.find?_some h

/-- A section with right digests is passed, and its name kept if it counts. -/
theorem coveredSections_cons_of_right {path : String} {manifest : Manifest} {s : Section}
    (h : s.HasDigestsOf manifest) (rest : List Section) :
    coveredSections path manifest (s :: rest) =
      (coveredSections path manifest rest).map fun names =>
        if s.counts manifest then s.name :: names else names := by
  rw [coveredSections, Section.counts]
  cases hs : manifest.section? s.name with
  | none => cases coveredSections path manifest rest <;> rfl
  | some target =>
      have hm : firstMismatch? s.digests target.bytes = none :=
        firstMismatch?_eq_none_iff.mpr (Section.hasDigestsOf_iff.mp h target hs)
      simp only [hm]
      cases coveredSections path manifest rest with
      | error fault => rfl
      | ok names =>
          unfold Section.digests
          cases s.attributes.digests "-Digest" <;> rfl

/-- A section with a wrong digest is a fault. -/
theorem coveredSections_cons_of_wrong {path : String} {manifest : Manifest} {s : Section}
    (h : ¬ s.HasDigestsOf manifest) (rest : List Section) :
    ∃ fault, coveredSections path manifest (s :: rest) = .error fault := by
  rw [coveredSections]
  cases hs : manifest.section? s.name with
  | none =>
      refine absurd (fun _ ht => ?_) h
      rw [hs] at ht
      cases ht
  | some target =>
      cases hm : firstMismatch? s.digests target.bytes with
      | none =>
          refine absurd (Section.hasDigestsOf_iff.mpr fun t ht => ?_) h
          obtain rfl : target = t := Option.some.inj (hs.symm.trans ht)
          exact firstMismatch?_eq_none_iff.mp hm
      | some d => exact ⟨.sectionDigest d.algorithm path s.name, by simp only [hm]⟩

/-- The run over the sections of a signature file: it ends well if all digests of
sections of the manifest are right, and gives the names of those that count. -/
theorem coveredSections_eq_ok_iff {path : String} {manifest : Manifest}
    {sections : List Section} {names : List String} :
    coveredSections path manifest sections = .ok names ↔
      (∀ s ∈ sections, s.HasDigestsOf manifest) ∧
        names = (sections.filter (·.counts manifest)).map (·.name) := by
  induction sections generalizing names with
  | nil =>
      rw [coveredSections, Except.ok.injEq]
      simp [eq_comm]
  | cons s rest ih =>
      by_cases hs : s.HasDigestsOf manifest
      · rw [coveredSections_cons_of_right hs, map_eq_ok_iff]
        constructor
        · rintro ⟨others, hothers, rfl⟩
          obtain ⟨hrest, rfl⟩ := ih.mp hothers
          refine ⟨List.forall_mem_cons.mpr ⟨hs, hrest⟩, ?_⟩
          by_cases hc : s.counts manifest <;> simp [hc]
        · rintro ⟨hall, rfl⟩
          refine ⟨_, ih.mpr ⟨(List.forall_mem_cons.mp hall).2, rfl⟩, ?_⟩
          by_cases hc : s.counts manifest <;> simp [hc]
      · obtain ⟨fault, he⟩ := coveredSections_cons_of_wrong hs rest
        rw [he]
        simp only [reduceCtorEq, false_iff]
        exact fun h => hs (h.1 s List.mem_cons_self)

theorem any_isOf_iff {signatureFile manifest : Manifest} :
    (signatureFile.main.digests "-Digest-Manifest").any (·.isOf manifest.raw) = true ↔
      HasManifestDigest signatureFile manifest := by
  simp only [List.any_eq_true, hasManifestDigest_iff, RecordedDigest.isOf_iff]

theorem coveredNames_of_manifestDigest {path : String} {signatureFile manifest : Manifest}
    (h : HasManifestDigest signatureFile manifest) :
    coveredNames path signatureFile manifest =
      .ok (signatureFile.sections.map (·.name)).eraseDups := by
  rw [coveredNames, if_pos (any_isOf_iff.mpr h)]

/-- The second way, which is taken without the digest of the whole manifest. -/
theorem coveredNames_eq_ok_iff_of_not {path : String} {signatureFile manifest : Manifest}
    {names : List String} (h : ¬ HasManifestDigest signatureFile manifest) :
    coveredNames path signatureFile manifest = .ok names ↔
      HasMainDigests signatureFile manifest ∧
      (∀ s ∈ signatureFile.sections, s.HasDigestsOf manifest) ∧
        names = ((signatureFile.sections.filter (·.counts manifest)).map (·.name)).eraseDups := by
  rw [coveredNames, if_neg (fun hany => h (any_isOf_iff.mp hany))]
  cases hm : firstMismatch? (signatureFile.main.digests "-Digest-Manifest-Main-Attributes")
      manifest.mainBytes with
  | some d =>
      obtain ⟨hd, hwrong⟩ := firstMismatch?_eq_some hm
      simp only [reduceCtorEq, false_iff]
      exact fun hall => hwrong (hasMainDigests_iff.mp hall.1 d hd)
  | none =>
      rw [map_eq_ok_iff]
      constructor
      · rintro ⟨names, hnames, rfl⟩
        obtain ⟨hsections, rfl⟩ := coveredSections_eq_ok_iff.mp hnames
        exact ⟨hasMainDigests_iff.mpr (firstMismatch?_eq_none_iff.mp hm), hsections, rfl⟩
      · rintro ⟨_, hsections, rfl⟩
        exact ⟨_, coveredSections_eq_ok_iff.mpr ⟨hsections, rfl⟩, rfl⟩

/-- A signature file agrees with the manifest, in one of the two ways. In the second it
must have digests of the sections that are required. -/
def Agrees (required : List String) (signatureFile manifest : Manifest) : Prop :=
  HasManifestDigest signatureFile manifest ∨
    (HasMainDigests signatureFile manifest ∧
      (∀ s ∈ signatureFile.sections, s.HasDigestsOf manifest) ∧
      ∀ s ∈ signatureFile.sections, s.name ∈ required → ∃ d, s.Records d)

instance (required : List String) (signatureFile manifest : Manifest) :
    Decidable (Agrees required signatureFile manifest) :=
  inferInstanceAs (Decidable (_ ∨ _))

/-- A signature file that agrees with the manifest vouches for every required section that
it names. -/
theorem Agrees.exists_coveredNames {required : List String} {signatureFile manifest : Manifest}
    (h : Agrees required signatureFile manifest) (path : String) :
    ∃ names, coveredNames path signatureFile manifest = .ok names ∧
      ∀ s ∈ signatureFile.sections, s.name ∈ required →
        (manifest.section? s.name).isSome = true → s.name ∈ names := by
  by_cases hwhole : HasManifestDigest signatureFile manifest
  · refine ⟨_, coveredNames_of_manifestDigest hwhole, fun s hs _ _ => ?_⟩
    rw [List.mem_eraseDups]
    exact List.mem_map_of_mem hs
  · obtain ⟨hmain, hsections, hrequired⟩ := h.resolve_left hwhole
    refine ⟨_, (coveredNames_eq_ok_iff_of_not hwhole).mpr ⟨hmain, hsections, rfl⟩, ?_⟩
    intro s hs hname hknown
    rw [List.mem_eraseDups]
    refine List.mem_map_of_mem (List.mem_filter.mpr ⟨hs, ?_⟩)
    have hdigests := Section.digests_ne_nil_iff.mpr (hrequired s hs hname)
    simp [Section.counts, hknown, hdigests]

/-- What it means that a signature file vouches for the section `target` of the
manifest, which is the first of the given name. -/
structure Vouches (signatureFile manifest : Manifest) (name : String) (target : Section) :
    Prop where
  named : ∃ s ∈ signatureFile.sections, s.name = name
  digests : HasManifestDigest signatureFile manifest ∨
    (HasMainDigests signatureFile manifest ∧
      (∃ s ∈ signatureFile.sections, s.name = name ∧ ∃ d, s.Records d) ∧
      ∀ s ∈ signatureFile.sections, s.name = name → ∀ d, s.Records d → d.IsDigestOf target.bytes)

theorem vouches_of_mem_coveredNames {path name : String} {signatureFile manifest : Manifest}
    {names : List String} {target : Section}
    (h : coveredNames path signatureFile manifest = .ok names) (hname : name ∈ names)
    (htarget : manifest.section? name = some target) :
    Vouches signatureFile manifest name target := by
  by_cases hwhole : HasManifestDigest signatureFile manifest
  · rw [coveredNames_of_manifestDigest hwhole, Except.ok.injEq] at h
    subst h
    rw [List.mem_eraseDups] at hname
    exact ⟨List.mem_map.mp hname, .inl hwhole⟩
  · obtain ⟨hmain, hsections, rfl⟩ := (coveredNames_eq_ok_iff_of_not hwhole).mp h
    rw [List.mem_eraseDups] at hname
    obtain ⟨s, hs, rfl⟩ := List.mem_map.mp hname
    obtain ⟨hs, hcounts⟩ := List.mem_filter.mp hs
    have hdigests : s.digests ≠ [] := by
      simp only [Section.counts, Bool.and_eq_true] at hcounts
      simpa using hcounts.2
    refine ⟨⟨s, hs, rfl⟩, .inr ⟨hmain, ⟨s, hs, rfl, Section.digests_ne_nil_iff.mp hdigests⟩, ?_⟩⟩
    intro t ht hte
    exact hsections t ht target (by rw [hte, htarget])

end Jar

end CpkProvenance
