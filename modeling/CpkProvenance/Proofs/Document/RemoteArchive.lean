import CpkProvenance.Proofs.Archive.LeafSets
import CpkProvenance.Proofs.Document.Graph
import CpkProvenance.Proofs.Text.Blank
import Mathlib.Data.Set.Card

/-!
# Which remote archives are appended

A remote archive is appended exactly if all its entries were read, those that must be
signed are there and have the same signing certificates, and the main attributes give a
name that is not blank and a version. Any other archive is refused. `IsRefusal` says
for which reason: the first entry that was not read comes before different signers, these
before the name, and the name before the version.
-/

namespace CpkProvenance

section Headers

open Manifest

/-- The first header of the name, in whatever case, has the value. -/
def Manifest.Attributes.HasHeader (attributes : Attributes) (name value : String) : Prop :=
  ∃ (before : List Attribute) (a : Attribute) (after : List Attribute),
    attributes = before ++ a :: after ∧ a.value = value ∧
    Text.equalIgnoringCase a.name name = true ∧
    ∀ b ∈ before, Text.equalIgnoringCase b.name name = false

theorem Manifest.Attributes.get?_eq_some_iff {attributes : Attributes} {name value : String} :
    attributes.get? name = some value ↔ attributes.HasHeader name value := by
  rw [get?, Option.map_eq_some_iff]
  constructor
  · rintro ⟨a, hfind, hvalue⟩
    rw [List.find?_eq_some_iff_append] at hfind
    obtain ⟨hname, before, after, hattributes, hbefore⟩ := hfind
    refine ⟨before, a, after, hattributes, hvalue, hname, ?_⟩
    intro b hb
    simpa using hbefore b hb
  · rintro ⟨before, a, after, hattributes, hvalue, hname, hbefore⟩
    refine ⟨a, ?_, hvalue⟩
    rw [List.find?_eq_some_iff_append]
    refine ⟨hname, before, after, hattributes, ?_⟩
    intro b hb
    simp [hbefore b hb]

theorem Manifest.Attributes.get?_eq_none_iff {attributes : Attributes} {name : String} :
    attributes.get? name = none ↔ ¬ ∃ value, attributes.HasHeader name value := by
  rw [Option.eq_none_iff_forall_ne_some, not_exists]
  exact forall_congr' fun value => not_congr get?_eq_some_iff

end Headers

/-- A profile has an only set if there is one set of signing certificates. -/
theorem Profile.single?_eq_some_iff_leafSets {p : Profile} {s : SignerSet} :
    p.single? = some s ↔ p.leafSets = {s.toSet} := by
  rw [single?_eq_some_iff_mem, leafSets, ← Set.image_singleton,
    OrderedSet.toSet_injective.image_injective.eq_iff]
  exact Set.ext_iff.symm

theorem Profile.size_eq_ncard (p : Profile) : p.size = p.leafSets.ncard := by
  have hnodup : p.toList.Nodup := p.sorted.imp ne_of_compare_lt
  have hmembers : p.toSet = (p.toList.toFinset : Set SignerSet) := by
    ext s
    exact List.mem_toFinset.symm
  rw [leafSets, Set.ncard_image_of_injective _ OrderedSet.toSet_injective, hmembers,
    Set.ncard_coe_finset, List.toFinset_card_of_nodup hnodup, OrderedSet.size]

section Signed

/-- All entries were read, and those that must be signed, of which there are some, have the
given signing certificates. -/
structure Archive.IsSignedBy (a : Archive) (leaves : Set Certificate) : Prop where
  read : ∀ x ∈ a.entries, ∃ e, x = .ok e
  signable : ∃ e : Archive.Entry, .ok e ∈ a.entries ∧ e.IsSignable
  same : ∀ e : Archive.Entry, .ok e ∈ a.entries → e.IsSignable → e.leaves = leaves

variable {a : Archive} {es : List Archive.Entry} {leaves : Set Certificate}

theorem Archive.IsSignedBy.exists_read (h : a.IsSignedBy leaves) :
    ∃ es : List Archive.Entry, a.entries = es.map .ok := by
  rcases a.entries_cases with hread | ⟨front, failure, back, hentries⟩
  · exact hread
  · have hmem : Except.error failure ∈ a.entries := by simp [hentries]
    obtain ⟨e, he⟩ := h.read _ hmem
    cases he

theorem Archive.isSignedBy_iff (h : a.entries = es.map .ok) :
    a.IsSignedBy leaves ↔ leafSets es = {leaves} := by
  have hmem : ∀ e : Entry, .ok e ∈ a.entries ↔ e ∈ es := by simp [h]
  rw [Set.eq_singleton_iff_unique_mem]
  constructor
  · intro hsigned
    obtain ⟨e, he, hsignable⟩ := hsigned.signable
    have hleaves := hsigned.same e he hsignable
    refine ⟨mem_leafSets.mpr ⟨e, (hmem e).mp he, hsignable, hleaves⟩, ?_⟩
    rintro other ⟨f, hf, hsignable, rfl⟩
    exact hsigned.same f ((hmem f).mpr hf) hsignable
  · rintro ⟨⟨e, he, hsignable, _⟩, hall⟩
    refine ⟨?_, ⟨e, (hmem e).mpr he, hsignable⟩, ?_⟩
    · simp [h]
    · intro f hf hsignable
      exact hall _ ⟨f, (hmem f).mp hf, hsignable, rfl⟩

end Signed

namespace Document

section Record

/-- The name of the archive, with a character that shows. -/
def IsNamed (a : Archive) (name : String) : Prop :=
  a.attributes.HasHeader symbolicNameHeader name ∧ ∃ c ∈ name.toList, Text.isBlank c = false

/-- An archive with everything that its record needs. -/
structure IsAppendable (a : Archive) : Prop where
  signed : ∃ leaves, a.IsSignedBy leaves
  named : ∃ name, IsNamed a name
  versioned : ∃ version, a.attributes.HasHeader versionHeader version

/-- The record of a remote archive with the given signing certificates. -/
structure IsRecordOf (algorithm : Digest.Algorithm) (a : Archive) (leaves : Set Certificate)
    (d : Dependency) : Prop where
  name : IsNamed a d.name
  version : a.attributes.HasHeader versionHeader d.version
  type : ∀ t, d.type = some t ↔ a.attributes.HasHeader typeHeader t
  signers : ∃ certificates : List Certificate,
    certificates.Pairwise (fun c c' => compare c c' = .lt) ∧
    (∀ c, c ∈ certificates ↔ c ∈ leaves) ∧
    d.signers = .publicKeyHashes (certificates.map (keyHash algorithm))

/-- The failures with which a remote archive is refused. A later one supposes that there is no
reason for the ones before it. -/
inductive IsRefusal (a : Archive) : Failure → Prop
  | unread (front : List Archive.Entry) (failure : Failure)
      (back : List (Except Failure Archive.Entry))
      (entries : a.entries = front.map .ok ++ .error failure :: back) : IsRefusal a failure
  | divided (es : List Archive.Entry) (sets : List SignerSet)
      (sorted : sets.Pairwise fun s t => compare s t = .lt)
      (read : a.entries = es.map .ok)
      (different : ¬ ∃ leaves, a.IsSignedBy leaves)
      (listed : ∀ leaves, leaves ∈ Archive.leafSets es ↔ ∃ s ∈ sets, s.toSet = leaves)
      (counted : sets.length = (Archive.leafSets es).ncard) :
      IsRefusal a (.multipleSignerSets a.name ⟨sets, sorted⟩)
  | nameless (leaves : Set Certificate) (signed : a.IsSignedBy leaves)
      (unnamed : ¬ ∃ name, IsNamed a name) :
      IsRefusal a (.missingAttribute a.name symbolicNameHeader)
  | unversioned (leaves : Set Certificate) (signed : a.IsSignedBy leaves)
      (named : ∃ name, IsNamed a name)
      (unversioned : ¬ ∃ version, a.attributes.HasHeader versionHeader version) :
      IsRefusal a (.missingAttribute a.name versionHeader)

variable {algorithm : Digest.Algorithm} {a : Archive} {signers : Signers}

theorem Dependency.ofArchive_of_not_isNamed (h : ¬ ∃ name, IsNamed a name) :
    Dependency.ofArchive a signers = .error (.missingAttribute a.name symbolicNameHeader) := by
  unfold Dependency.ofArchive
  split
  · rfl
  · next name hname =>
      have hblank : Text.allBlank name = true := by
        by_contra hblank
        apply h
        exact ⟨name, Manifest.Attributes.get?_eq_some_iff.mp hname,
          Text.allBlank_eq_false_iff.mp (Bool.eq_false_iff.mpr hblank)⟩
      rw [if_pos hblank]

theorem Dependency.ofArchive_of_isNamed {name : String} (h : IsNamed a name) :
    Dependency.ofArchive a signers =
      match a.attributes.get? versionHeader with
      | none => .error (.missingAttribute a.name versionHeader)
      | some version => .ok ⟨name, version, a.attributes.get? typeHeader, signers⟩ := by
  have hname := Manifest.Attributes.get?_eq_some_iff.mpr h.1
  have hvisible := Text.allBlank_eq_false_iff.mpr h.2
  unfold Dependency.ofArchive
  simp only [hname, hvisible]
  rfl

end Record

section Outcome

variable {algorithm : Digest.Algorithm} {a : Archive} {leaves : Set Certificate}

/-- The signers of an archive with one set of signing certificates are that set. -/
theorem remoteRecord_of_isSignedBy (h : a.IsSignedBy leaves) (algorithm : Digest.Algorithm) :
    ∃ s : SignerSet, s.toSet = leaves ∧ remoteRecord algorithm a =
      Dependency.ofArchive a (.publicKeyHashes (s.toList.map (keyHash algorithm))) := by
  obtain ⟨es, hes⟩ := h.exists_read
  have hleaves : (Archive.profileOf es).leafSets = {leaves} := by
    rw [Archive.leafSets_profileOf]
    exact (Archive.isSignedBy_iff hes).mp h
  have hmem : leaves ∈ (Archive.profileOf es).leafSets := by simp [hleaves]
  obtain ⟨s, _, rfl⟩ := hmem
  have hsingle := Profile.single?_eq_some_iff_leafSets.mpr hleaves
  have hprofile := congrArg Traced.result (Archive.profile_of_read hes)
  refine ⟨s, rfl, ?_⟩
  rw [remoteRecord_of_ok hprofile, hsingle]
  rfl

theorem remoteRecord_of_not_isSignedBy {es : List Archive.Entry} (hes : a.entries = es.map .ok)
    (h : ¬ ∃ leaves, a.IsSignedBy leaves) :
    remoteRecord algorithm a = .error (.multipleSignerSets a.name (Archive.profileOf es)) := by
  have hnone : (Archive.profileOf es).single? = none := by
    rw [Option.eq_none_iff_forall_ne_some]
    intro s hs
    apply h
    rw [Profile.single?_eq_some_iff_leafSets, Archive.leafSets_profileOf] at hs
    exact ⟨s.toSet, (Archive.isSignedBy_iff hes).mpr hs⟩
  have hprofile := congrArg Traced.result (Archive.profile_of_read hes)
  rw [remoteRecord_of_ok hprofile, hnone]

theorem IsRefusal.remoteRecord_eq {failure : Failure} (h : IsRefusal a failure)
    (algorithm : Digest.Algorithm) : remoteRecord algorithm a = .error failure := by
  cases h with
  | unread front failure back hentries =>
      rw [remoteRecord, Archive.profile_of_unread hentries]
      rfl
  | divided es sets sorted hread hdifferent hlisted _ =>
      have hprofile : Archive.profileOf es = ⟨sets, sorted⟩ := by
        apply Profile.leafSets_injective
        rw [Archive.leafSets_profileOf]
        ext leaves
        exact hlisted leaves
      rw [remoteRecord_of_not_isSignedBy hread hdifferent, hprofile]
  | nameless leaves hsigned hunnamed =>
      obtain ⟨s, _, hrecord⟩ := remoteRecord_of_isSignedBy hsigned algorithm
      rw [hrecord, Dependency.ofArchive_of_not_isNamed hunnamed]
  | unversioned leaves hsigned hnamed hunversioned =>
      obtain ⟨name, hname⟩ := hnamed
      obtain ⟨s, _, hrecord⟩ := remoteRecord_of_isSignedBy hsigned algorithm
      have hversion := Manifest.Attributes.get?_eq_none_iff.mpr hunversioned
      rw [hrecord, Dependency.ofArchive_of_isNamed hname, hversion]

theorem IsAppendable.exists_isRecordOf (h : IsAppendable a) (algorithm : Digest.Algorithm) :
    ∃ leaves d, a.IsSignedBy leaves ∧ IsRecordOf algorithm a leaves d ∧
      remoteRecord algorithm a = .ok d := by
  obtain ⟨leaves, hsigned⟩ := h.signed
  obtain ⟨name, hname⟩ := h.named
  obtain ⟨version, hversion⟩ := h.versioned
  obtain ⟨s, hleaves, hrecord⟩ := remoteRecord_of_isSignedBy hsigned algorithm
  have hget := Manifest.Attributes.get?_eq_some_iff.mpr hversion
  rw [Dependency.ofArchive_of_isNamed hname, hget] at hrecord
  refine ⟨leaves, _, hsigned, ⟨hname, hversion, ?_, s.toList, s.sorted, ?_, rfl⟩, hrecord⟩
  · intro t
    exact Manifest.Attributes.get?_eq_some_iff
  · intro c
    exact Set.ext_iff.mp hleaves c

/-- There is no reason to refuse an archive that has what its record needs. -/
theorem IsAppendable.not_isRefusal (h : IsAppendable a) (failure : Failure) :
    ¬ IsRefusal a failure := by
  intro hrefusal
  obtain ⟨_, d, _, _, hrecord⟩ := h.exists_isRecordOf .sha1
  have hfailed := hrefusal.remoteRecord_eq .sha1
  rw [hrecord] at hfailed
  cases hfailed

/-- An archive has what its record needs, or there is a reason to refuse it. -/
theorem isAppendable_or_isRefusal (a : Archive) :
    IsAppendable a ∨ ∃ failure, IsRefusal a failure := by
  rcases a.entries_cases with ⟨es, hes⟩ | ⟨front, failure, back, hentries⟩
  · by_cases hsigned : ∃ leaves, a.IsSignedBy leaves
    · obtain ⟨leaves, hleaves⟩ := hsigned
      by_cases hnamed : ∃ name, IsNamed a name
      · by_cases hversioned : ∃ version, a.attributes.HasHeader versionHeader version
        · exact .inl ⟨⟨leaves, hleaves⟩, hnamed, hversioned⟩
        · exact .inr ⟨_, .unversioned leaves hleaves hnamed hversioned⟩
      · exact .inr ⟨_, .nameless leaves hleaves hnamed⟩
    · have hsets := Archive.leafSets_profileOf es
      have hcount := Profile.size_eq_ncard (Archive.profileOf es)
      rw [hsets] at hcount
      have hlisted : ∀ leaves, leaves ∈ Archive.leafSets es ↔
          ∃ s ∈ (Archive.profileOf es).toList, s.toSet = leaves := by
        rw [← hsets]
        intro leaves
        exact Iff.rfl
      exact .inr ⟨_, .divided es _ (Archive.profileOf es).sorted hes hsigned hlisted hcount⟩
  · exact .inr ⟨failure, .unread front failure back hentries⟩

/-- **When a remote archive is appended.** It is appended exactly if its entries were all read
and those that must be signed, at least one, have the same signing certificates, and if it has
a name and a version. Then one record is added at the end: with the name, the version, the type
if there is one, and a hash for each of the certificates, in increasing order. Otherwise the
failure is the first one that there is a reason for, and the graph is as it was; if the signers
differ, the failure counts and lists the sets of signing certificates, which may be none at
all. -/
theorem Graph.appendRemote_outcome (g : Graph) (a : Archive) :
    ((g.appendRemote a).result = .ok () ↔ IsAppendable a) ∧
    ((g.appendRemote a).result = .ok () →
      ∃ leaves d, a.IsSignedBy leaves ∧ IsRecordOf g.algorithm a leaves d ∧
        (g.appendRemote a).state = ⟨g.algorithm, g.dependencies ++ [d]⟩) ∧
    (∀ failure, (g.appendRemote a).result = .error failure ↔ IsRefusal a failure) ∧
    (∀ failure, (g.appendRemote a).result = .error failure → (g.appendRemote a).state = g) ∧
    ∀ (sets : List SignerSet) (sorted : sets.Pairwise fun s t => compare s t = .lt),
      (Failure.multipleSignerSets a.name ⟨sets, sorted⟩).message =
        "CPK " ++ a.name ++ " must be signed by exactly one set of signers, found " ++
          toString sets.length ++ ":\n" ++ "\n".intercalate (sets.map SignerSet.display) := by
  rw [Graph.appendRemote_eq]
  rcases isAppendable_or_isRefusal a with happendable | ⟨failure, hrefusal⟩
  · obtain ⟨leaves, d, hsigned, hd, hrecord⟩ := happendable.exists_isRecordOf g.algorithm
    rw [hrecord]
    refine ⟨iff_of_true rfl happendable, fun _ => ⟨leaves, d, hsigned, hd, rfl⟩, ?_, by rintro _ ⟨⟩,
      fun _ _ => rfl⟩
    intro failure
    exact iff_of_false (by rintro ⟨⟩) (happendable.not_isRefusal failure)
  · have hfailed := hrefusal.remoteRecord_eq g.algorithm
    rw [hfailed]
    refine ⟨iff_of_false (by rintro ⟨⟩) ?_, by rintro ⟨⟩, ?_, fun _ _ => rfl, fun _ _ => rfl⟩
    · intro happendable
      exact happendable.not_isRefusal failure hrefusal
    · intro other
      constructor
      · intro hother
        obtain rfl := Except.error.inj hother
        exact hrefusal
      · intro hother
        rw [← hfailed, hother.remoteRecord_eq g.algorithm]
        rfl

-- An archive with nothing to sign has no set of signers.
example (g : Graph) : (g.appendRemote ⟨"empty.jar", [], []⟩).result =
    .error (.multipleSignerSets "empty.jar" OrderedSet.empty) := rfl

end Outcome

end Document

end CpkProvenance
