import CpkProvenance.Proofs.Archive.Profile
import CpkProvenance.Proofs.Archive.SignatureFiles
import CpkProvenance.Proofs.Digest.Stream

/-!
# Opened archives

What opening an archive establishes, and what reading its entries afterwards
does. An entry is read if its content can be, and has every digest that the
manifest records of it. How large the buffer is does not matter, as long as it
holds a byte.
-/

namespace CpkProvenance.Jar

open Zip (Member)

theorem ofMembers_eq_ok_iff {archive : String} {members : List Member} {jar : Jar} :
    (ofMembers archive members).result = .ok jar ↔
      ∃ manifest files, readManifest archive members = .ok manifest ∧
        (readSignatureFiles archive members manifest (members.map (·.name))).result = .ok files ∧
        jar = ⟨archive, members, manifest, files⟩ := by
  simp only [ofMembers, Traced.result_bind_eq_ok_iff, Traced.result_ofExcept,
    Traced.result_writeAll, Traced.result_write, Traced.result_pure, Except.ok.injEq,
    eq_comm (a := jar)]
  grind

theorem members_of_ofMembers {archive : String} {members : List Member} {jar : Jar}
    (h : (ofMembers archive members).result = .ok jar) : jar.members = members := by
  obtain ⟨_, _, _, _, rfl⟩ := ofMembers_eq_ok_iff.mp h
  rfl

theorem ofBytes_eq_ok_iff {archive : String} {file : Bytes} {jar : Jar} :
    (ofBytes archive file).result = .ok jar ↔
      ∃ members, Zip.members file = .ok members ∧ (ofMembers archive members).result = .ok jar := by
  unfold ofBytes
  split
  · next fault h => simp [h]
  · next members h => simp [h]

/-- The manifest of an archive is the first member of its name. -/
def IsManifestOf (members : List Member) (manifest : Manifest) : Prop :=
  ∃ m bytes, named? members manifestPath = some m ∧ m.content = .ok bytes ∧
    Manifest.parse bytes = .ok manifest

theorem readManifest_of_none {archive : String} {members : List Member}
    (h : named? members manifestPath = none) :
    readManifest archive members = .ok Manifest.empty := by
  unfold named? at h
  simp only [readManifest, readNamed, h]
  rfl

theorem readManifest_of_some {archive : String} {members : List Member} {m : Member}
    {manifest : Manifest} (hm : named? members manifestPath = some m) :
    readManifest archive members = .ok manifest ↔ IsManifestOf members manifest := by
  unfold readManifest IsManifestOf
  rw [bind_eq_ok_iff]
  constructor
  · rintro ⟨found, hfound, h⟩
    obtain ⟨bytes, hbytes, rfl⟩ := (readNamed_eq_ok_of_named? hm).mp hfound
    refine ⟨m, bytes, hm, hbytes, ?_⟩
    cases hp : Manifest.parse bytes with
    | error fault => simp [hp] at h
    | ok parsed => simpa [hp] using h
  · rintro ⟨m', bytes, hm', hbytes, hp⟩
    obtain rfl : m = m' := Option.some.inj (hm.symm.trans hm')
    exact ⟨some bytes, (readNamed_eq_ok_of_named? hm).mpr ⟨bytes, hbytes, rfl⟩, by simp [hp]⟩

/-- The content of a member has every digest that the manifest records of it. -/
def IsIntact (jar : Jar) (m : Member) : Prop :=
  ∃ bytes, m.content = .ok bytes ∧ ∀ d ∈ jar.recordedDigests m.name, d.IsDigestOf bytes

/-- The entry that reading an intact member shows. -/
def entryOf (jar : Jar) (m : Member) : Archive.Entry :=
  ⟨m.name, m.isDirectory, jar.signersOf m⟩

@[simp] theorem signers_entryOf (jar : Jar) (m : Member) :
    (jar.entryOf m).signers = jar.signersOf m := rfl

theorem readEntry_eq_ok_iff {jar : Jar} {buffer : Nat} (hbuffer : buffer ≠ 0) {m : Member}
    {e : Archive.Entry} :
    jar.readEntry buffer m = .ok e ↔ jar.IsIntact m ∧ e = jar.entryOf m := by
  unfold readEntry IsIntact entryOf Member.pieces
  rw [if_neg hbuffer]
  cases m.content with
  | error fault => simp [Except.map]
  | ok bytes =>
      simp only [Except.map, Except.ok.injEq, exists_eq_left']
      cases hd : (jar.recordedDigests m.name).find?
          fun d => !d.isOfPieces (Bytes.pieces buffer bytes) with
      | some d =>
          have hmem := List.mem_of_find?_eq_some hd
          have hwrong := List.find?_some hd
          simp only [Manifest.RecordedDigest.isOfPieces_pieces hbuffer, Bool.not_eq_true',
            Manifest.RecordedDigest.isOf_eq_false_iff] at hwrong
          simp only [reduceCtorEq, false_iff]
          exact fun h => hwrong (h.1 d hmem)
      | none =>
          simp only [List.find?_eq_none, Manifest.RecordedDigest.isOfPieces_pieces hbuffer,
            Bool.not_eq_true', Bool.not_eq_false, Manifest.RecordedDigest.isOf_iff] at hd
          simp only [Except.ok.injEq, eq_comm (a := e)]
          exact ⟨fun h => ⟨hd, h⟩, fun h => h.2⟩

theorem map_readEntry_eq_map_ok_iff {jar : Jar} {buffer : Nat} (hbuffer : buffer ≠ 0)
    {members : List Member} {es : List Archive.Entry} :
    members.map (jar.readEntry buffer) = es.map .ok ↔
      (∀ m ∈ members, jar.IsIntact m) ∧ es = members.map jar.entryOf := by
  induction members generalizing es with
  | nil => cases es <;> simp
  | cons m members ih =>
      cases es with
      | nil => simp
      | cons e es =>
          rw [List.map_cons, List.map_cons, List.map_cons, List.cons.injEq, List.cons.injEq, ih,
            readEntry_eq_ok_iff hbuffer, List.forall_mem_cons]
          exact and_and_and_comm

/-- The profile of an archive, in terms of its members. -/
theorem profile_archive_eq_ok_iff {jar : Jar} {buffer : Nat} (hbuffer : buffer ≠ 0)
    {p : Profile} :
    (jar.archive buffer).profile.result = .ok p ↔
      (∀ m ∈ jar.members, jar.IsIntact m) ∧ ∀ s, s ∈ p ↔ ∃ m ∈ jar.members,
        Archive.isSignable m.name m.isDirectory = true ∧
          SignerSet.ofSigners (jar.signersOf m) = s := by
  rw [Archive.profile_eq_ok_iff]
  constructor
  · rintro ⟨es, hes, hp⟩
    obtain ⟨hintact, rfl⟩ := (map_readEntry_eq_map_ok_iff hbuffer).mp hes
    refine ⟨hintact, fun s => ?_⟩
    simp only [hp, List.mem_map, exists_exists_and_eq_and, entryOf]
  · rintro ⟨hintact, hp⟩
    refine ⟨_, (map_readEntry_eq_map_ok_iff hbuffer).mpr ⟨hintact, rfl⟩, fun s => ?_⟩
    simp only [hp, List.mem_map, exists_exists_and_eq_and, entryOf]

/-- All entries that must be signed have the same signers, and there are such
entries. -/
structure IsUnanimous (jar : Jar) (signers : SignerSet) : Prop where
  intact : ∀ m ∈ jar.members, jar.IsIntact m
  same : ∀ m ∈ jar.members, Archive.isSignable m.name m.isDirectory = true →
    SignerSet.ofSigners (jar.signersOf m) = signers
  nonempty : ∃ m ∈ jar.members, Archive.isSignable m.name m.isDirectory = true

theorem isUnanimous_iff {jar : Jar} {buffer : Nat} (hbuffer : buffer ≠ 0) {signers : SignerSet} :
    jar.IsUnanimous signers ↔
      ∃ p, (jar.archive buffer).profile.result = .ok p ∧ p.single? = some signers := by
  constructor
  · rintro ⟨hintact, hsame, m, hm, hms⟩
    refine ⟨⟨[signers], List.pairwise_singleton _ _⟩, ?_, rfl⟩
    refine (profile_archive_eq_ok_iff hbuffer).mpr ⟨hintact, fun s => ?_⟩
    rw [OrderedSet.mem_def, List.mem_singleton]
    constructor
    · rintro rfl
      exact ⟨m, hm, hms, hsame m hm hms⟩
    · rintro ⟨e, he, hes, rfl⟩
      exact hsame e he hes
  · rintro ⟨p, hp, hsingle⟩
    obtain ⟨hintact, hsets⟩ := (profile_archive_eq_ok_iff hbuffer).mp hp
    rw [Profile.single?_eq_some_iff_mem] at hsingle
    refine ⟨hintact, fun m hm hms => ?_, ?_⟩
    · exact (hsingle _).mp ((hsets _).mpr ⟨m, hm, hms, rfl⟩)
    · obtain ⟨m, hm, hms, _⟩ := (hsets signers).mp ((hsingle _).mpr rfl)
      exact ⟨m, hm, hms⟩

section Signers

/-- The name of a member is that of the manifest in some case, but the manifest is
another member. -/
def Shadows (members : List Member) (m : Member) : Prop :=
  Text.equalIgnoringCase m.name manifestPath = true ∧ named? members manifestPath ≠ some m

/-- A member that is neither the manifest nor shadows it has another name. -/
theorem not_equalIgnoringCase_of_not_shadows {members : List Member} {m : Member}
    (hother : named? members manifestPath ≠ some m) (h : ¬ Shadows members m) :
    ¬ Text.equalIgnoringCase m.name manifestPath = true :=
  fun hname => h ⟨hname, hother⟩

theorem signersOf_of_manifestPath {jar : Jar} {m : Member}
    (h : Text.equalIgnoringCase m.name manifestPath = true) :
    jar.signersOf m = jar.signatureFiles.flatMap (·.signers) := by
  rw [signersOf, if_pos h]

/-- A signer of an entry other than the manifest comes from a signature file that
covers the entry, and the manifest records digests of the entry. -/
theorem mem_signersOf_iff {jar : Jar} {m : Member}
    (h : ¬ Text.equalIgnoringCase m.name manifestPath = true) {s : CodeSigner} :
    s ∈ jar.signersOf m ↔ jar.recordedDigests m.name ≠ [] ∧ m.isDirectory = false ∧
      ∃ f ∈ jar.signatureFiles, m.name ∈ f.covered ∧ s ∈ f.signers := by
  rw [signersOf, if_neg h]
  split
  · next hd =>
      simp only [List.mem_flatMap, List.mem_filter, List.contains_iff_mem, and_assoc]
      simp [hd.1, hd.2]
  · next hd =>
      simp only [List.not_mem_nil, false_iff]
      rintro ⟨hne, hdir, _⟩
      exact hd ⟨hne, by simp [hdir]⟩

theorem section?_of_recordedDigests {jar : Jar} {name : String}
    (h : jar.recordedDigests name ≠ []) :
    ∃ target, jar.manifest.section? name = some target ∧
      jar.recordedDigests name = target.digests := by
  unfold recordedDigests at h ⊢
  cases hs : jar.manifest.section? name with
  | none =>
      rw [hs] at h
      exact absurd rfl h
  | some target => exact ⟨target, rfl, rfl⟩

/-- An archive without a manifest has no signed entries. -/
theorem exists_manifest_of_signersOf {archive : String} {jar : Jar}
    (hmanifest : readManifest archive jar.members = .ok jar.manifest) {m : Member}
    (hm : m ∈ jar.members) (hsigned : jar.signersOf m ≠ []) :
    ∃ first, named? jar.members manifestPath = some first := by
  cases hnamed : named? jar.members manifestPath with
  | some first => exact ⟨first, rfl⟩
  | none =>
      exfalso
      have hother : ¬ Text.equalIgnoringCase m.name manifestPath = true :=
        fun h => by simpa [h] using List.find?_eq_none.mp hnamed m hm
      obtain ⟨s, hs⟩ := List.exists_mem_of_ne_nil _ hsigned
      obtain ⟨hrecorded, _⟩ := (mem_signersOf_iff hother).mp hs
      rw [readManifest_of_none hnamed, Except.ok.injEq] at hmanifest
      refine hrecorded ?_
      rw [recordedDigests, ← hmanifest]
      rfl

end Signers

section Manifest

/-- The name of the manifest in lower case. -/
theorem map_toLower_of_manifestPath {name : String}
    (h : Text.equalIgnoringCase name manifestPath = true) :
    name.toList.map Char.toLower = "meta-inf/manifest.mf".toList := by
  have hlower := congrArg String.toList (Text.equalIgnoringCase_iff.mp h)
  rw [Text.toList_lower, Text.toList_lower] at hlower
  exact hlower

theorem not_isExempt_of_manifest {rest : String}
    (h : rest.toList.map Char.toLower = "manifest.mf".toList) : Archive.isExempt rest = false := by
  have start {start tail : String} (e : rest = start ++ tail) :
      start.toList.map Char.toLower <+: "manifest.mf".toList := by
    rw [← h, e, String.toList_append, List.map_append]
    exact List.prefix_append _ _
  have ending {front ending : String} (e : rest = front ++ ending) :
      ending.toList.map Char.toLower <:+ "manifest.mf".toList := by
    rw [← h, e, String.toList_append, List.map_append]
    exact List.suffix_append _ _
  have hindex : ¬ rest = "INDEX.LIST" := fun e =>
    absurd (start (e.trans (String.append_empty).symm)) (by decide)
  have hsig : Text.dropStart? "SIG-" rest = none :=
    Option.eq_none_iff_forall_ne_some.mpr fun tail e =>
      absurd (start (Text.dropStart?_eq_some_iff.mp e)) (by decide)
  have hends : ∀ e ∈ Archive.signatureEndings, Text.dropEnd? e rest = none := by
    intro e he
    refine Option.eq_none_iff_forall_ne_some.mpr fun front hfront => ?_
    have hsuffix := ending (Text.dropEnd?_eq_some_iff.mp hfront)
    clear hfront
    revert e
    decide
  simp only [Archive.isExempt, hsig, Option.any_none, Bool.or_false, Bool.or_eq_false_iff,
    beq_eq_false_iff_ne, List.any_eq_false]
  refine ⟨hindex, fun e he => ?_⟩
  rw [hends e he]
  simp

/-- The manifest must be signed like any other file. -/
theorem isSignable_of_manifestPath {m : Member}
    (h : Text.equalIgnoringCase m.name manifestPath = true) :
    Archive.isSignable m.name m.isDirectory = true := by
  have hname := map_toLower_of_manifestPath h
  have hdirectory : m.isDirectory = false := by
    have hlast : (m.name.toList.getLast?).map Char.toLower = some 'f' := by
      rw [← List.getLast?_map, hname]
      decide
    unfold Member.isDirectory
    cases hc : m.name.toList.getLast? with
    | none => rfl
    | some c =>
        rw [hc, Option.map_some, Option.some.injEq] at hlast
        simp only [Bool.or_eq_false_iff, beq_eq_false_iff_ne]
        constructor
        · rintro rfl
          exact absurd hlast (by decide)
        · rintro rfl
          exact absurd hlast (by decide)
  rw [Archive.isSignable, hdirectory]
  cases hrest : Text.dropStart? "META-INF/" m.name with
  | none => rfl
  | some rest =>
      rw [Text.dropStart?_eq_some_iff.mp hrest, String.toList_append, List.map_append] at hname
      have hsplit : "meta-inf/".toList ++ rest.toList.map Char.toLower =
          "meta-inf/".toList ++ "manifest.mf".toList := hname
      simp [not_isExempt_of_manifest (List.append_cancel_left hsplit)]

end Manifest

end CpkProvenance.Jar
