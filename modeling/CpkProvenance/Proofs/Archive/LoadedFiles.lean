import CpkProvenance.Proofs.Archive.SignerSoundness

/-!
# Which member a signature file is read from

Every member that is a signature file with a block gives one element, in the order
of the archive, recorded under the name of the member. What the element covers is
read from the first member of that name in any case, which need not be the member
itself: of `META-INF/A.SF` and `META-INF/a.sf` the first is read twice. The block
is the right one for both.
-/

namespace CpkProvenance.Jar

open Zip (Member)

/-- A member is a signature file that has a block. -/
def HasBlock (members : List Member) (m : Member) : Prop :=
  ∃ base block, IsSignatureName m.name base ∧ block? members base = some block

/-- The block of a member that is a signature file. -/
def blockOf? (members : List Member) (m : Member) : Option Member :=
  (signatureBase? m.name).bind (block? members)

theorem blockOf?_eq_some_iff {members : List Member} {m block : Member} :
    blockOf? members m = some block ↔
      ∃ base, IsSignatureName m.name base ∧ block? members base = some block := by
  simp only [blockOf?, Option.bind_eq_some_iff, signatureBase?_eq_some_iff]

theorem hasBlock_iff_isSome {members : List Member} {m : Member} :
    HasBlock members m ↔ (blockOf? members m).isSome := by
  rw [Option.isSome_iff_exists, HasBlock, exists_comm]
  simp only [blockOf?_eq_some_iff]

instance (members : List Member) (m : Member) : Decidable (HasBlock members m) :=
  decidable_of_iff _ hasBlock_iff_isSome.symm

/-- An element has the coverage of a given member, and the signers of the block
that goes with its path. -/
structure IsLoadedFrom (members : List Member) (manifest : Manifest) (file : Member)
    (f : SignatureFile) : Prop where
  covered : ∃ bytes content, file.content = .ok bytes ∧ Manifest.parse bytes = .ok content ∧
    coveredNames f.path content manifest = .ok f.covered
  signers : ∃ base block bytes, IsSignatureName f.path base ∧ block? members base = some block ∧
    block.content = .ok bytes ∧ Signing.codeSigners bytes = .ok f.signers

/-- The name of an earlier member is that of a given one in some case. -/
def IsEclipsed (members : List Member) (m : Member) : Prop :=
  ∃ front back, members = front ++ m :: back ∧
    ∃ e ∈ front, Text.equalIgnoringCase e.name m.name = true

/-- A member that is not eclipsed is found under its own name. -/
theorem named?_name_of_not_isEclipsed {members : List Member} {m : Member} (hm : m ∈ members)
    (h : ¬ IsEclipsed members m) : named? members m.name = some m := by
  obtain ⟨front, back, hmembers⟩ := List.append_of_mem hm
  have hfront : front.find? (fun e => Text.equalIgnoringCase e.name m.name) = none := by
    rw [List.find?_eq_none]
    intro e he hcase
    exact h ⟨front, back, hmembers, e, he, hcase⟩
  rw [named?, hmembers, List.find?_append, hfront, Option.none_or, List.find?_cons_of_pos]
  exact Text.equalIgnoringCase_refl m.name

/-- An eclipsed member is not found under its own name, if names are distinct. -/
theorem named?_name_of_isEclipsed {members : List Member} {m : Member}
    (distinct : (members.map (·.name)).Nodup) (h : IsEclipsed members m) :
    named? members m.name ≠ some m := by
  obtain ⟨front, back, hmembers, e, he, hcase⟩ := h
  intro hfound
  have hsome : (front.find? fun e => Text.equalIgnoringCase e.name m.name).isSome := by
    rw [List.find?_isSome]
    exact ⟨e, he, hcase⟩
  have hm : m ∈ front := by
    rw [named?, hmembers, List.find?_append, Option.or_of_isSome hsome] at hfound
    exact List.mem_of_find?_eq_some hfound
  rw [hmembers, List.map_append, List.nodup_append] at distinct
  exact distinct.2.2 m.name (List.mem_map_of_mem hm) m.name (by simp) rfl

/-- The names that are asked for, with those of the blocks, by members. -/
theorem requests_map_name (members rest : List Member) :
    requests members (rest.map (·.name)) =
      rest.filterMap fun m => (blockOf? members m).map fun block => (m.name, block.name) := by
  rw [requests, List.filterMap_map]
  apply List.filterMap_congr
  intro m _
  simp only [Function.comp_apply, blockOf?, blockName?_eq_map_block?, Option.map_bind,
    Option.map_map]
  rfl

/-- What holds of each request and its answer holds of the signature files with
blocks, in their order. -/
theorem forall₂_of_requests {members rest : List Member} {files : List SignatureFile}
    {R : String × String → SignatureFile → Prop}
    (h : List.Forall₂ R (requests members (rest.map (·.name))) files) :
    List.Forall₂ (fun m f => ∃ block, blockOf? members m = some block ∧ R (m.name, block.name) f)
      (rest.filter (HasBlock members ·)) files := by
  rw [requests_map_name] at h
  induction rest generalizing files with
  | nil => simpa using h
  | cons m rest ih =>
      rw [List.filterMap_cons] at h
      cases hblock : blockOf? members m with
      | none =>
          have hm : ¬ HasBlock members m := by simp [hasBlock_iff_isSome, hblock]
          rw [List.filter_cons_of_neg (by simpa using hm)]
          rw [hblock] at h
          exact ih h
      | some block =>
          have hm : HasBlock members m := by simp [hasBlock_iff_isSome, hblock]
          rw [List.filter_cons_of_pos (by simpa using hm)]
          rw [hblock] at h
          cases h with
          | cons hfirst hothers => exact .cons ⟨block, hblock, hfirst⟩ (ih hothers)

/-- One element is loaded from the member that its path leads to. -/
theorem isLoadedFrom_of_readSignatureFile {archive : String} {members : List Member}
    {manifest : Manifest} {m source block : Member} {f : SignatureFile}
    (hsource : named? members m.name = some source) (hblock : blockOf? members m = some block)
    (hread : readSignatureFile archive members manifest m.name block.name = .ok f) :
    f.path = m.name ∧ IsLoadedFrom members manifest source f := by
  obtain ⟨base, hbase, hfound⟩ := blockOf?_eq_some_iff.mp hblock
  obtain ⟨content, ⟨bytes, hbytes, hparse⟩, ⟨raw, hraw, hsigners⟩, hcovered, hpath⟩ :=
    (readSignatureFile_eq_ok_iff hsource (named?_name_of_block? hfound)).mp hread
  rw [← hpath] at hbase hcovered
  exact ⟨hpath, ⟨bytes, content, hbytes, hparse, hcovered⟩,
    ⟨base, block, raw, hbase, hfound, hraw, hsigners⟩⟩

/-- The element of a member, which is loaded from the member unless that is
eclipsed. Instead of an eclipsed member another one is read, the first of the name
in any case. -/
structure IsElementOf (members : List Member) (manifest : Manifest) (m : Member)
    (f : SignatureFile) : Prop where
  path_eq : f.path = m.name
  own : ¬ IsEclipsed members m → IsLoadedFrom members manifest m f
  other : IsEclipsed members m → ∃ source, source ≠ m ∧ named? members m.name = some source ∧
    IsLoadedFrom members manifest source f

theorem isElementOf_of_readSignatureFile {archive : String} {members : List Member}
    {manifest : Manifest} {m block : Member} {f : SignatureFile}
    (distinct : (members.map (·.name)).Nodup) (hm : m ∈ members)
    (hblock : blockOf? members m = some block)
    (hread : readSignatureFile archive members manifest m.name block.name = .ok f) :
    IsElementOf members manifest m f := by
  obtain ⟨source, hsource⟩ := exists_named? hm
  obtain ⟨hpath, hloaded⟩ := isLoadedFrom_of_readSignatureFile hsource hblock hread
  constructor
  · exact hpath
  · intro heclipsed
    rw [named?_name_of_not_isEclipsed hm heclipsed] at hsource
    cases hsource
    exact hloaded
  · intro heclipsed
    have hne : source ≠ m := by
      intro heq
      rw [heq] at hsource
      exact named?_name_of_isEclipsed distinct heclipsed hsource
    exact ⟨source, hne, hsource, hloaded⟩

/-- The elements are those of the signature files with blocks, in the order of the
archive and with distinct paths. Each has the signers of its block, and the
coverage of its member unless that is eclipsed. -/
theorem isElementOf_of_readSignatureFiles {archive : String} {members : List Member}
    {manifest : Manifest} {files : List SignatureFile}
    (distinct : (members.map (·.name)).Nodup)
    (loaded : (readSignatureFiles archive members manifest (members.map (·.name))).result =
      .ok files) :
    files.map (·.path) = (members.filter (HasBlock members ·)).map (·.name) ∧
      (files.map (·.path)).Nodup ∧
      List.Forall₂ (IsElementOf members manifest) (members.filter (HasBlock members ·)) files := by
  rw [result_readSignatureFiles] at loaded
  have hmem : ∀ m ∈ members.filter (HasBlock members ·), m ∈ members :=
    fun m hm => List.mem_of_mem_filter hm
  have hread := (List.forall₂_and_left _ _).mpr ⟨hmem, forall₂_of_requests (mapM_eq_ok_iff.mp loaded)⟩
  have helements : List.Forall₂ (IsElementOf members manifest)
      (members.filter (HasBlock members ·)) files := by
    apply hread.imp
    intro m f h
    obtain ⟨hm, block, hblock, hread⟩ := h
    exact isElementOf_of_readSignatureFile distinct hm hblock hread
  have hpaths : files.map (·.path) = (members.filter (HasBlock members ·)).map (·.name) := by
    rw [← List.forall₂_eq_eq_eq, List.forall₂_map_left_iff, List.forall₂_map_right_iff]
    exact helements.flip.imp fun _ _ h => h.path_eq
  refine ⟨hpaths, ?_, helements⟩
  rw [hpaths]
  exact (List.filter_sublist.map _).nodup distinct

section Sample

/-- A signature file that covers an entry. -/
def coveringFile : Member :=
  ⟨"META-INF/A.SF", .ok (Utf8.encode
    "SHA1-Digest-Manifest: 2jmj7l5rSw0yVb/vlWAYkK/YBwk=\n\nName: e\n".toList), none⟩

/-- A signature file that covers nothing. -/
def idleFile : Member := ⟨"META-INF/a.sf", .ok (Utf8.encode "K: v\n".toList), none⟩

def eclipsedMembers : List Member :=
  [coveringFile, idleFile, ⟨"META-INF/A.EC", .ok (sampleBlock 1), none⟩]

theorem isEclipsed_idleFile : IsEclipsed eclipsedMembers idleFile :=
  ⟨[coveringFile], _, rfl, coveringFile, List.mem_singleton_self _, by decide +kernel⟩

theorem covered_of_eclipsedMembers :
    ∃ files ∈ (readSignatureFiles "eclipsed.jar" eclipsedMembers Manifest.empty
        (eclipsedMembers.map (·.name))).result.toOption,
      files.map (fun f => (f.path, f.covered)) =
        [("META-INF/A.SF", ["e"]), ("META-INF/a.sf", ["e"])] := by
  decide +kernel

/-- The elements of both files are loaded from the first. -/
theorem isLoadedFrom_coveringFile :
    ∃ files, (eclipsedMembers.map (·.name)).Nodup ∧
      (readSignatureFiles "eclipsed.jar" eclipsedMembers Manifest.empty
        (eclipsedMembers.map (·.name))).result = .ok files ∧
      files.map (·.path) = ["META-INF/A.SF", "META-INF/a.sf"] ∧
      ∀ f ∈ files, IsLoadedFrom eclipsedMembers Manifest.empty coveringFile f := by
  obtain ⟨files, hfiles, _⟩ := covered_of_eclipsedMembers
  have loaded := toOption_eq_some_iff.mp hfiles
  have distinct : (eclipsedMembers.map (·.name)).Nodup := by decide +kernel
  obtain ⟨hpaths, _, helements⟩ := isElementOf_of_readSignatureFiles distinct loaded
  have hfilter : eclipsedMembers.filter (HasBlock eclipsedMembers ·) =
      [coveringFile, idleFile] := by decide +kernel
  have hnamed : ∀ m ∈ [coveringFile, idleFile],
      named? eclipsedMembers m.name = some coveringFile := by decide +kernel
  have hown : ¬ IsEclipsed eclipsedMembers coveringFile :=
    fun h => named?_name_of_isEclipsed distinct h (hnamed _ (by simp))
  rw [hfilter] at hpaths helements
  refine ⟨files, distinct, loaded, hpaths, ?_⟩
  intro f hf
  obtain ⟨m, hm, helement⟩ := exists_of_forall₂_right helements hf
  rcases List.mem_pair.mp hm with rfl | rfl
  · exact helement.own hown
  · obtain ⟨source, _, hsource, hloaded⟩ := helement.other isEclipsed_idleFile
    rw [hnamed _ hm] at hsource
    cases hsource
    exact hloaded

/-- **An element may have the coverage of another file than the one at its path**: it is
enough that the names of two signature files differ in case only. -/
theorem exists_element_not_isLoadedFrom :
    ∃ files, (eclipsedMembers.map (·.name)).Nodup ∧
      (readSignatureFiles "eclipsed.jar" eclipsedMembers Manifest.empty
        (eclipsedMembers.map (·.name))).result = .ok files ∧
      ∃ f ∈ files, ∃ m ∈ eclipsedMembers, HasBlock eclipsedMembers m ∧ m.name = f.path ∧
        ¬ IsLoadedFrom eclipsedMembers Manifest.empty m f := by
  obtain ⟨files, hfiles, hcovered⟩ := covered_of_eclipsedMembers
  have hg : ("META-INF/a.sf", ["e"]) ∈ files.map fun f => (f.path, f.covered) := by
    simp [hcovered]
  obtain ⟨g, hg, heq⟩ := List.mem_map.mp hg
  obtain ⟨hpath, hcovers⟩ := Prod.mk.inj heq
  refine ⟨files, by decide +kernel, toOption_eq_some_iff.mp hfiles, g, hg, idleFile, by decide,
    by decide +kernel, hpath.symm, ?_⟩
  intro hloaded
  obtain ⟨bytes, content, hbytes, hparse, hnames⟩ := hloaded.covered
  have hidle : ∀ content ∈ (Manifest.parse (Utf8.encode "K: v\n".toList)).toOption,
      (coveredNames "META-INF/a.sf" content Manifest.empty).toOption = some [] := by
    decide +kernel
  cases hbytes
  have hown := hidle content (toOption_eq_some_iff.mpr hparse)
  rw [hpath, hcovers] at hnames
  rw [hnames] at hown
  cases hown

end Sample

end CpkProvenance.Jar
