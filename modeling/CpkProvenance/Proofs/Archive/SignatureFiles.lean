import CpkProvenance.Proofs.Archive.Coverage
import CpkProvenance.Proofs.Text.Case

/-!
# Signature files of an archive

Which members are signature files, which blocks go with them, and what reading
them all gives. Members are found by name in any case, the first one in the order
of the archive. A signature file `META-INF/X.SF` has the block `META-INF/X.RSA`,
or else `META-INF/X.DSA`, or else `META-INF/X.EC`.
-/

namespace CpkProvenance.Jar

open Zip (Member)

/-- The member that a name in any case leads to. -/
def named? (members : List Member) (wanted : String) : Option Member :=
  members.find? fun m => Text.equalIgnoringCase m.name wanted

theorem named?_eq_some {members : List Member} {wanted : String} {m : Member}
    (h : named? members wanted = some m) :
    m ∈ members ∧ Text.equalIgnoringCase m.name wanted = true := by
  have hm := List.find?_some h
  exact ⟨List.mem_of_find?_eq_some h, hm⟩

/-- Names that differ in case only lead to the same member. -/
theorem named?_congr (members : List Member) {a b : String}
    (h : Text.equalIgnoringCase a b = true) : named? members a = named? members b := by
  unfold named?
  simp only [Text.equalIgnoringCase_congr h]

/-- The name of a member leads to a member of the same name in some case. -/
theorem exists_named? {members : List Member} {m : Member} (h : m ∈ members) :
    ∃ first, named? members m.name = some first := by
  have hsome : (named? members m.name).isSome := by
    rw [named?, List.find?_isSome]
    exact ⟨m, h, Text.equalIgnoringCase_refl m.name⟩
  exact Option.isSome_iff_exists.mp hsome

theorem readNamed_of_named? {archive wanted : String} {members : List Member} {m : Member}
    (h : named? members wanted = some m) :
    readNamed archive members wanted =
      match m.content with
      | .ok content => .ok (some content)
      | .error fault => .error (readFailure archive m fault) := by
  unfold named? at h
  cases hc : m.content with
  | error fault => simp only [readNamed, h, hc]
  | ok content => simp only [readNamed, h, hc]

theorem readNamed_eq_ok_of_named? {archive wanted : String} {members : List Member} {m : Member}
    {found : Option Bytes} (hm : named? members wanted = some m) :
    readNamed archive members wanted = .ok found ↔
      ∃ content, m.content = .ok content ∧ found = some content := by
  rw [readNamed_of_named? hm]
  cases m.content with
  | error fault => simp
  | ok content => simp [eq_comm]

/-- The name `META-INF/X.SF` in any case, where `X`, in upper case, is not empty
and does not lead into a directory. -/
structure IsSignatureName (name base : String) : Prop where
  upper_eq : Text.upper name = "META-INF/" ++ base ++ ".SF"
  base_ne : base ≠ ""
  flat : '/' ∉ base.toList

theorem signatureBase?_eq_some_iff {name base : String} :
    signatureBase? name = some base ↔ IsSignatureName name base := by
  unfold signatureBase?
  constructor
  · intro h
    obtain ⟨inner, hinner, h⟩ := Option.bind_eq_some_iff.mp h
    obtain ⟨b, hb, h⟩ := Option.bind_eq_some_iff.mp h
    split at h
    · cases h
    · next hbad =>
        obtain rfl := Option.some.inj h
        rw [not_or] at hbad
        refine ⟨?_, hbad.1, hbad.2⟩
        rw [Text.dropStart?_eq_some_iff.mp hinner, Text.dropEnd?_eq_some_iff.mp hb,
          String.append_assoc]
  · rintro ⟨hname, hne, hflat⟩
    rw [String.append_assoc] at hname
    refine Option.bind_eq_some_iff.mpr ⟨_, Text.dropStart?_eq_some_iff.mpr hname, ?_⟩
    refine Option.bind_eq_some_iff.mpr ⟨base, Text.dropEnd?_eq_some_iff.mpr rfl, ?_⟩
    exact if_neg (not_or.mpr ⟨hne, hflat⟩)

/-- Whether a name is that of a signature file does not depend on its case. -/
theorem IsSignatureName.congr {a b base : String} (h : IsSignatureName a base)
    (hab : Text.equalIgnoringCase b a = true) : IsSignatureName b base :=
  ⟨(Text.equalIgnoringCase_iff_upper.mp hab).trans h.upper_eq, h.base_ne, h.flat⟩

/-- The block of the signature files of a base: the endings are tried in order. -/
def block? (members : List Member) (base : String) : Option Member :=
  blockEndings.findSome? fun ending =>
    named? members ("META-INF/" ++ base ++ "." ++ ending)

theorem blockName?_eq_map_block? (members : List Member) (base : String) :
    blockName? (members.map (·.name)) base = (block? members base).map (·.name) := by
  simp only [blockName?, block?, named?, List.find?_map, List.map_findSome?]
  rfl

/-- The name of a block leads to the block, and not to another member whose name
differs in case. -/
theorem named?_name_of_block? {members : List Member} {base : String} {block : Member}
    (h : block? members base = some block) : named? members block.name = some block := by
  obtain ⟨ending, _, hending⟩ := List.exists_of_findSome?_eq_some h
  rw [named?_congr members (named?_eq_some hending).2, hending]

/-- A signature file and its block as members of an archive, with what the one
says and who signed the other. -/
structure IsSigned (members : List Member) (file block : Member) (content : Manifest)
    (signers : List CodeSigner) : Prop where
  file_mem : file ∈ members
  named : ∃ base, IsSignatureName file.name base ∧ block? members base = some block
  parsed : ∃ bytes, file.content = .ok bytes ∧ Manifest.parse bytes = .ok content
  decoded : ∃ bytes, block.content = .ok bytes ∧ Signing.codeSigners bytes = .ok signers

/-- The names of signature files that have a block, with the names of the
blocks. -/
def requests (members : List Member) (names : List String) : List (String × String) :=
  names.filterMap fun path => (signatureBase? path).bind fun base =>
    (blockName? (members.map (·.name)) base).map fun block => (path, block)

theorem mem_requests_iff {members : List Member} {names : List String} {path block : String} :
    (path, block) ∈ requests members names ↔
      path ∈ names ∧ ∃ base, IsSignatureName path base ∧
        ∃ b, block? members base = some b ∧ b.name = block := by
  simp only [requests, List.mem_filterMap, Option.bind_eq_some_iff, Option.map_eq_some_iff,
    Prod.mk.injEq, signatureBase?_eq_some_iff, blockName?_eq_map_block?]
  constructor
  · rintro ⟨_, hp, base, hbase, _, ⟨b, hb, rfl⟩, rfl, rfl⟩
    exact ⟨hp, base, hbase, b, hb, rfl⟩
  · rintro ⟨hp, base, hbase, b, hb, rfl⟩
    exact ⟨path, hp, base, hbase, _, ⟨b, hb, rfl⟩, rfl, rfl⟩

/-- Signature files are read one after the other, and each on its own. -/
theorem result_readSignatureFiles (archive : String) (members : List Member)
    (manifest : Manifest) (names : List String) :
    (readSignatureFiles archive members manifest names).result =
      (requests members names).mapM fun r =>
        readSignatureFile archive members manifest r.1 r.2 := by
  induction names with
  | nil => rfl
  | cons path rest ih =>
      rw [readSignatureFiles, requests, List.filterMap_cons]
      cases signatureBase? path with
      | none => exact ih
      | some base =>
          simp only [Option.bind_some]
          cases blockName? (members.map (·.name)) base with
          | none =>
              rw [Traced.result_bind]
              exact ih
          | some block =>
              simp only [Option.map_some, List.mapM_cons, Traced.result_bind,
                Traced.result_ofExcept, ih]
              rfl

/-- A signature file is read if it is a manifest, its block tells signers and its
digests are right. -/
theorem readSignatureFile_eq_ok_iff {archive : String} {members : List Member}
    {manifest : Manifest} {path : String} {file block : Member} {f : SignatureFile}
    (hfile : named? members path = some file) (hblock : named? members block.name = some block) :
    readSignatureFile archive members manifest path block.name = .ok f ↔
      ∃ content, (∃ bytes, file.content = .ok bytes ∧ Manifest.parse bytes = .ok content) ∧
        (∃ bytes, block.content = .ok bytes ∧ Signing.codeSigners bytes = .ok f.signers) ∧
        coveredNames path content manifest = .ok f.covered ∧ f.path = path := by
  unfold readSignatureFile
  constructor
  · intro h
    obtain ⟨_, hfound, h⟩ := bind_eq_ok_iff.mp h
    obtain ⟨bytes, hbytes, rfl⟩ := (readNamed_eq_ok_of_named? hfile).mp hfound
    rw [Option.getD_some] at h
    cases hm : Manifest.parse bytes with
    | error fault =>
        rw [hm] at h
        cases h
    | ok content =>
        rw [hm] at h
        obtain ⟨_, ⟨⟩, h⟩ := bind_eq_ok_iff.mp h
        obtain ⟨_, hfound, h⟩ := bind_eq_ok_iff.mp h
        obtain ⟨raw, hraw, rfl⟩ := (readNamed_eq_ok_of_named? hblock).mp hfound
        rw [Option.getD_some] at h
        cases hs : Signing.codeSigners raw with
        | error fault =>
            rw [hs] at h
            cases h
        | ok signers =>
            rw [hs] at h
            cases hc : coveredNames path content manifest with
            | error fault =>
                simp only [hc] at h
                cases h
            | ok covered =>
                simp only [hc] at h
                obtain rfl := Except.ok.inj h
                exact ⟨content, ⟨bytes, hbytes, hm⟩, ⟨raw, hraw, hs⟩, hc, rfl⟩
  · rintro ⟨content, ⟨bytes, hbytes, hm⟩, ⟨raw, hraw, hs⟩, hcovered, rfl⟩
    refine bind_eq_ok_iff.mpr
      ⟨some bytes, (readNamed_eq_ok_of_named? hfile).mpr ⟨bytes, hbytes, rfl⟩, ?_⟩
    rw [Option.getD_some, hm]
    refine bind_eq_ok_iff.mpr ⟨content, rfl, ?_⟩
    refine bind_eq_ok_iff.mpr
      ⟨some raw, (readNamed_eq_ok_of_named? hblock).mpr ⟨raw, hraw, rfl⟩, ?_⟩
    simp only [Option.getD_some, hs, hcovered]
    rfl

/-- What is known of one signature file of an open archive. The member that was
read for it need not be the one with exactly its name, but differs in case only. -/
theorem isSigned_of_mem {archive : String} {members : List Member} {manifest : Manifest}
    {files : List SignatureFile}
    (h : (readSignatureFiles archive members manifest (members.map (·.name))).result = .ok files)
    {f : SignatureFile} (hf : f ∈ files) :
    ∃ file block content, IsSigned members file block content f.signers ∧
      coveredNames f.path content manifest = .ok f.covered := by
  rw [result_readSignatureFiles] at h
  obtain ⟨⟨path, name⟩, hr, hread⟩ := exists_of_forall₂_right (mapM_eq_ok_iff.mp h) hf
  obtain ⟨hpath, base, hbase, block, hblock, rfl⟩ := mem_requests_iff.mp hr
  obtain ⟨m, hm, rfl⟩ := List.mem_map.mp hpath
  obtain ⟨file, hfile⟩ := exists_named? hm
  obtain ⟨content, hparsed, hdecoded, hcovered, hfpath⟩ :=
    (readSignatureFile_eq_ok_iff hfile (named?_name_of_block? hblock)).mp hread
  obtain ⟨hmem, hcase⟩ := named?_eq_some hfile
  refine ⟨file, block, content, ⟨hmem, ⟨base, hbase.congr hcase, hblock⟩, hparsed, hdecoded⟩, ?_⟩
  rw [hfpath]
  exact hcovered

/-- Every signature file with a block was read, and with it the block. -/
theorem exists_mem_of_isSignatureName {archive : String} {members : List Member}
    {manifest : Manifest} {files : List SignatureFile}
    (h : (readSignatureFiles archive members manifest (members.map (·.name))).result = .ok files)
    {m block : Member} {base : String} (hm : m ∈ members) (hbase : IsSignatureName m.name base)
    (hblock : block? members base = some block) :
    ∃ f ∈ files, ∃ bytes, block.content = .ok bytes ∧
      Signing.codeSigners bytes = .ok f.signers := by
  rw [result_readSignatureFiles] at h
  have hr : (m.name, block.name) ∈ requests members (members.map (·.name)) :=
    mem_requests_iff.mpr ⟨List.mem_map_of_mem hm, base, hbase, block, hblock, rfl⟩
  obtain ⟨f, hf, hread⟩ := exists_of_forall₂_left (mapM_eq_ok_iff.mp h) hr
  obtain ⟨file, hfile⟩ := exists_named? hm
  obtain ⟨_, _, hdecoded, _⟩ :=
    (readSignatureFile_eq_ok_iff hfile (named?_name_of_block? hblock)).mp hread
  exact ⟨f, hf, hdecoded⟩

/-- Signature files are read if each of them can be. -/
theorem exists_readSignatureFiles {archive : String} {members : List Member} {manifest : Manifest}
    (h : ∀ f ∈ members, ∀ base block, IsSignatureName f.name base →
      block? members base = some block → ∃ content signers,
        IsSigned members f block content signers ∧
          ∀ path, ∃ names, coveredNames path content manifest = .ok names) :
    ∃ files, (readSignatureFiles archive members manifest (members.map (·.name))).result =
      .ok files := by
  rw [result_readSignatureFiles]
  refine exists_mapM_eq_ok fun r hr => ?_
  obtain ⟨hpath, base, hbase, block, hblock, hname⟩ := mem_requests_iff.mp hr
  obtain ⟨m, hm, hmpath⟩ := List.mem_map.mp hpath
  obtain ⟨file, hfile⟩ := exists_named? hm
  rw [hmpath] at hfile
  obtain ⟨hmem, hcase⟩ := named?_eq_some hfile
  obtain ⟨content, signers, hsigned, hcovered⟩ := h file hmem base block (hbase.congr hcase) hblock
  obtain ⟨names, hnames⟩ := hcovered r.1
  rw [← hname]
  exact ⟨⟨r.1, signers, names⟩,
    (readSignatureFile_eq_ok_iff hfile (named?_name_of_block? hblock)).mpr
      ⟨content, hsigned.parsed, hsigned.decoded, hnames, rfl⟩⟩

end CpkProvenance.Jar
